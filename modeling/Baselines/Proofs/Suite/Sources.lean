import Baselines.Proofs.Suite.Run

/-!
# Sources of baselines

No source stands where a baseline stands, so writing baselines leaves the requests for them as they
are.
-/

namespace Baselines

open Text

/-! ## 1. Sources beside baselines -/

namespace Name

-- The file name of a source names a file.
theorem isName_sourceName {t : Text} {n : Name} (h : parse t = .ok n) (ht : '/' ∉ t) :
    Path.isName n.sourceName = true := by
  obtain ⟨_, _, _, -, -, -, -, -, hne⟩ := parse_eq_ok.1 h
  obtain ⟨x, r, hx⟩ := List.exists_cons_of_ne_nil hne
  have hslash : '/' ∉ n.test := fun hm => ht (mem_of_mem_test h hm)
  have hs : n.sourceName = x :: (r ++ ".ts".toList) := by
    unfold sourceName
    rw [hx]
    rfl
  have hlen : 4 ≤ n.sourceName.length := by
    rw [hs, List.length_cons, List.length_append]
    have : ".ts".toList.length = 3 := rfl
    omega
  refine Path.isName_iff.2 ⟨?_, ?_, ?_⟩
  · have h1 : n.sourceName ≠ [] := by simp [hs]
    have h2 : n.sourceName ≠ ['.'] := by
      intro he
      rw [he] at hlen
      exact absurd hlen (by decide)
    simp [Path.isIdle, h1, h2]
  · intro he
    rw [he] at hlen
    exact absurd hlen (by decide)
  · unfold sourceName
    rw [List.mem_append, not_or]
    exact ⟨hslash, by decide⟩

theorem splitLast?_sourceName (n : Name) : splitLast? '.' n.sourceName = some (n.test, "ts".toList) :=
  splitLast?_append n.test (by decide)

end Name

namespace Suite

open Discovery

variable {suite : Suite} {index : Option SourceIndex} {d d' : Disk} {root : Path} {f : Found}

theorem index_ok (h : suite.index d = .ok index) {sources : SourceIndex}
    (hi : index = some sources) : ∃ folder, SourceIndex.build d folder = .ok sources := by
  unfold Suite.index at h
  cases hs : suite.sources with
  | none =>
    simp only [hs, Except.ok.injEq] at h
    rw [← h] at hi
    exact absurd hi (by simp)
  | some folder =>
    simp only [hs] at h
    refine ⟨folder, ?_⟩
    cases hb : SourceIndex.build d folder with
    | error t => simp [hb, Except.map] at h
    | ok b =>
      simp only [hb, Except.map, Except.ok.injEq] at h
      rw [hi, Option.some.injEq] at h
      rw [h]

-- The source of a baseline stands at no place of a baseline.
theorem source_not_isBaseline {e : Disk} (hi : suite.index e = .ok index) {p : Place}
    (hf : FoundAt root p f) {path : Path}
    (hs : Fixture.sourcePath? d index f.path f.name = some path) {q : Place}
    (hq : d'.locate path = .ok q) : ¬ isBaseline q := by
  rintro ⟨last, n, hl, hn⟩
  unfold Fixture.sourcePath? at hs
  cases hix : index with
  | some sources =>
    -- an index lists files with the extension of a source
    simp only [hix] at hs
    obtain ⟨folder, hb⟩ := index_ok hi hix
    obtain ⟨k, hne, hk, rfl, ht⟩ := SourceIndex.get?_build hb hs
    obtain ⟨r, -, rfl⟩ := Disk.locate_append_ok hne hk hq
    rw [List.getLast?_append_of_ne_nil r hne] at hl
    rw [hl, Option.bind_some] at ht
    obtain ⟨extension, hsplit, hext⟩ := SourceIndex.testOf?_eq_some ht
    exact SourceIndex.not_parse hsplit hext hn
  | none =>
    -- without one, the source has the name of the test beside the baseline
    simp only [hix, Option.filter_eq_some_iff, Option.map_eq_some_iff] at hs
    obtain ⟨⟨folder, -, rfl⟩, -⟩ := hs
    obtain ⟨name, hname, hparse⟩ := hf.name
    have hslash : '/' ∉ name := by
      apply Path.not_mem_of_isName
      exact List.all_eq_true.1 hf.named name (List.mem_of_getLast? hname)
    have hisname := Name.isName_sourceName hparse hslash
    have hrel : f.name.sourceName = Disk.relativePath [f.name.sourceName] := rfl
    rw [hrel] at hq
    obtain ⟨r, -, rfl⟩ := Disk.locate_append_ok (List.cons_ne_nil _ _) (by simp [hisname]) hq
    rw [List.getLast?_concat, Option.some.injEq] at hl
    rw [← hl] at hn
    exact SourceIndex.not_parse (Name.splitLast?_sourceName f.name) (by decide) hn

/-! ## 2. Requests after baselines were written -/

theorem sourcePath?_rewritten {S : Place → Prop} (h : Disk.Rewritten S d d')
    (index : Option SourceIndex) (path : Path) (name : Name) :
    Fixture.sourcePath? d' index path name = Fixture.sourcePath? d index path name := by
  have hf : d'.hasFile = d.hasFile := funext h.hasFile_eq
  unfold Fixture.sourcePath?
  rw [hf]

/-- A suite covers the same baselines after some were written. -/
theorem scope_rewritten {S : Place → Prop} (h : Disk.Rewritten S d d') :
    suite.scope d' = suite.scope d := by
  have hi : suite.index d' = suite.index d := by
    unfold Suite.index
    cases suite.sources with
    | none => rfl
    | some folder => simp only [SourceIndex.build_rewritten h]
  unfold scope
  rw [hi, baselines_rewritten h]

/-- After baselines were written there is still a request for a baseline that can be read. -/
theorem Sent.rewritten {e : Disk} (hi : suite.index e = .ok index) {p : Place}
    (hf : FoundAt root p f) {b c : Text} {r : Request} (hs : Sent d index f b r)
    (h : Disk.Rewritten isBaseline d d') (hc : d'.readText f.path = .ok c) :
    ∃ q, Sent d' index f c q := by
  obtain ⟨hb, hp, hsource, ht⟩ := hs
  have hp' := (sourcePath?_rewritten h index f.path f.name).trans hp
  have hsource' := h.readText_eq fun q hq => source_not_isBaseline hi hf hp hq
  exact ⟨_, .intro hc hp' (hsource'.trans hsource) ht⟩

end Suite

end Baselines
