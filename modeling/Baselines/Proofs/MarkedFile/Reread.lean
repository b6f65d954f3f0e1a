import Baselines.Proofs.MarkedFile.RoundTrip

/-!
# Files that are read twice

What is written for a file that was read is read as that file again, unless the file has no section,
its text goes on with a second byte order mark, or one of its lines of code keeps a carriage return.
-/

namespace Baselines.MarkedFile

open Text

/-! ## 1. Parts of lines -/

/-- The body of the section before the first marker, if there are lines there. -/
def unnamedOf (ls : List Text) : Option Text :=
  if (blocks ls).1 = [] then none else some (unlines (blocks ls).1)

/-- The names and the bodies of the sections below markers. -/
def namedOf (ls : List Text) : List (Text × Text) := (blocks ls).2.map fun b => (b.1, unlines b.2)

variable {ls : List Text}

theorem ofLines_eq_parts (ls : List Text) : ofLines ls = ofParts (unnamedOf ls) (namedOf ls) :=
  ofLines_eq ls

theorem markable_namedOf (hls : ∀ l ∈ ls, '\n' ∉ l) : ∀ p ∈ namedOf ls, Markable p.1 := by
  intro p hp
  obtain ⟨b, hb, rfl⟩ := List.mem_map.1 hp
  exact markable_of_mem_blocks hls hb

-- Lines have parts: one of them is a marker, or stands before the first.
theorem parts_ne_nil (h : ls ≠ []) : unnamedOf ls ≠ none ∨ namedOf ls ≠ [] := by
  obtain ⟨l, r, rfl⟩ := List.exists_cons_of_ne_nil h
  unfold unnamedOf namedOf
  rw [blocks]
  cases marker? l with
  | none => exact Or.inl (by simp)
  | some file => exact Or.inr (by simp)

theorem mem_codeLines_iff {l : Text} : l ∈ codeLines ls ↔
    l ∈ (blocks ls).1 ∨ ∃ b ∈ (blocks ls).2, l ∈ orEmpty b.2 := by
  rw [codeLines, List.mem_append, List.mem_flatMap]

/-- What is written for the bodies are the lines of code, but for empty ones. -/
theorem forall_writtenBodies (hls : ∀ l ∈ ls, '\n' ∉ l) {p : Text → Prop} (hp : p []) :
    (∀ l ∈ writtenBodies (unnamedOf ls) (namedOf ls), p l) ↔ ∀ l ∈ codeLines ls, p l := by
  have hfront : splitOn '\n' (unlines (blocks ls).1) = orEmpty (blocks ls).1 :=
    splitOn_unlines fun l hl => not_mem_codeLines hls (mem_codeLines_iff.2 (Or.inl hl))
  have hbody : ∀ b ∈ (blocks ls).2, splitOn '\n' (unlines b.2) = orEmpty b.2 := by
    intro b hb
    refine splitOn_unlines fun l hl => not_mem_codeLines hls (mem_codeLines_iff.2 (Or.inr ⟨b, hb, ?_⟩))
    rwa [orEmpty, if_neg (List.ne_nil_of_mem hl)]
  constructor
  · intro h l hl
    by_cases hne : l = []
    · rwa [hne]
    refine h l (mem_writtenBodies.2 ?_)
    rcases mem_codeLines_iff.1 hl with hl | ⟨b, hb, hl⟩
    · have hn := List.ne_nil_of_mem hl
      refine Or.inl ⟨_, if_neg hn, ?_⟩
      rwa [hfront, orEmpty, if_neg hn]
    · refine Or.inr ⟨_, List.mem_map_of_mem hb, mem_bodyLines.2 ⟨fun he => ?_, by rwa [hbody b hb]⟩⟩
      -- only an empty line can stand in an empty body
      have he : unlines b.2 = [] := he
      rw [← hbody b hb, he] at hl
      exact hne (List.mem_singleton.1 hl)
  · intro h l hl
    apply h
    rw [mem_codeLines_iff]
    rcases mem_writtenBodies.1 hl with ⟨b, hu, hl⟩ | ⟨p, hp, hl⟩
    · unfold unnamedOf at hu
      split at hu
      · exact absurd hu (by simp)
      · rename_i hn
        obtain rfl := Option.some.inj hu
        rw [hfront, orEmpty, if_neg hn] at hl
        exact Or.inl hl
    · obtain ⟨b, hb, rfl⟩ := List.mem_map.1 hp
      refine Or.inr ⟨b, hb, ?_⟩
      rw [← hbody b hb]
      exact (mem_bodyLines.1 hl).2

-- A property of lines that the empty line has is one of all lines of code, or of all lines that are
-- no markers.
theorem forall_codeLines {p : Text → Prop} (hp : p []) :
    (∀ l ∈ codeLines ls, p l) ↔ ∀ l ∈ ls, isMarker l = false → p l := by
  constructor
  · exact fun h l hl hm => h l (mem_codeLines_of_code hl hm)
  · intro h l hl
    rcases mem_codeLines hl with rfl | ⟨hl, hm⟩
    · exact hp
    · exact h l hl hm

theorem hasMark_of_isMarker {l : Text} (h : isMarker l = true) : hasMark l = false := by
  obtain ⟨file, hm⟩ := Option.isSome_iff_exists.1 h
  obtain ⟨tail, rfl, -⟩ := marker?_eq_some.1 hm
  rfl

/-- A byte order mark before the lines stands before the unnamed section. -/
theorem unnamedOf_dropMark {l : Text} {r : List Text} :
    (unnamedOf (l :: r)).map dropMark = unnamedOf (l :: r) ↔ hasMark l = false := by
  unfold unnamedOf
  rw [blocks]
  cases hm : marker? l with
  | none => simp [dropMark_eq_self, hasMark_unlines_cons]
  | some file => simp [hasMark_of_isMarker (l := l) (by simp [isMarker, hm])]

/-! ## 2. Reading what was written for what was read -/

section Parts

variable {u : Option Text} {ns : List (Text × Text)}

theorem withoutReturns_eq_self_iff {b : Text} :
    withoutReturns b = b ↔ ∀ l ∈ bodyLines b, endsInReturn l = false := by
  unfold bodyLines
  split
  · rename_i h
    rw [h]
    exact iff_of_true rfl fun l hl => absurd hl List.not_mem_nil
  · exact withoutReturns_eq_self

/-- Bodies come back from where they are written exactly when no line of theirs ends in a return. -/
theorem forall_withoutReturns : (∀ l ∈ writtenBodies u ns, endsInReturn l = false) ↔
    u.map withoutReturns = u ∧ ∀ p ∈ ns, withoutReturns p.2 = p.2 := by
  have hu : u.map withoutReturns = u ↔ ∀ l ∈ u.elim [] (splitOn '\n'), endsInReturn l = false := by
    cases u with
    | none => simp
    | some b => simp [withoutReturns_eq_self]
  simp only [writtenBodies, List.forall_mem_append, List.forall_mem_flatMap, hu,
    withoutReturns_eq_self_iff]

/-- Sections without markers among their lines are read back exactly when no mark and no return is
lost on the way. -/
theorem parse_render_ofParts_iff (hne : u ≠ none ∨ ns ≠ []) (hm : ∀ p ∈ ns, Markable p.1)
    (hb : ∀ l ∈ writtenBodies u ns, isMarker l = false) :
    parse (ofParts u ns).render = ofParts u ns ↔
      u.map dropMark = u ∧ ∀ l ∈ writtenBodies u ns, endsInReturn l = false := by
  rw [forall_withoutReturns]
  constructor
  · intro h
    have hne' : u.map dropMark ≠ none ∨ ns ≠ [] := by simpa using hne
    rw [parse_render_ofParts, lines_render_ofParts hne' hm] at h
    rw [ofLines_writtenLines hm (code_of_ofLines_writtenLines hm h)] at h
    obtain ⟨hu, hns⟩ := ofParts_injective h
    have hmark := dropMark_of_withoutReturns hu
    rw [hmark] at hu
    refine ⟨hmark, hu, fun p hp => ?_⟩
    exact congrArg Prod.snd (List.map_inj_left.1 (hns.trans (List.map_id ns).symm) p hp)
  · rintro ⟨hmark, hu, hns⟩
    rw [parse_render_ofParts, hmark, lines_render_ofParts hne hm, ofLines_writtenLines hm hb, hu,
      List.map_inj_left.2 fun p hp => by rw [hns p hp], List.map_id']

end Parts

/-- What is written for a file that was read is read as that file again exactly when the text held
anything but a byte order mark, no second mark followed, and no line of code ends in a return. -/
theorem parse_render_parse_iff (t : Text) : parse (parse t).render = parse t ↔
    dropMark t ≠ [] ∧ hasMark (dropMark t) = false ∧
      ∀ l ∈ lines (dropMark t), isMarker l = false → endsInReturn l = false := by
  cases hls : lines (dropMark t) with
  | nil =>
    have ht : dropMark t = [] := lines_eq_nil.1 hls
    have hparse : parse t = ⟨[]⟩ := by rw [parse, hls]; rfl
    rw [hparse]
    exact iff_of_false (by decide) fun h => h.1 ht
  | cons l r =>
    have ht : dropMark t ≠ [] := fun ht => by simp [lines_eq_nil.2 ht] at hls
    have hlf : ∀ k ∈ l :: r, '\n' ∉ k := fun k hk => not_mem_lines (hls ▸ hk)
    have hparse : parse t = ofParts (unnamedOf (l :: r)) (namedOf (l :: r)) := by
      rw [← ofLines_eq_parts, ← hls, parse]
    have hcode := (forall_writtenBodies (p := fun k => isMarker k = false) hlf rfl).2
      fun _ => isMarker_of_mem_codeLines
    have hne := parts_ne_nil (List.cons_ne_nil l r)
    rw [hparse, parse_render_ofParts_iff hne (markable_namedOf hlf) hcode, unnamedOf_dropMark,
      hasMark_line hls, forall_writtenBodies (p := fun k => endsInReturn k = false) hlf rfl,
      forall_codeLines (p := fun k => endsInReturn k = false) rfl]
    exact ⟨fun h => ⟨ht, h⟩, fun h => h.2⟩

/-- The empty text has no section, but an empty line is written for it; a second mark and a return
are lost. -/
theorem parse_render_parse_lost :
    parse (parse []).render ≠ parse [] ∧
      parse (parse "\uFEFF\uFEFFa").render ≠ parse "\uFEFF\uFEFFa" ∧
      parse (parse "a\r\r\n").render ≠ parse "a\r\r\n" := by
  decide +kernel

end Baselines.MarkedFile
