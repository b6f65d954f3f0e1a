import Baselines.Proofs.Comparison.Equivalence
import Baselines.Proofs.Comparison.Kept
import Baselines.Proofs.Suite.Writes
import Baselines.Proofs.Text.Encoding

/-!
# Updates

A suite that updates writes baselines at their own places only. Where it has written the code of an
emitter, the baseline expects that code afterwards, if an update keeps it.
-/

namespace Baselines.Suite

open Text MarkedFile Discovery

variable {suite : Suite} {index : Option SourceIndex} {name : Text}

/-! ## 1. What is written -/

variable {d d' : Disk} {root : Path}

/-- An emitter that answers every request with one text. -/
def constant (name o : Text) : Emitter Unit := Emitter.ofFunction name fun _ => .ok o

theorem constant_disk (name o : Text) (r : Request) (t : Unit × Disk) :
    ((constant name o).emit r t).2.2 = t.2 := rfl

-- A run changes the disk only at the places of the baselines it goes through.
theorem runAll_rewritten (suite : Suite) (index : Option SourceIndex) (name o : Text)
    {found : List Found} (hf : ∀ f ∈ found, Name.ofPath f.path = .ok f.name)
    (d : Disk) : Disk.Rewritten (fun q => ∃ f ∈ found, d.locate f.path = .ok q) d
      (suite.runAll (constant name o) index found ((), d)).2.2 :=
  runAll_frame suite (constant_disk name o) index hf ((), d)

/-! ## 2. Running again -/

/-- The code that a baseline expects after an update. -/
def updatedCode (baseline o : Text) : Text :=
  (parse (dropMark ((parse baseline).withCode o).render)).code

theorem readText_renewed {path : Path} {baseline o : Text}
    (h : d.read path = .ok (renewed baseline o)) :
    d.readText path = .ok (dropMark ((parse baseline).withCode o).render) :=
  Disk.readText_eq_ok.2 ⟨_, h, Encoding.read_utf8Encode _⟩

-- When the code that a baseline expects after an update matches what it was updated with.
theorem isMatch_updatedCode (baseline o : Text) (mode : Mode) :
    (Comparison.compare (updatedCode baseline o) o mode).isMatch = true ↔
      Comparison.KeptByUpdate (parse baseline).primary?.isSome o ∨
        (mode = .normalized ∧ Comparison.sameScript
          (Comparison.normalize (updatedCode baseline o)) (Comparison.normalize o) = true) := by
  have hk : Comparison.normalize (updatedCode baseline o) = Comparison.normalize o ↔
      Comparison.KeptByUpdate (parse baseline).primary?.isSome o :=
    Comparison.normalize_withCode baseline o
  rw [Comparison.isMatch_compare, ← hk]
  cases mode with
  | exact =>
    rw [Comparison.agree_exact]
    exact ⟨Or.inl, fun h => h.resolve_right fun hn => absurd hn.1 (by decide)⟩
  | normalized =>
    rw [Comparison.agree, Comparison.agreeBy, ← Comparison.sameScript]
    constructor
    · exact fun h => Or.inr ⟨rfl, h⟩
    · rintro (h | ⟨-, h⟩)
      · rw [h]
        exact Comparison.agree_self .normalized _
      · exact h

-- A baseline that is updated holds the new code.
theorem read_of_updated {f : Found} {o : Text} (hname : Name.ofPath f.path = .ok f.name)
    (hup : (suite.verdict (constant name o) index f.path ((), d)).1.status = .updated) :
    ∃ baseline r, Sent d index f baseline r ∧
      (suite.verdict (constant name o) index f.path ((), d)).2.2.read f.path =
        .ok (renewed baseline o) := by
  have heffect := effect_verdict suite (constant_disk name o) index ((), d) hname
  generalize (suite.verdict (constant name o) index f.path ((), d)).1 = v at heffect hup
  generalize (suite.verdict (constant name o) index f.path ((), d)).2.2 = e at heffect ⊢
  cases heffect with
  | kept h => exact absurd hup h
  | @written _ _ baseline code r _ _ hs ha hw =>
    have htold := told_emitted suite (constant name o) r ((), d)
    have hem := emitted_of_answer (fun t => (rfl : ((constant name o).emit r t).1 = .ok o))
      suite.runs ((), d)
    rw [hem] at htold
    cases htold with
    | code h =>
      obtain ⟨old, hread⟩ := hs.read
      obtain ⟨p, hp, hrw, hn⟩ := Disk.rewritten_write hread hw
      refine ⟨baseline, r, hs, Disk.read_eq_ok.2 ⟨p, (hrw.locate_eq _).trans hp, ?_⟩⟩
      rw [hn, code_unique ha h]

-- The verdict on a baseline that an update has written, on a disk with the same sources.
theorem verdict_of_renewed {f : Found} {baseline o : Text} {r : Request}
    (hname : Name.ofPath f.path = .ok f.name) {e : Disk} (hi : suite.index e = .ok index)
    {p : Place} (hf : FoundAt root p f) (hs : Sent d index f baseline r)
    (h : Disk.Rewritten isBaseline d d') (hread : d'.read f.path = .ok (renewed baseline o))
    (suite' : Suite) :
    (suite'.verdict (constant name o) index f.path ((), d')).1.status = .pass ↔
      (Comparison.compare (updatedCode baseline o) o suite'.mode).isMatch = true := by
  obtain ⟨q, hq⟩ := hs.rewritten hi hf h (readText_renewed hread)
  obtain ⟨fixture, hr, hfile⟩ := hq.ready_ok hname
  have hv : suite'.verdict (constant name o) index f.path ((), d') = _ :=
    verdict_ofFunction suite' name (fun _ => .ok o) hr rfl
  have hexp : fixture.expected = updatedCode baseline o := by
    unfold Fixture.expected updatedCode
    rw [hfile]
  rw [hv, judge_pass_iff, hexp]

section Others

variable {selection : Selection} {found l : List Found} {f : Found}

/-- A run over other baselines leaves a baseline alone, and writes to places of baselines only. -/
theorem runAll_others (suite : Suite) (index : Option SourceIndex) (name o : Text)
    (hbase : baselines d root selection = .ok found) (hl : ∀ g ∈ l, g ∈ found)
    (hapart : ∀ q, d.locate f.path = .ok q → ∀ g ∈ l, d.locate g.path ≠ .ok q) {e : Disk}
    (he : ∀ path, e.locate path = d.locate path) :
    let e' := (suite.runAll (constant name o) index l ((), e)).2.2
    e'.read f.path = e.read f.path ∧ Disk.Rewritten isBaseline e e' ∧
      ∀ path, e'.locate path = d.locate path := by
  intro e'
  have hname : ∀ g ∈ l, Name.ofPath g.path = .ok g.name := by
    intro g hg
    obtain ⟨p, hp⟩ := exists_foundAt hbase (hl g hg)
    exact hp.ofPath
  have hrw : Disk.Rewritten (fun q => ∃ g ∈ l, e.locate g.path = .ok q) e e' :=
    runAll_rewritten suite index name o hname e
  refine ⟨hrw.read_eq ?_, hrw.mono ?_, fun path => (hrw.locate_eq path).trans (he path)⟩
  · rintro q hq ⟨g, hg, hgq⟩
    rw [he] at hq hgq
    exact hapart q hq g hg hgq
  · rintro q ⟨g, hg, hgq⟩
    obtain ⟨p, hp⟩ := exists_foundAt hbase (hl g hg)
    exact hp.isBaseline hgq

end Others

-- A baseline that was updated among others, in a run that is repeated.
theorem verdict_again (suite' : Suite) {found a b : List Found} {f : Found} {o : Text}
    (hs : suite.scope d = .ok (index, found)) (hab : found = a ++ f :: b)
    (hmode : suite'.mode = suite.mode)
    (hup : (suite.verdict (constant name o) index f.path
      ((), (suite.runAll (constant name o) index a ((), d)).2.2)).1.status = .updated) :
    let later := (suite.runAll (constant name o) index found ((), d)).2.2
    let before := (suite'.runAll (constant name o) index a ((), later)).2.2
    ∃ baseline, d.readText f.path = .ok baseline ∧
      ((suite'.verdict (constant name o) index f.path ((), before)).1.status = .pass ↔
        (Comparison.compare (updatedCode baseline o) o suite.mode).isMatch = true) := by
  intro later before
  obtain ⟨hindex, hbase⟩ := scope_ok hs
  have hfm : f ∈ found := by simp [hab]
  have ham : ∀ g ∈ a, g ∈ found := fun g hg => by simp [hab, hg]
  have hbm : ∀ g ∈ b, g ∈ found := fun g hg => by simp [hab, hg]
  have hname : Name.ofPath f.path = .ok f.name := ofPath_of_scope hs hfm
  obtain ⟨p, hfp⟩ := exists_foundAt hbase hfm
  have haa := fun q hq => (others_apart hbase hab (q := q) hq).1
  have hbb := fun q hq => (others_apart hbase hab (q := q) hq).2
  -- the disk before the update: the baselines of `a` are done
  obtain ⟨hread1, hrw1, hloc1⟩ := runAll_others suite index name o hbase ham haa fun _ => rfl
  generalize hd1 : (suite.runAll (constant name o) index a ((), d)).2.2 = d1 at *
  obtain ⟨baseline, r, hsent, hread2⟩ := read_of_updated hname hup
  -- the disk after it, and after the baselines of `b`
  have hrw2 := verdict_rewritten suite (constant_disk name o) index ((), d1) hname
  have hlater : later = (suite.runAll (constant name o) index b
      ((), (suite.verdict (constant name o) index f.path ((), d1)).2.2)).2.2 := by
    show (suite.runAll (constant name o) index found ((), d)).2.2 = _
    rw [hab, runAll_append, ← hd1]
    rfl
  generalize hd2 : (suite.verdict (constant name o) index f.path ((), d1)).2.2 = d2 at *
  have hloc2 : ∀ path, d2.locate path = d.locate path := fun path =>
    (hrw2.locate_eq path).trans (hloc1 path)
  obtain ⟨hread3, hrw3, hloc3⟩ := runAll_others suite index name o hbase hbm hbb hloc2
  rw [← hlater] at hread3 hrw3 hloc3
  -- the disk before the second verdict: the baselines of `a` are done once more
  obtain ⟨hread4, hrw4, -⟩ := runAll_others suite' index name o hbase ham haa hloc3
  have hread : before.read f.path = .ok (renewed baseline o) := by rw [hread4, hread3, hread2]
  have hagain : Disk.Rewritten isBaseline d1 before :=
    ((hrw2.mono fun q hq => hfp.isBaseline hq).trans hrw3).trans hrw4
  have hbaseline : d.readText f.path = .ok baseline := by
    rw [← hsent.readText]
    unfold Disk.readText
    rw [hread1]
  refine ⟨baseline, hbaseline, ?_⟩
  rw [verdict_of_renewed hname hindex hfp hsent hagain hread suite', hmode]

/-- A suite that updates, with an emitter that always gives `o`, and the same suite run again, with
or without updating: what was updated passes then if the update has kept `o`. -/
theorem rerun_after_update (suite : Suite) (again : Bool) (name o : Text) {d : Disk}
    {index : Option SourceIndex} {found : List Found} (hs : suite.scope d = .ok (index, found)) :
    let e := constant name o
    let first := suite.run e ((), d)
    let second := { suite with update := again : Suite }.run e first.2
    ∃ (report report' : Report) (both : List (Found × Verdict × Verdict)),
      first.1 = .ok report ∧ second.1 = .ok report' ∧ both.map (·.1) = found ∧
      report.cases.Perm (both.map fun c => c.2.1.toCase c.1) ∧
      report'.cases.Perm (both.map fun c => c.2.2.toCase c.1) ∧
      ∀ c ∈ both, c.2.1.status = .updated → ∃ baseline, d.readText c.1.path = .ok baseline ∧
        (c.2.2.status = .pass ↔
          Comparison.KeptByUpdate (parse baseline).primary?.isSome o ∨
            (suite.mode = .normalized ∧ Comparison.sameScript
              (Comparison.normalize (updatedCode baseline o)) (Comparison.normalize o) = true)) := by
  intro e first second
  have hfirst : first = _ := run_of_scope (e := e) (s := ((), d)) hs
  have hrw : Disk.Rewritten (fun q => ∃ f ∈ found, d.locate f.path = .ok q) d
      (suite.runAll e index found ((), d)).2.2 :=
    runAll_rewritten suite index name o (fun f hf => ofPath_of_scope hs hf) d
  have hs' : { suite with update := again : Suite }.scope first.2.2 = .ok (index, found) := by
    rw [hfirst, scope_rewritten hrw]
    exact hs
  have hsecond : second = _ := run_of_scope (e := e) (s := first.2) hs'
  obtain ⟨both, hf, h1, h2, hb⟩ := exists_runAll_both suite
    { suite with update := again } e index found ((), d) first.2
  refine ⟨_, _, both, by rw [hfirst], by rw [hsecond], hf, ?_, ?_, ?_⟩
  · rw [← h1]
    exact cases_perm _ _
  · rw [← h2]
    exact cases_perm _ _
  · intro c hc hup
    obtain ⟨a, b, hab, hv, hv'⟩ := hb c hc
    rw [hv] at hup
    obtain ⟨baseline, hread, hiff⟩ := verdict_again { suite with update := again } hs hab
      rfl hup
    refine ⟨baseline, hread, ?_⟩
    rw [← isMatch_updatedCode, ← hiff, hv', hfirst]

theorem rerun_after_update_sole :
    soleUpdate.scope soleDisk = .ok (none, [soleFound]) ∧
      ∃ (report report' : Report) (both : List (Found × Verdict × Verdict)),
        (soleUpdate.run (constant [] "a\n") ((), soleDisk)).1 = .ok report ∧
        (soleUpdate.run (constant [] "a\n")
          (soleUpdate.run (constant [] "a\n") ((), soleDisk)).2).1 = .ok report' ∧
        both.map (·.1) = [soleFound] ∧
        report.cases.Perm (both.map fun c => c.2.1.toCase c.1) ∧
        report'.cases.Perm (both.map fun c => c.2.2.toCase c.1) ∧
        ∀ c ∈ both, c.2.1.status = .updated → ∃ baseline, soleDisk.readText c.1.path = .ok baseline ∧
          (c.2.2.status = .pass ↔
            Comparison.KeptByUpdate (parse baseline).primary?.isSome "a\n".toList ∨
              (soleUpdate.mode = .normalized ∧ Comparison.sameScript
                (Comparison.normalize (updatedCode baseline "a\n"))
                (Comparison.normalize "a\n") = true)) := by
  have hs := scope_of_baselines soleUpdate rfl soleSuite_baselines
  exact ⟨hs, rerun_after_update soleUpdate true [] "a\n" hs⟩

/-- A return at the end of the output is lost by an update, and then it is missed. -/
theorem rerun_after_update_return : ∃ report report' : Report,
    (soleUpdate.run (constant [] "a\r") ((), soleDisk)).1 = .ok report ∧
      report.cases.map (·.status) = [.updated] ∧
      (soleSuite.run (constant [] "a\r")
        (soleUpdate.run (constant [] "a\r") ((), soleDisk)).2).1 = .ok report' ∧
      report'.cases.map (·.status) = [.mismatch] := by
  have hs := scope_of_baselines soleUpdate rfl soleSuite_baselines
  have hfirst := run_of_scope (e := constant [] "a\r".toList) (s := ((), soleDisk)) hs
  have hpath : ∀ f ∈ [soleFound], Name.ofPath f.path = .ok f.name := fun f hf =>
    ofPath_of_scope hs hf
  have hrw := runAll_rewritten soleUpdate none [] "a\r" hpath soleDisk
  have hs' : soleSuite.scope
      (soleUpdate.runAll (constant [] "a\r".toList) none [soleFound] ((), soleDisk)).2.2 =
        .ok (none, [soleFound]) := by
    rw [scope_rewritten hrw]
    exact hs
  have hsecond := run_of_scope (e := constant [] "a\r".toList)
    (s := (soleUpdate.runAll (constant [] "a\r".toList) none [soleFound] ((), soleDisk)).2) hs'
  refine ⟨_, _, by rw [hfirst], ?_, by rw [hfirst, hsecond], ?_⟩
  · rw [← List.perm_singleton]
    apply ((cases_perm _ _).map _).trans
    rw [List.perm_singleton]
    decide +kernel
  · rw [← List.perm_singleton]
    apply ((cases_perm _ _).map _).trans
    rw [List.perm_singleton]
    decide +kernel

end Baselines.Suite
