import Baselines.Proofs.Discovery
import Baselines.Proofs.Suite.Verdict

/-!
# Runs of suites

A suite goes through the baselines that it found one after the other, and each verdict is on the
state that the ones before it left.
-/

namespace Baselines

/-- An emitter whose answers depend on the requests only, and that leaves the disk alone. -/
structure Emitter.Functional {σ : Type} (e : Emitter σ) (answer : Request → Answer) : Prop where
  answer : ∀ r s, (e.emit r s).1 = answer r
  disk : ∀ r s, (e.emit r s).2.2 = s.2

theorem Emitter.functional_ofFunction (name : Text) (f : Request → Answer) :
    (Emitter.ofFunction name f).Functional f :=
  ⟨fun _ _ => rfl, fun _ _ => rfl⟩

/-- A fixture that could be loaded holds what stands in its file. -/
theorem Fixture.load_ok {d : Disk} {index : Option SourceIndex} {path : Path} {fixture : Fixture}
    (h : Fixture.load d index path = .ok fixture) :
    path = fixture.path ∧ ∃ t, d.readText path = .ok t ∧ fixture.file = MarkedFile.parse t := by
  unfold Fixture.load at h
  dsimp only at h
  split at h
  · obtain ⟨name, -, h⟩ := bind_ok h
    obtain ⟨t, ht, h⟩ := bind_ok h
    split at h
    · obtain ⟨source, -, h⟩ := bind_ok h
      obtain rfl := Except.ok.inj h
      exact ⟨rfl, t, ht, rfl⟩
    · obtain rfl := Except.ok.inj h
      exact ⟨rfl, t, ht, rfl⟩
  · exact absurd h (by simp [bind, Except.bind])

namespace Suite

variable {σ : Type}

/-! ## 1. Moments -/

-- The baselines, each with the memory of the emitter and the disk before its verdict.
def moments (suite : Suite) (e : Emitter σ) (index : Option SourceIndex) :
    List Found → σ × Disk → List (Found × (σ × Disk))
  | [], _ => []
  | f :: r, s => (f, s) :: moments suite e index r (suite.verdict e index f.path s).2

variable {suite : Suite} {e : Emitter σ} {index : Option SourceIndex}

-- Every baseline has its moment.
theorem moments_map_fst (suite : Suite) (e : Emitter σ) (index : Option SourceIndex)
    (found : List Found) (s : σ × Disk) :
    (suite.moments e index found s).map (·.1) = found := by
  induction found generalizing s with
  | nil => rfl
  | cons f r ih => rw [moments, List.map_cons, ih]

theorem runAll_fst (found : List Found) (s : σ × Disk) :
    (suite.runAll e index found s).1 = (suite.moments e index found s).map fun m =>
      (suite.verdict e index m.1.path m.2).1.toCase m.1 := by
  induction found generalizing s with
  | nil => rfl
  | cons f r ih =>
    rw [moments, List.map_cons, ← ih]
    rfl

theorem runAll_append (a b : List Found) (s : σ × Disk) :
    (suite.runAll e index (a ++ b) s).2 =
      (suite.runAll e index b (suite.runAll e index a s).2).2 := by
  induction a generalizing s with
  | nil => rfl
  | cons f r ih =>
    show (suite.runAll e index (r ++ b) (suite.verdict e index f.path s).2).2 = _
    rw [ih]
    rfl

theorem exists_of_mem_moments {found : List Found} {s : σ × Disk} {m : Found × (σ × Disk)}
    (h : m ∈ suite.moments e index found s) :
    ∃ a b, found = a ++ m.1 :: b ∧ m.2 = (suite.runAll e index a s).2 := by
  induction found generalizing s with
  | nil => exact absurd h List.not_mem_nil
  | cons f r ih =>
    rw [moments] at h
    rcases List.mem_cons.1 h with rfl | h
    · exact ⟨[], r, rfl, rfl⟩
    · obtain ⟨a, b, hr, hm⟩ := ih h
      exact ⟨f :: a, b, by rw [hr]; rfl, hm⟩

/-- Two suites that go through the same baselines, side by side: each baseline has two verdicts, and
the same baselines come before it. -/
theorem exists_runAll_both (suite suite' : Suite) (e : Emitter σ) (index : Option SourceIndex)
    (found : List Found) (s s' : σ × Disk) : ∃ both : List (Found × Verdict × Verdict),
      both.map (·.1) = found ∧
      (suite.runAll e index found s).1 = both.map (fun c => c.2.1.toCase c.1) ∧
      (suite'.runAll e index found s').1 = both.map (fun c => c.2.2.toCase c.1) ∧
      ∀ c ∈ both, ∃ a b, found = a ++ c.1 :: b ∧
        c.2.1 = (suite.verdict e index c.1.path (suite.runAll e index a s).2).1 ∧
        c.2.2 = (suite'.verdict e index c.1.path (suite'.runAll e index a s').2).1 := by
  induction found generalizing s s' with
  | nil => exact ⟨[], rfl, rfl, rfl, fun c hc => absurd hc List.not_mem_nil⟩
  | cons f r ih =>
    obtain ⟨both, hf, h1, h2, hb⟩ := ih (suite.verdict e index f.path s).2
      (suite'.verdict e index f.path s').2
    refine ⟨(f, (suite.verdict e index f.path s).1, (suite'.verdict e index f.path s').1) :: both,
      ?_, ?_, ?_, ?_⟩
    · rw [List.map_cons, hf]
    · rw [List.map_cons, ← h1]
      rfl
    · rw [List.map_cons, ← h2]
      rfl
    · intro c hc
      rcases List.mem_cons.1 hc with rfl | hc
      · exact ⟨[], r, rfl, rfl, rfl⟩
      · obtain ⟨a, b, hr, hv, hv'⟩ := hb c hc
        exact ⟨f :: a, b, by rw [hr]; rfl, hv, hv'⟩

/-! ## 2. Runs -/

theorem scope_ok {d : Disk} {found : List Found} (h : suite.scope d = .ok (index, found)) :
    suite.index d = .ok index ∧ Discovery.baselines d suite.root suite.selection = .ok found := by
  unfold scope at h
  obtain ⟨i, hi, h⟩ := bind_ok h
  obtain ⟨b, hb, h⟩ := bind_ok h
  obtain ⟨rfl, rfl⟩ := Prod.mk.inj (Except.ok.inj h)
  exact ⟨hi, hb⟩

theorem scope_of_baselines (suite : Suite) {d : Disk} {found : List Found} (hs : suite.sources = none)
    (hb : Discovery.baselines d suite.root suite.selection = .ok found) :
    suite.scope d = .ok (none, found) := by
  unfold scope Suite.index
  rw [hs, hb]
  rfl

theorem run_of_scope {s : σ × Disk} {found : List Found}
    (h : suite.scope s.2 = .ok (index, found)) : suite.run e s =
      (.ok (suite.reportOf e.name (suite.runAll e index found s).1),
        (suite.runAll e index found s).2) := by
  unfold run
  rw [h]

/-- A report sorts the cases. -/
theorem cases_perm (emitter : Text) (cases : List Case) :
    (suite.reportOf emitter cases).cases.Perm cases := List.mergeSort_perm _ _

theorem ofPath_of_scope {d : Disk} {found : List Found} (h : suite.scope d = .ok (index, found))
    {f : Found} (hf : f ∈ found) : Name.ofPath f.path = .ok f.name := by
  obtain ⟨p, hp⟩ := Discovery.exists_foundAt (scope_ok h).2 hf
  exact hp.ofPath

/-- A run has a case for each of the baselines that were found, and no other. -/
def Covers (suite : Suite) (e : Emitter σ) (s : σ × Disk) (found : List Found) : Prop :=
  ∃ report, (suite.run e s).1 = .ok report ∧
    (report.cases.map fun c => (c.id, c.path)).Perm (found.map fun f => (f.name.id, f.relative))

theorem covers_of_scope {s : σ × Disk} {found : List Found}
    (h : suite.scope s.2 = .ok (index, found)) : suite.Covers e s found := by
  refine ⟨_, by rw [run_of_scope h], ?_⟩
  apply ((cases_perm _ _).map _).trans
  rw [runAll_fst, List.map_map]
  conv_rhs => rw [← moments_map_fst suite e index found s, List.map_map]
  rfl

/-! ## 3. Runs that do not update -/

theorem askAgain_disk (he : ∀ r t, (e.emit r t).2.2 = t.2) (r : Request) (first : Text)
    (n k : Nat) (s : σ × Disk) : (Stability.askAgain (e.emit r) first n k s).2.2 = s.2 := by
  induction n generalizing k s with
  | zero => rfl
  | succ n ih =>
    have hs := he r s
    unfold Stability.askAgain
    rcases hk : e.emit r s with ⟨a, t⟩
    rw [hk] at hs
    cases a with
    | error fault => exact hs
    | ok code =>
      simp only
      split
      · exact (ih (k + 1) t).trans hs
      · exact hs

theorem emitted_disk (he : ∀ r t, (e.emit r t).2.2 = t.2) (runs : Nat) (r : Request)
    (s : σ × Disk) : (emitted e runs r s).2.2 = s.2 := by
  have hs := he r s
  unfold emitted
  split
  · have hc : (Stability.check (e.emit r) runs s).2.2 = s.2 := by
      unfold Stability.check
      rcases hk : e.emit r s with ⟨a, t⟩
      rw [hk] at hs
      cases a with
      | error fault => exact hs
      | ok code => exact (askAgain_disk he r code _ 2 t).trans hs
    rcases hk : Stability.check (e.emit r) runs s with ⟨x, t⟩
    rw [hk] at hc
    cases x with
    | ok code => exact hc
    | error i =>
      cases i with
      | emit fault => exact hc
      | diverged run diff => exact hc
  · rcases hk : e.emit r s with ⟨a, t⟩
    rw [hk] at hs
    cases a with
    | error fault => exact hs
    | ok code => exact hs

-- Without an update only the emitter can change the disk.
theorem verdict_disk (hu : suite.update = false) (he : ∀ r t, (e.emit r t).2.2 = t.2)
    (path : Path) (s : σ × Disk) : (suite.verdict e index path s).2.2 = s.2 := by
  unfold verdict
  cases ready s.2 index path with
  | error v => rfl
  | ok fr =>
    obtain ⟨fixture, r⟩ := fr
    have hd := emitted_disk he suite.runs r s
    simp only
    rcases hk : emitted e suite.runs r s with ⟨x, t⟩
    rw [hk] at hd
    cases x with
    | error v => exact hd
    | ok code => exact (judge_of_not_update suite hu fixture code t.2).1.trans hd

theorem moments_disk (hu : suite.update = false) (he : ∀ r t, (e.emit r t).2.2 = t.2)
    {found : List Found} {s : σ × Disk} {m : Found × (σ × Disk)}
    (h : m ∈ suite.moments e index found s) : m.2.2 = s.2 := by
  induction found generalizing s with
  | nil => exact absurd h List.not_mem_nil
  | cons f r ih =>
    rw [moments] at h
    rcases List.mem_cons.1 h with rfl | h
    · rfl
    · exact (ih h).trans (verdict_disk hu he f.path s)

theorem runAll_of_disk {e : Emitter Unit} (index : Option SourceIndex) (hu : suite.update = false)
    (he : ∀ r t, (e.emit r t).2.2 = t.2) (found : List Found) (d : Disk) :
    (suite.runAll e index found ((), d)).1 = found.map fun f =>
      (suite.verdict e index f.path ((), d)).1.toCase f := by
  rw [runAll_fst]
  conv_rhs => rw [← moments_map_fst suite e index found ((), d)]
  rw [List.map_map]
  apply List.map_congr_left
  intro m hm
  have hd : m.2 = ((), d) := Prod.ext rfl (moments_disk hu he hm)
  rw [hd]
  rfl

/-- Without an update, a suite reports one case for each baseline that it found, and the case tells
how the baseline fared at its moment. An emitter that leaves the disk alone is asked about the disk
that the suite began with. -/
theorem run_reports_fares (suite : Suite) (hu : suite.update = false) (e : Emitter σ)
    (s : σ × Disk) {index : Option SourceIndex} {found : List Found}
    (hs : suite.scope s.2 = .ok (index, found)) :
    ∃ (report : Report) (v : Found × (σ × Disk) → Verdict),
      (suite.run e s).1 = .ok report ∧
      report.cases.Perm ((suite.moments e index found s).map fun m => (v m).toCase m.1) ∧
      (suite.moments e index found s).map (·.1) = found ∧
      (∀ m ∈ suite.moments e index found s, ∀ st,
        (v m).status = st ↔ Fares suite e index m.1 m.2 st) ∧
      ((∀ r t, (e.emit r t).2.2 = t.2) → ∀ m ∈ suite.moments e index found s, m.2.2 = s.2) := by
  refine ⟨suite.reportOf e.name (suite.runAll e index found s).1,
    fun m => (suite.verdict e index m.1.path m.2).1, ?_, ?_,
    moments_map_fst suite e index found s, ?_, ?_⟩
  · rw [run_of_scope hs]
  · rw [← runAll_fst]
    exact cases_perm _ _
  · intro m hm st
    have hf : m.1 ∈ found := by
      obtain ⟨a, b, hab, -⟩ := exists_of_mem_moments hm
      rw [hab]
      exact List.mem_append_right a List.mem_cons_self
    exact verdict_status_iff suite hu e m.2 (ofPath_of_scope hs hf) st
  · intro he m hm
    exact moments_disk hu he hm

/-! ## 4. Emitters that answer alike -/

/-- What a functional emitter makes of a baseline that a request is made for: its one answer is a
fault, or it is judged. -/
theorem verdict_functional (suite : Suite) {answer : Request → Answer} (he : e.Functional answer)
    {path : Path} {s : σ × Disk} {fixture : Fixture} {r : Request}
    (hr : ready s.2 index path = .ok (fixture, r)) :
    ((suite.verdict e index path s).1, (suite.verdict e index path s).2.2) =
      match answer r with
      | .error fault => ({ status := .emitFailed, detail := some fault.message }, s.2)
      | .ok code => suite.judge fixture code s.2 := by
  have ha := emitted_of_answer (he.answer r) suite.runs s
  have hd := emitted_disk he.disk suite.runs r s
  unfold verdict
  simp only [hr]
  rcases hem : emitted e suite.runs r s with ⟨x, memory, k⟩
  rw [hem] at ha hd
  obtain rfl : k = s.2 := hd
  obtain rfl := ha
  cases answer r with
  | error fault => rfl
  | ok code => rfl

theorem verdict_ofFunction (suite : Suite) (name : Text) (answer : Request → Answer) {path : Path}
    {d : Disk} {fixture : Fixture} {r : Request} {code : Text} (hr : ready d index path = .ok (fixture, r))
    (h : answer r = .ok code) :
    suite.verdict (Emitter.ofFunction name answer) index path ((), d) =
      ((suite.judge fixture code d).1, ((), (suite.judge fixture code d).2)) := by
  have hv := verdict_functional suite (Emitter.functional_ofFunction name answer)
    (s := ((), d)) hr
  rw [h, Prod.ext_iff] at hv
  exact Prod.ext hv.1 (Prod.ext rfl hv.2)

/-! ## 5. A suite with one baseline -/

/-- A disk with one baseline and its source. -/
def soleDisk : Disk where
  nodes :=
    [(["b".toList], .folder),
      (["b".toList, "t.js".toList], .file (Encoding.utf8Encode "//// [t.ts]\nold\n".toList)),
      (["b".toList, "t.ts".toList], .file (Encoding.utf8Encode "new".toList))]
  distinct := by decide
  named := by decide

/-- The baseline of the disk. -/
def soleFound : Found where
  path := "/b/t.js"
  relative := "t.js"
  name := { test := "t", options := [], variant := none, stage := none, extension := "js" }

def soleSuite : Suite := { root := "/b" }

def soleUpdate : Suite := { soleSuite with update := true }

theorem soleSuite_baselines :
    Discovery.baselines soleDisk soleSuite.root soleSuite.selection = .ok [soleFound] := by
  apply Discovery.baselines_of_sorted (r := ["b".toList])
  · decide +kernel
  · decide +kernel
  · decide +kernel
  · decide +kernel

theorem run_reports_fares_sole :
    soleSuite.update = false ∧ soleSuite.scope soleDisk = .ok (none, [soleFound]) ∧
      ∃ (report : Report) (v : Found × (Unit × Disk) → Verdict),
        (soleSuite.run (Emitter.echo []) ((), soleDisk)).1 = .ok report ∧
        report.cases.Perm [(v (soleFound, ((), soleDisk))).toCase soleFound] ∧
        ∀ st, (v (soleFound, ((), soleDisk))).status = st ↔
          Fares soleSuite (Emitter.echo []) none soleFound ((), soleDisk) st := by
  have hs := scope_of_baselines soleSuite rfl soleSuite_baselines
  obtain ⟨report, v, hr, hp, -, hv, -⟩ :=
    run_reports_fares soleSuite rfl (Emitter.echo []) ((), soleDisk) hs
  exact ⟨rfl, hs, report, v, hr, hp, hv _ List.mem_cons_self⟩

end Suite

end Baselines
