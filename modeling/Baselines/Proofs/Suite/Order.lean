import Baselines.Proofs.Suite.Writes
import Baselines.Proofs.Table

/-!
# The order of cases

A baseline fares among others as it would alone: no case writes what another one reads. So the order
in which a suite goes through its baselines shows neither in its report nor on the disk.
-/

namespace Baselines

namespace Suite

open Text Discovery

variable {σ : Type} {suite : Suite} {e : Emitter σ} {answer : Request → Answer}
  {index : Option SourceIndex} {d d' : Disk} {root : Path} {f : Found}

/-! ## 1. One baseline -/

/-- Whether a place can change without a baseline noticing: it is one of a baseline, but not its
own. -/
def Elsewhere (d : Disk) (f : Found) (q : Place) : Prop :=
  isBaseline q ∧ d.locate f.path ≠ .ok q

/-- A baseline is loaded alike after others were written. -/
theorem ready_elsewhere {e : Disk} (hi : suite.index e = .ok index) {p : Place}
    (hf : FoundAt root p f) (h : Disk.Rewritten (Elsewhere d f) d d') :
    ready d' index f.path = ready d index f.path := by
  have htext : d'.readText f.path = d.readText f.path :=
    h.readText_eq fun q hq hs => hs.2 hq
  have hpath := sourcePath?_rewritten h index f.path f.name
  have hload : Fixture.load d' index f.path = Fixture.load d index f.path := by
    unfold Fixture.load
    simp only [hf.ofPath, bind, Except.bind, htext, hpath]
    cases hp : Fixture.sourcePath? d index f.path f.name with
    | none => rfl
    | some path =>
      have hsource : d'.readText path = d.readText path :=
        h.readText_eq fun q hq hs => source_not_isBaseline hi hf hp hq hs.1
      simp only [Source.load, hsource]
  unfold ready
  rw [hload]

/-- Judging gives the same verdict and writes the same bytes after other baselines were written. -/
theorem judge_elsewhere (suite : Suite) (fixture : Fixture) (code : Text) {S : Place → Prop}
    (h : Disk.Rewritten S d d') :
    (suite.judge fixture code d').1 = (suite.judge fixture code d).1 ∧
      ∀ q, d.locate fixture.path = .ok q → ¬ S q →
        (suite.judge fixture code d').2.node? q = (suite.judge fixture code d).2.node? q := by
  unfold judge
  cases (Comparison.compare fixture.expected code suite.mode).mismatch with
  | none => exact ⟨rfl, fun q _ hq => h.kept q hq⟩
  | some m =>
    simp only
    split
    · rcases h.write_cases fixture.path (blessed fixture code) with
        ⟨x, hw, hw'⟩ | ⟨k, k', hw, hw'⟩
      · rw [hw, hw']
        exact ⟨rfl, fun q _ hq => h.kept q hq⟩
      · rw [hw, hw']
        refine ⟨rfl, fun q hq _ => ?_⟩
        obtain ⟨p, hp, -, hn, -⟩ := Disk.sameFolders_write hw
        obtain ⟨p', hp', -, hn', -⟩ := Disk.sameFolders_write hw'
        obtain rfl := Except.ok.inj (hq.symm.trans hp)
        obtain rfl := Except.ok.inj (hq.symm.trans ((h.locate_eq _).symm.trans hp'))
        exact hn'.trans hn.symm
    · exact ⟨rfl, fun q _ hq => h.kept q hq⟩

/-- A baseline fares alike after others were written, whatever the emitter remembers. -/
theorem verdict_elsewhere (he : e.Functional answer) {k : Disk} (hi : suite.index k = .ok index)
    {p : Place} (hf : FoundAt root p f) (h : Disk.Rewritten (Elsewhere d f) d d') (m m' : σ) :
    (suite.verdict e index f.path (m', d')).1 = (suite.verdict e index f.path (m, d)).1 ∧
      ∀ q, d.locate f.path = .ok q → (suite.verdict e index f.path (m', d')).2.2.node? q =
        (suite.verdict e index f.path (m, d)).2.2.node? q := by
  have hkept : ∀ q, d.locate f.path = .ok q → d'.node? q = d.node? q := fun q hq =>
    h.kept q fun hs => hs.2 hq
  have hready := ready_elsewhere hi hf h
  rcases ready_cases d index hf.ofPath with
    ⟨-, v, hr, -⟩ | ⟨-, -, v, hr, -⟩ | ⟨fixture, r, baseline, -, hr, hpath, -⟩
  · rw [verdict_of_error (s := (m, d)) hr, verdict_of_error (s := (m', d')) (hready.trans hr)]
    exact ⟨rfl, hkept⟩
  · rw [verdict_of_error (s := (m, d)) hr, verdict_of_error (s := (m', d')) (hready.trans hr)]
    exact ⟨rfl, hkept⟩
  · have hx := verdict_functional suite he (s := (m, d)) hr
    have hx' := verdict_functional suite he (s := (m', d')) (hready.trans hr)
    rw [Prod.ext_iff] at hx hx'
    rw [hx.1, hx'.1, hx.2, hx'.2]
    cases answer r with
    | error fault => exact ⟨rfl, hkept⟩
    | ok code =>
      obtain ⟨hv, hn⟩ := judge_elsewhere suite fixture code h
      rw [hpath] at hn
      exact ⟨hv, fun q hq => hn q hq fun hs => hs.2 hq⟩

/-! ## 2. Baselines in some order -/

variable {found order : List Found}

/-- Each of the baselines that a suite goes through fares as it would on the disk `d`, of which
other baselines may have been written before, and at its place is what its verdict left. -/
theorem runAll_alone (he : e.Functional answer) {k : Disk} (hi : suite.index k = .ok index)
    (hf : ∀ f ∈ order, ∃ p, FoundAt root p f)
    (ha : order.Pairwise (Apart d))
    (h : Disk.Rewritten (fun q => ∀ f ∈ order, Elsewhere d f q) d d') (m m' : σ) :
    (suite.runAll e index order (m', d')).1 =
        order.map (fun f => (suite.verdict e index f.path (m, d)).1.toCase f) ∧
      ∀ f ∈ order, ∀ q, d.locate f.path = .ok q →
        (suite.runAll e index order (m', d')).2.2.node? q =
          (suite.verdict e index f.path (m, d)).2.2.node? q := by
  -- what is written for the first baseline is elsewhere for all that follow
  induction order generalizing d' m' with
  | nil => exact ⟨rfl, fun f hf => absurd hf List.not_mem_nil⟩
  | cons f r ih =>
    obtain ⟨p, hp⟩ := hf f List.mem_cons_self
    have hr : ∀ g ∈ r, ∃ p, FoundAt root p g := fun g hg => hf g (List.mem_cons_of_mem f hg)
    rw [List.pairwise_cons] at ha
    obtain ⟨hv, hn⟩ := verdict_elsewhere he hi hp (h.mono fun q hq => hq f List.mem_cons_self) m m'
    have hw := verdict_rewritten suite he.disk index (m', d') hp.ofPath
    have hnext : Disk.Rewritten (fun q => ∀ g ∈ r, Elsewhere d g q) d
        (suite.verdict e index f.path (m', d')).2.2 := by
      refine (h.mono fun q hq g hg => hq g (List.mem_cons_of_mem f hg)).trans (hw.mono ?_)
      intro q hq g hg
      rw [h.locate_eq] at hq
      exact ⟨hp.isBaseline hq, ha.1 g hg q hq⟩
    obtain ⟨hcases, hnodes⟩ := ih hr ha.2 hnext (suite.verdict e index f.path (m', d')).2.1
    constructor
    · exact congrArg₂ List.cons (congrArg (Verdict.toCase · f) hv) hcases
    · intro g hg q hq
      rcases List.mem_cons.1 hg with rfl | hg
      · have hframe := runAll_frame suite he.disk index
          (fun x hx => (hr x hx).elim fun _ hx => hx.ofPath)
          (suite.verdict e index g.path (m', d')).2
        refine (hframe.kept q ?_).trans (hn q hq)
        rintro ⟨x, hx, hxq⟩
        rw [hnext.locate_eq] at hxq
        exact ha.1 x hx q hq hxq
      · exact hnodes g hg q hq

/-! ## 3. The report -/

/-- Cases with different paths are reported alike in every order. -/
theorem reportOf_perm {a b : List Case} (emitter : Text) (h : a.Perm b)
    (hp : ∀ x ∈ b, ∀ y ∈ b, x.path = y.path → x = y) :
    suite.reportOf emitter a = suite.reportOf emitter b := by
  have hsorted : ∀ l : List Case, (l.mergeSort fun x y => before x.path y.path).Pairwise
      fun x y => before x.path y.path = true :=
    List.pairwise_mergeSort (fun _ _ _ => before_trans) fun x y => by
      simpa using before_total x.path y.path
  have ha : (a.mergeSort fun x y => before x.path y.path).Perm b :=
    (List.mergeSort_perm a _).trans h
  have hb := List.mergeSort_perm b fun x y => before x.path y.path
  unfold reportOf
  rw [List.Perm.eq_of_pairwise ?_ (hsorted a) (hsorted b) (ha.trans hb.symm)]
  intro x y hx hy hxy hyx
  exact hp x (ha.mem_iff.1 hx) y (hb.mem_iff.1 hy) (before_antisymm hxy hyx)

/-- A suite gives the same report and leaves the same files, in whatever order it goes through the
baselines that it found. -/
theorem run_of_order (suite : Suite) (he : e.Functional answer) {s : σ × Disk}
    (hs : suite.scope s.2 = .ok (index, found)) (hb : PlainNames s.2 suite.root)
    (ho : order.Perm found) :
    (suite.run e s).1 = .ok (suite.reportOf e.name (suite.runAll e index order s).1) ∧
      ∀ q, (suite.run e s).2.2.node? q = (suite.runAll e index order s).2.2.node? q := by
  obtain ⟨hi, hfound⟩ := scope_ok hs
  have hat : ∀ f ∈ found, ∃ p, FoundAt suite.root p f := fun f hf => exists_foundAt hfound hf
  have hat' : ∀ f ∈ order, ∃ p, FoundAt suite.root p f := fun f hf => hat f (ho.mem_iff.1 hf)
  have hapart := pairwise_baselines hfound
  have hapart' := (ho.pairwise_iff Apart.symm).2 hapart
  obtain ⟨hcases, hnodes⟩ := runAll_alone he hi hat hapart (.refl s.2) s.1 s.1
  obtain ⟨hcases', hnodes'⟩ := runAll_alone he hi hat' hapart' (.refl s.2) s.1 s.1
  rw [run_of_scope hs]
  constructor
  · refine congrArg Except.ok (reportOf_perm e.name ?_ ?_)
    · rw [hcases, hcases']
      exact ho.symm.map _
    · rw [hcases']
      intro x hx y hy hxy
      obtain ⟨f, hf, rfl⟩ := List.mem_map.1 hx
      obtain ⟨g, hg, rfl⟩ := List.mem_map.1 hy
      rw [eq_of_relative hfound hb (ho.mem_iff.1 hf) (ho.mem_iff.1 hg) hxy]
  · intro q
    by_cases hq : ∃ f ∈ found, s.2.locate f.path = .ok q
    · obtain ⟨f, hf, hq⟩ := hq
      exact (hnodes f hf q hq).trans (hnodes' f (ho.mem_iff.2 hf) q hq).symm
    · have hframe := runAll_frame suite he.disk index
        (fun f hf => (hat f hf).elim fun _ h => h.ofPath) s
      have hframe' := runAll_frame suite he.disk index
        (fun f hf => (hat' f hf).elim fun _ h => h.ofPath) s
      refine (hframe.kept q hq).trans (hframe'.kept q ?_).symm
      rintro ⟨f, hf, hfq⟩
      exact hq ⟨f, ho.mem_iff.1 hf, hfq⟩

/-- A disk with two baselines and their sources. -/
def pairDisk : Disk where
  nodes :=
    [(["b".toList], .folder),
      (["b".toList, "t.js".toList], .file (Encoding.utf8Encode "//// [t.ts]\nold\n".toList)),
      (["b".toList, "t.ts".toList], .file (Encoding.utf8Encode "new".toList)),
      (["b".toList, "u.js".toList], .file (Encoding.utf8Encode "//// [u.ts]\nold\n".toList)),
      (["b".toList, "u.ts".toList], .file (Encoding.utf8Encode "new".toList))]
  distinct := by decide
  named := by decide

/-- The other baseline of the disk. -/
def secondFound : Found where
  path := "/b/u.js"
  relative := "u.js"
  name := { test := "u", options := [], variant := none, stage := none, extension := "js" }

theorem baselines_pairDisk :
    Discovery.baselines pairDisk soleUpdate.root soleUpdate.selection =
      .ok [soleFound, secondFound] := by
  apply Discovery.baselines_of_sorted (r := ["b".toList])
  · decide +kernel
  · decide +kernel
  · decide +kernel
  · decide +kernel

theorem run_of_order_pair :
    let e := Emitter.echo []
    let backwards := soleUpdate.runAll e none [secondFound, soleFound] ((), pairDisk)
    e.Functional (fun r => .ok r.source) ∧
      soleUpdate.scope pairDisk = .ok (none, [soleFound, secondFound]) ∧
      PlainNames pairDisk soleUpdate.root ∧
      backwards.1.map (·.status) = [.updated, .updated] ∧
      (soleUpdate.run e ((), pairDisk)).1 = .ok (soleUpdate.reportOf e.name backwards.1) ∧
      ∀ q, (soleUpdate.run e ((), pairDisk)).2.2.node? q = backwards.2.2.node? q := by
  intro e backwards
  have he : e.Functional fun r => .ok r.source := Emitter.functional_ofFunction [] _
  have hs := scope_of_baselines soleUpdate rfl baselines_pairDisk
  have hb : PlainNames pairDisk soleUpdate.root := .of_nodes (by decide) _
  exact ⟨he, hs, hb, by decide +kernel,
    run_of_order soleUpdate he hs hb (List.Perm.swap _ _ [])⟩

end Suite

end Baselines
