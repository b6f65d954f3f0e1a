import Baselines.Proofs.Suite.Sources

/-!
# What a suite writes

With an emitter that leaves the disk alone, a verdict changes nothing but the file of a baseline that
it calls updated. Over a whole run every other file keeps its bytes, and a file that was updated ends
with the code that was first emitted for it.
-/

namespace Baselines.Suite

open Text MarkedFile Discovery

variable {σ : Type} {suite : Suite} {e : Emitter σ} {index : Option SourceIndex}

/-! ## 1. One baseline -/

section Verdict

variable {f : Found} {d : Disk}

theorem Sent.readText {b : Text} {r : Request} (h : Sent d index f b r) :
    d.readText f.path = .ok b := by
  obtain ⟨hb, -, -, -⟩ := h
  exact hb

theorem Sent.read {b : Text} {r : Request} (h : Sent d index f b r) :
    ∃ bytes, d.read f.path = .ok bytes := by
  obtain ⟨bytes, hr, -⟩ := Disk.readText_eq_ok.1 h.readText
  exact ⟨bytes, hr⟩

/-- The bytes of a baseline with this text when its code is given anew. -/
def renewed (baseline code : Text) : Bytes :=
  Encoding.utf8Encode ((MarkedFile.parse baseline).withCode code).render

/-- What a verdict does to the disk: a baseline that is called updated was written with the code that
all answers agree on, and any other verdict leaves the disk as it was. -/
inductive Effect (suite : Suite) (e : Emitter σ) (index : Option SourceIndex) (f : Found)
    (s : σ × Disk) : Verdict × Disk → Prop where
  | kept {v : Verdict} (h : v.status ≠ .updated) : Effect suite e index f s (v, s.2)
  | written {v : Verdict} {d : Disk} {baseline code : Text} {r : Request} (h : v.status = .updated)
      (hu : suite.update = true) (hs : Sent s.2 index f baseline r)
      (ha : ∀ a ∈ suite.answersTo e r s, a = .ok code)
      (hw : s.2.write f.path (renewed baseline code) = .ok d) : Effect suite e index f s (v, d)

theorem effect_verdict (suite : Suite) (he : ∀ r t, (e.emit r t).2.2 = t.2)
    (index : Option SourceIndex) (s : σ × Disk) (hname : Name.ofPath f.path = .ok f.name) :
    Effect suite e index f s
      ((suite.verdict e index f.path s).1, (suite.verdict e index f.path s).2.2) := by
  rcases ready_cases s.2 index hname with
    ⟨-, v, hr, hv⟩ | ⟨-, -, v, hr, hv⟩ | ⟨fixture, r, baseline, hs, hr, hpath, hfile⟩
  · rw [verdict_of_error hr]
    exact .kept (by rw [hv]; decide)
  · rw [verdict_of_error hr]
    exact .kept (by rw [hv]; decide)
  · have htold := told_emitted suite e r s
    have hdisk := emitted_disk he suite.runs r s
    unfold verdict
    simp only [hr]
    rcases hem : emitted e suite.runs r s with ⟨x, memory, d⟩
    rw [hem] at htold hdisk
    obtain rfl : d = s.2 := hdisk
    cases htold with
    | failed hd hv => exact .kept (by rw [hv]; decide)
    | diverged hd hv => exact .kept (by rw [hv]; decide)
    | @code code ha =>
      simp only
      rcases suite.judge_cases fixture code s.2 with
        ⟨-, hv, hd⟩ | ⟨-, hv, hd⟩ | ⟨-, hu, hv, hw⟩
      · rw [hd]
        exact .kept (by rw [hv]; decide)
      · rw [hd]
        exact .kept (by rw [hv]; decide)
      · refine .written hv hu hs ha ?_
        rw [← hpath, ← hw, blessed, hfile, renewed]

/-- A verdict on a baseline changes the disk only at its place. -/
theorem verdict_rewritten (suite : Suite) (he : ∀ r t, (e.emit r t).2.2 = t.2)
    (index : Option SourceIndex) (s : σ × Disk) (hname : Name.ofPath f.path = .ok f.name) :
    Disk.Rewritten (fun q => s.2.locate f.path = .ok q) s.2
      (suite.verdict e index f.path s).2.2 := by
  have heffect := effect_verdict suite he index s hname
  generalize (suite.verdict e index f.path s).2.2 = d at heffect ⊢
  cases heffect with
  | kept _ => exact .refl _
  | written _ _ hs _ hw =>
    obtain ⟨bytes, hread⟩ := hs.read
    obtain ⟨p, hp, hrw, -⟩ := Disk.rewritten_write hread hw
    exact hrw.mono fun q hq => by rw [hq, hp]

-- Where the disk is not as it was, the baseline was updated.
theorem updated_of_node?_ne (he : ∀ r t, (e.emit r t).2.2 = t.2) {s : σ × Disk}
    (hname : Name.ofPath f.path = .ok f.name) {q : Place}
    (h : (suite.verdict e index f.path s).2.2.node? q ≠ s.2.node? q) :
    (suite.verdict e index f.path s).1.status = .updated ∧ s.2.locate f.path = .ok q := by
  have heffect := effect_verdict suite he index s hname
  have hrw := verdict_rewritten suite he index s hname
  refine ⟨?_, not_imp_comm.1 (hrw.kept q) h⟩
  generalize (suite.verdict e index f.path s).1 = v at heffect ⊢
  generalize (suite.verdict e index f.path s).2.2 = d at heffect h
  cases heffect with
  | kept _ => exact absurd rfl h
  | written hv => exact hv

end Verdict

/-! ## 2. Many baselines -/

section Run

variable {found : List Found} {s : σ × Disk}

/-- A run changes the disk only at the places of the baselines that it goes through. -/
theorem runAll_frame (suite : Suite) (he : ∀ r t, (e.emit r t).2.2 = t.2)
    (index : Option SourceIndex) (hf : ∀ f ∈ found, Name.ofPath f.path = .ok f.name)
    (s : σ × Disk) : Disk.Rewritten (fun q => ∃ f ∈ found, s.2.locate f.path = .ok q) s.2
      (suite.runAll e index found s).2.2 := by
  induction found generalizing s with
  | nil => exact .refl s.2
  | cons f r ih =>
    have hv := verdict_rewritten suite he index s (hf f List.mem_cons_self)
    have hr := ih (fun g hg => hf g (List.mem_cons_of_mem f hg)) (suite.verdict e index f.path s).2
    refine (hv.mono ?_).trans (hr.mono ?_)
    · exact fun q hq => ⟨f, List.mem_cons_self, hq⟩
    · rintro q ⟨g, hg, hq⟩
      rw [hv.locate_eq] at hq
      exact ⟨g, List.mem_cons_of_mem f hg, hq⟩

-- What is not as it was after a run was changed by some verdict.
theorem exists_moment_of_change {q : Place}
    (h : (suite.runAll e index found s).2.2.node? q ≠ s.2.node? q) :
    ∃ m ∈ suite.moments e index found s,
      (suite.verdict e index m.1.path m.2).2.2.node? q ≠ m.2.2.node? q := by
  induction found generalizing s with
  | nil => exact absurd rfl h
  | cons f r ih =>
    rw [moments]
    by_cases hf : (suite.verdict e index f.path s).2.2.node? q = s.2.node? q
    · have hr : (suite.runAll e index r (suite.verdict e index f.path s).2).2.2.node? q ≠
          (suite.verdict e index f.path s).2.2.node? q := by
        rw [hf]
        exact h
      obtain ⟨m, hm, hne⟩ := ih hr
      exact ⟨m, List.mem_cons_of_mem _ hm, hne⟩
    · exact ⟨(f, s), List.mem_cons_self, hf⟩

variable {root : Path} {selection : Selection} {d : Disk} {a b : List Found} {f : Found}

-- No other baseline stands where one does.
theorem others_apart (hbase : baselines d root selection = .ok found)
    (hab : found = a ++ f :: b) {q : Place} (hq : d.locate f.path = .ok q) :
    (∀ g ∈ a, d.locate g.path ≠ .ok q) ∧ ∀ g ∈ b, d.locate g.path ≠ .ok q := by
  have hpair := pairwise_baselines hbase
  rw [hab, List.pairwise_append, List.pairwise_cons] at hpair
  obtain ⟨-, ⟨hfb, -⟩, haf⟩ := hpair
  refine ⟨fun g hg hgq => ?_, fun g hg => hfb g hg q hq⟩
  exact haf g hg f List.mem_cons_self q hgq hq

end Run

/-- The file at `p` is a baseline that is called updated at its moment: it held a text and was asked
for with a request, and `after` holds it with the first code that answered. -/
structure Updated (suite : Suite) (e : Emitter σ) (index : Option SourceIndex) (before after : Disk)
    (m : Found × (σ × Disk)) (p : Place) : Prop where
  update : suite.update = true
  status : (suite.verdict e index m.1.path m.2).1.status = .updated
  place : before.locate m.1.path = .ok p
  bytes : ∃ baseline r code, Sent m.2.2 index m.1 baseline r ∧
    before.readText m.1.path = .ok baseline ∧
    (suite.answersTo e r m.2).head? = some (.ok code) ∧
    after.node? p = some (.file (renewed baseline code))

theorem head?_answersTo {r : Request} {code : Text} {s : σ × Disk}
    (h : ∀ a ∈ suite.answersTo e r s, a = .ok code) :
    (suite.answersTo e r s).head? = some (.ok code) := by
  obtain ⟨a, l, hl⟩ := List.exists_cons_of_ne_nil (answersTo_ne_nil suite e r s)
  rw [hl] at h ⊢
  rw [List.head?_cons, h a List.mem_cons_self]

/-- What was written for a baseline stays until the run is over. -/
theorem updated_of_status (he : ∀ r t, (e.emit r t).2.2 = t.2) {s : σ × Disk} {found : List Found}
    (hs : suite.scope s.2 = .ok (index, found)) {m : Found × (σ × Disk)}
    (hm : m ∈ suite.moments e index found s)
    (hup : (suite.verdict e index m.1.path m.2).1.status = .updated) :
    ∃ p, Updated suite e index s.2 (suite.runAll e index found s).2.2 m p := by
  obtain ⟨a, b, hab, hstate⟩ := exists_of_mem_moments hm
  have hname : ∀ g ∈ found, Name.ofPath g.path = .ok g.name := fun g hg => ofPath_of_scope hs hg
  have hnames : (∀ g ∈ a, Name.ofPath g.path = .ok g.name) ∧
      Name.ofPath m.1.path = .ok m.1.name ∧ ∀ g ∈ b, Name.ofPath g.path = .ok g.name := by
    rw [hab] at hname
    simpa [or_imp, forall_and] using hname
  have heffect := effect_verdict suite he index m.2 hnames.2.1
  have hverdict := verdict_rewritten suite he index m.2 hnames.2.1
  -- the baselines of `a` come before, and those of `b` after
  have hbefore := runAll_frame suite he index hnames.1 s
  have hafter := runAll_frame suite he index hnames.2.2 (suite.verdict e index m.1.path m.2).2
  have hend : suite.runAll e index found s = ((suite.runAll e index found s).1,
      (suite.runAll e index b (suite.verdict e index m.1.path m.2).2).2) := by
    refine Prod.ext rfl ?_
    rw [hab, runAll_append, ← hstate]
    rfl
  rw [← hstate] at hbefore
  rw [hend]
  generalize (suite.verdict e index m.1.path m.2).2.2 = d at *
  generalize hv : (suite.verdict e index m.1.path m.2).1 = v at heffect
  cases heffect with
  | kept h => exact absurd (hv ▸ hup) h
  | @written _ _ baseline code r _ hu hsent ha hw =>
    obtain ⟨old, hread⟩ := hsent.read
    obtain ⟨p, hp, -, hn⟩ := Disk.rewritten_write hread hw
    have hp0 : s.2.locate m.1.path = .ok p := (hbefore.locate_eq _).symm.trans hp
    have hapart := others_apart (scope_ok hs).2 hab hp0
    refine ⟨p, hu, hup, hp0, baseline, r, code, hsent, ?_, head?_answersTo ha, ?_⟩
    · rw [← hsent.readText]
      refine (hbefore.readText_eq ?_).symm
      rintro q hq ⟨g, hg, hgq⟩
      obtain rfl := Except.ok.inj (hp0.symm.trans hq)
      exact hapart.1 g hg hgq
    · rw [hafter.kept p, hn]
      rintro ⟨g, hg, hgq⟩
      rw [hverdict.locate_eq, hbefore.locate_eq] at hgq
      exact hapart.2 g hg hgq

/-! ## 3. Runs -/

-- Paths lead where they led before the run.
theorem locate_moment (he : ∀ r t, (e.emit r t).2.2 = t.2) {s : σ × Disk} {found : List Found}
    (hs : suite.scope s.2 = .ok (index, found)) {m : Found × (σ × Disk)}
    (hm : m ∈ suite.moments e index found s) (path : Path) :
    m.2.2.locate path = s.2.locate path := by
  obtain ⟨a, b, hab, hstate⟩ := exists_of_mem_moments hm
  rw [hstate]
  apply (runAll_frame suite he index (fun g hg => ?_) s).locate_eq
  exact ofPath_of_scope hs (by rw [hab]; exact List.mem_append_left _ hg)

/-- With an emitter that leaves the disk alone, a run that fails leaves everything alone, and any
other run changes only the files of baselines that it reports updated: they end with the first code
for them in the place of the old, and all other cases leave the disk as it was. -/
theorem run_writes_updated (suite : Suite) (e : Emitter σ) (he : ∀ r t, (e.emit r t).2.2 = t.2)
    (s : σ × Disk) : (∃ t, suite.run e s = (.error t, s)) ∨
      ∃ index found report, suite.scope s.2 = .ok (index, found) ∧ (suite.run e s).1 = .ok report ∧
        let moments := suite.moments e index found s
        let verdictAt := fun m : Found × (σ × Disk) => suite.verdict e index m.1.path m.2
        let after := (suite.run e s).2.2
        moments.map (·.1) = found ∧
        report.cases.Perm (moments.map fun m => (verdictAt m).1.toCase m.1) ∧
        (∀ m ∈ moments, (verdictAt m).1.status ≠ .updated → (verdictAt m).2.2 = m.2.2) ∧
        (∀ m ∈ moments, (verdictAt m).1.status = .updated →
          ∃ p, Updated suite e index s.2 after m p) ∧
        ∀ q, after.node? q ≠ s.2.node? q → ∃ m ∈ moments, Updated suite e index s.2 after m q := by
  cases hs : suite.scope s.2 with
  | error t => exact Or.inl ⟨t, by rw [run, hs]⟩
  | ok scope =>
    obtain ⟨index, found⟩ := scope
    have hrun := run_of_scope (e := e) hs
    have hname : ∀ m ∈ suite.moments e index found s, Name.ofPath m.1.path = .ok m.1.name := by
      intro m hm
      obtain ⟨a, b, hab, -⟩ := exists_of_mem_moments hm
      exact ofPath_of_scope hs (by rw [hab]; simp)
    refine Or.inr ⟨index, found, _, rfl, by rw [hrun], moments_map_fst suite e index found s, ?_, ?_,
      ?_, ?_⟩
    · rw [← runAll_fst]
      exact cases_perm _ _
    · intro m hm hv
      have heffect := effect_verdict suite he index m.2 (hname m hm)
      generalize (suite.verdict e index m.1.path m.2).2.2 = d at heffect ⊢
      cases heffect with
      | kept _ => rfl
      | written hup => exact absurd hup hv
    · intro m hm hup
      rw [hrun]
      exact updated_of_status he hs hm hup
    · intro q hq
      rw [hrun] at hq ⊢
      obtain ⟨m, hm, hne⟩ := exists_moment_of_change hq
      obtain ⟨hup, hplace⟩ := updated_of_node?_ne he (hname m hm) hne
      obtain ⟨p, hp⟩ := updated_of_status he hs hm hup
      rw [locate_moment he hs hm, hp.place, Except.ok.injEq] at hplace
      exact ⟨m, hm, hplace ▸ hp⟩

theorem run_writes_updated_sole :
    let e := Emitter.echo []
    let after := (soleUpdate.run e ((), soleDisk)).2.2
    (∀ r t, (e.emit r t).2.2 = t.2) ∧
      ∃ p, Updated soleUpdate e none soleDisk after (soleFound, ((), soleDisk)) p := by
  intro e after
  have hs := scope_of_baselines soleUpdate rfl soleSuite_baselines
  have he : ∀ r t, (e.emit r t).2.2 = t.2 := fun _ _ => rfl
  refine ⟨he, ?_⟩
  rcases run_writes_updated soleUpdate e he ((), soleDisk) with
    ⟨t, ht⟩ | ⟨index, found, report, hs', -, -, -, -, hup, -⟩
  · rw [run_of_scope hs] at ht
    exact absurd (congrArg Prod.fst ht) (by simp)
  · obtain ⟨rfl, rfl⟩ := Prod.mk.inj (Except.ok.inj (hs.symm.trans hs'))
    exact hup (soleFound, ((), soleDisk)) List.mem_cons_self (by decide +kernel)

end Baselines.Suite
