import Baselines.Suite
import Mathlib.Logic.Basic

/-!
# Verdicts

What comes out for one baseline depends on the files that belong to it and on what the emitter would
answer to its request, asked as often as the suite says. Every verdict has one cause, and the causes
exclude each other.
-/

namespace Baselines

/-! ## 1. Answers -/

namespace Stability

variable {τ : Type}

/-- The answers to a request that is made so many times. -/
def answers (ask : τ → Answer × τ) : Nat → τ → List Answer
  | 0, _ => []
  | n + 1, s => (ask s).1 :: answers ask n (ask s).2

/-- The first answer that is not the code of the first one: a fault, or other code. -/
def deviation? : List Answer → Option Answer
  | [] => none
  | .error fault :: _ => some (.error fault)
  | .ok first :: r => r.find? fun a => a.toOption ≠ some first

theorem toOption_eq_some {ε α : Type} {x : Except ε α} {a : α} :
    x.toOption = some a ↔ x = .ok a := by
  cases x <;> simp [Except.toOption]

-- No deviation: every answer is the code of the first.
theorem deviation?_eq_none_iff {as : List Answer} :
    deviation? as = none ↔ ∃ first, ∀ a ∈ as, a = .ok first := by
  cases as with
  | nil => exact iff_of_true rfl ⟨[], fun a ha => absurd ha List.not_mem_nil⟩
  | cons a r =>
    cases a with
    | error fault =>
      refine iff_of_false (by simp [deviation?]) ?_
      rintro ⟨first, h⟩
      exact absurd (h _ List.mem_cons_self) (by simp)
    | ok code =>
      rw [deviation?, List.find?_eq_none]
      constructor
      · intro h
        refine ⟨code, fun b hb => ?_⟩
        rcases List.mem_cons.1 hb with rfl | hb
        · rfl
        · have hc := h b hb
          rw [decide_eq_true_eq, not_not] at hc
          exact toOption_eq_some.1 hc
      · rintro ⟨first, h⟩ b hb
        have hf : code = first := Except.ok.inj (h _ List.mem_cons_self)
        rw [hf, h b (List.mem_cons_of_mem _ hb)]
        simp [Except.toOption]

/-- What the answers to a request come to: the code that they agree on, or the first deviation. -/
inductive Settled (as : List Answer) : Except Instability Text → Prop where
  | steady {first : Text} (h : ∀ a ∈ as, a = .ok first) : Settled as (.ok first)
  | failed {fault : EmitFault} (h : deviation? as = some (.error fault)) :
      Settled as (.error (.emit fault))
  | diverged {code : Text} {run : Nat} {diff : Text} (h : deviation? as = some (.ok code)) :
      Settled as (.error (.diverged run diff))

theorem deviation?_cons_same (first : Text) (as : List Answer) :
    deviation? (.ok first :: .ok first :: as) = deviation? (.ok first :: as) := by
  rw [deviation?, deviation?, List.find?_cons_of_neg (by simp [Except.toOption])]

theorem Settled.cons_same {first : Text} {as : List Answer} {x : Except Instability Text}
    (h : Settled (.ok first :: as) x) : Settled (.ok first :: .ok first :: as) x := by
  cases h with
  | steady h =>
    refine .steady fun a ha => ?_
    rcases List.mem_cons.1 ha with rfl | ha
    · exact h _ List.mem_cons_self
    · exact h a ha
  | failed h => exact .failed (by rw [deviation?_cons_same, h])
  | diverged h => exact .diverged (by rw [deviation?_cons_same, h])

theorem settled_askAgain (ask : τ → Answer × τ) (first : Text) (n run : Nat) (s : τ) :
    Settled (.ok first :: answers ask n s) (askAgain ask first n run s).1 := by
  -- induction on the times left; one more answer that agrees changes nothing
  induction n generalizing run s with
  | zero => exact .steady fun a ha => List.mem_singleton.1 ha
  | succ n ih =>
    rw [answers, askAgain]
    cases ha : ask s with
    | mk a t =>
      cases a with
      | error fault =>
        apply Settled.failed
        rw [deviation?, List.find?_cons_of_pos (by simp [Except.toOption])]
      | ok code =>
        by_cases hc : code = first
        · simp only [hc, if_true]
          exact (ih (run + 1) t).cons_same
        · simp only [hc, if_false]
          apply Settled.diverged
          rw [deviation?, List.find?_cons_of_pos (by simp [Except.toOption, hc])]

theorem settled_check (ask : τ → Answer × τ) (runs : Nat) (s : τ) :
    Settled (answers ask (max runs 2) s) (check ask runs s).1 := by
  have hmax : max runs 2 = (max runs 2 - 1) + 1 := by omega
  rw [hmax, answers, check]
  cases ha : ask s with
  | mk a t =>
    cases a with
    | error fault => exact .failed rfl
    | ok first => exact settled_askAgain ask first (max runs 2 - 1) 2 t

theorem askAgain_of_answer {ask : τ → Answer × τ} {first : Text}
    (h : ∀ t, (ask t).1 = .ok first) (n run : Nat) (s : τ) :
    (askAgain ask first n run s).1 = .ok first := by
  induction n generalizing run s with
  | zero => rfl
  | succ n ih =>
    have ha := h s
    rw [askAgain]
    rcases hk : ask s with ⟨a, t⟩
    rw [hk] at ha
    obtain rfl := ha
    simp only [if_true, ih]

/-- Answers that do not depend on when they are given never disagree. -/
theorem check_of_answer {ask : τ → Answer × τ} {answer : Answer} (h : ∀ t, (ask t).1 = answer)
    (runs : Nat) (s : τ) : (check ask runs s).1 = answer.mapError .emit := by
  have ha := h s
  rw [check]
  rcases hk : ask s with ⟨a, t⟩
  rw [hk] at ha
  obtain rfl := ha
  cases a with
  | error fault => rfl
  | ok first => exact askAgain_of_answer h _ 2 t

end Stability

namespace Suite

open Stability

variable {σ : Type}

/-- The answers that a suite would get to a request. -/
def answersTo (suite : Suite) (e : Emitter σ) (request : Request) (s : σ × Disk) : List Answer :=
  answers (e.emit request) (max suite.runs 1) s

/-- What a suite makes of the answers: code to compare, or a verdict on the first deviation. -/
inductive Told (as : List Answer) : Except Verdict Text → Prop where
  | code {first : Text} (h : ∀ a ∈ as, a = .ok first) : Told as (.ok first)
  | failed {fault : EmitFault} {v : Verdict} (h : deviation? as = some (.error fault))
      (hv : v.status = .emitFailed) : Told as (.error v)
  | diverged {code : Text} {v : Verdict} (h : deviation? as = some (.ok code))
      (hv : v.status = .nondeterministic) : Told as (.error v)

theorem told_emitted (suite : Suite) (e : Emitter σ) (request : Request) (s : σ × Disk) :
    Told (suite.answersTo e request s) (emitted e suite.runs request s).1 := by
  unfold answersTo emitted
  by_cases hr : 1 < suite.runs
  · -- more than one run is at least two, which is what the check asks for
    have hmax : max suite.runs 1 = max suite.runs 2 := by omega
    rw [if_pos hr, hmax]
    have hsettled := settled_check (e.emit request) suite.runs s
    rcases hc : Stability.check (e.emit request) suite.runs s with ⟨x, t⟩
    rw [hc] at hsettled
    cases hsettled with
    | steady h => exact .code h
    | failed h => exact .failed h rfl
    | diverged h => exact .diverged h rfl
  · have hmax : max suite.runs 1 = 0 + 1 := by omega
    rw [if_neg hr, hmax, answers, answers]
    cases ha : e.emit request s with
    | mk a t =>
      cases a with
      | error fault => exact .failed rfl rfl
      | ok first => exact .code fun a ha => List.mem_singleton.1 ha

-- An answer that does not depend on when it is given is told as it is.
theorem emitted_of_answer {e : Emitter σ} {request : Request} {answer : Answer}
    (h : ∀ t, (e.emit request t).1 = answer) (runs : Nat) (s : σ × Disk) :
    (emitted e runs request s).1 = answer.mapError fun fault =>
      { status := .emitFailed, detail := some fault.message } := by
  unfold emitted
  split
  · have hc := check_of_answer h runs s
    rcases hk : Stability.check (e.emit request) runs s with ⟨x, t⟩
    rw [hk] at hc
    obtain rfl := hc
    cases answer with
    | error fault => rfl
    | ok code => rfl
  · have ha := h s
    rcases hk : e.emit request s with ⟨a, t⟩
    rw [hk] at ha
    obtain rfl := ha
    cases a with
    | error fault => rfl
    | ok code => rfl

/-! ## 2. Requests -/

/-- A baseline and its source cannot be worked with: one of them cannot be read, or the name of the
baseline asks for a target that there is not. -/
inductive Unfit (d : Disk) (index : Option SourceIndex) (f : Found) : Prop where
  | baseline (h : ∀ t, d.readText f.path ≠ .ok t)
  | source {p : Path} (hp : Fixture.sourcePath? d index f.path f.name = some p)
      (h : ∀ t, d.readText p ≠ .ok t)
  | target {p : Path} (hp : Fixture.sourcePath? d index f.path f.name = some p) {value : Text}
      (hv : f.name.option? "target" = some value) (h : Target.parse? value = none)

/-- The text of a baseline, and the request that is made for it. -/
inductive Sent (d : Disk) (index : Option SourceIndex) (f : Found) : Text → Request → Prop where
  | intro {baseline source : Text} {p : Path} {target : Option Target}
      (hb : d.readText f.path = .ok baseline)
      (hp : Fixture.sourcePath? d index f.path f.name = some p)
      (hs : d.readText p = .ok source) (ht : f.name.target = .ok target) :
      Sent d index f baseline
        { file := (MarkedFile.parse baseline).primary?.getD f.name.sourceName
          source
          target
          stage := f.name.effectiveStage
          options := Request.optionsOf ((Directives.parse source).settled ++ f.name.options) }

variable {d : Disk} {index : Option SourceIndex} {f : Found}

theorem target_error {n : Name} {fault : Fault} (h : n.target = .error fault) :
    ∃ value, n.option? "target" = some value ∧ Target.parse? value = none := by
  unfold Name.target at h
  split at h
  · exact absurd h (by simp)
  · rename_i value hv
    split at h
    · exact absurd h (by simp)
    · rename_i hp
      exact ⟨value, hv, hp⟩

theorem target_ok {n : Name} {target : Option Target} (h : n.target = .ok target) {value : Text}
    (hv : n.option? "target" = some value) : Target.parse? value ≠ none := by
  intro hp
  unfold Name.target at h
  rw [hv] at h
  simp only [hp] at h
  exact absurd h (by simp)

/-- A baseline for which a request is made can be worked with. -/
theorem Sent.not_unfit {baseline : Text} {r : Request} (h : Sent d index f baseline r) :
    ¬ Unfit d index f := by
  obtain ⟨hb, hp, hs, ht⟩ := h
  rintro (h | ⟨hp', h⟩ | ⟨hp', hv, h⟩)
  · exact h _ hb
  · rw [hp, Option.some.injEq] at hp'
    rw [← hp'] at h
    exact h _ hs
  · exact target_ok ht hv h

/-- Only one request is made for a baseline. -/
theorem Sent.unique {b c : Text} {r q : Request} (h : Sent d index f b r) (h' : Sent d index f c q) :
    b = c ∧ r = q := by
  obtain ⟨hb, hp, hs, ht⟩ := h
  obtain ⟨hb', hp', hs', ht'⟩ := h'
  obtain rfl := Except.ok.inj (hb.symm.trans hb')
  obtain rfl := Option.some.inj (hp.symm.trans hp')
  obtain rfl := Except.ok.inj (hs.symm.trans hs')
  obtain rfl := Except.ok.inj (ht.symm.trans ht')
  exact ⟨rfl, rfl⟩

theorem Sent.sourcePath?_ne_none {baseline : Text} {r : Request} (h : Sent d index f baseline r) :
    Fixture.sourcePath? d index f.path f.name ≠ none := by
  obtain ⟨hb, hp, hs, ht⟩ := h
  rw [hp]
  simp

/-- A baseline is unfit, or it has no source, or a request is made for it. -/
theorem ready_cases (d : Disk) (index : Option SourceIndex)
    (hname : Name.ofPath f.path = .ok f.name) :
    let result := ready d index f.path
    (Unfit d index f ∧ ∃ v, result = .error v ∧ v.status = .invalidFixture) ∨
      (¬ Unfit d index f ∧ Fixture.sourcePath? d index f.path f.name = none ∧
        ∃ v, result = .error v ∧ v.status = .missingSource) ∨
      ∃ fixture r baseline, Sent d index f baseline r ∧ result = .ok (fixture, r) ∧
        fixture.path = f.path ∧ fixture.file = MarkedFile.parse baseline := by
  intro result
  have hres : result = ready d index f.path := rfl
  unfold ready Fixture.load at hres
  simp only [bind, Except.bind, hname] at hres
  cases hb : d.readText f.path with
  | error t =>
    simp only [hb] at hres
    exact Or.inl ⟨.baseline (by simp [hb]), _, hres, rfl⟩
  | ok baseline =>
    simp only [hb] at hres
    cases hp : Fixture.sourcePath? d index f.path f.name with
    | none =>
      simp only [hp] at hres
      refine Or.inr (Or.inl ⟨?_, rfl, _, hres, rfl⟩)
      rintro (h | ⟨hp', -⟩ | ⟨hp', -⟩)
      · exact h _ hb
      · exact absurd (hp.symm.trans hp') (by simp)
      · exact absurd (hp.symm.trans hp') (by simp)
    | some p =>
      simp only [hp, Source.load] at hres
      cases hs : d.readText p with
      | error t =>
        simp only [hs, Except.map] at hres
        exact Or.inl ⟨.source hp (by simp [hs]), _, hres, rfl⟩
      | ok source =>
        simp only [hs, Except.map, Fixture.request, Fixture.requestFor, bind, Except.bind] at hres
        cases ht : f.name.target with
        | error fault =>
          simp only [pure, Except.pure, ht] at hres
          obtain ⟨value, hv, hn⟩ := target_error ht
          exact Or.inl ⟨.target hp hv hn, _, hres, rfl⟩
        | ok target =>
          simp only [pure, Except.pure, ht] at hres
          exact Or.inr (Or.inr ⟨_, _, baseline, .intro hb hp hs ht, hres, rfl, rfl⟩)

-- The fixture of a baseline for which a request is made.
theorem Sent.ready_ok {baseline : Text} {r : Request} (h : Sent d index f baseline r)
    (hname : Name.ofPath f.path = .ok f.name) : ∃ fixture : Fixture,
      ready d index f.path = .ok (fixture, r) ∧ fixture.file = MarkedFile.parse baseline := by
  rcases ready_cases d index hname with
    ⟨hn, -⟩ | ⟨-, hn, -⟩ | ⟨fixture, q, c, hs, hr, -, hfile⟩
  · exact absurd hn h.not_unfit
  · exact absurd hn h.sourcePath?_ne_none
  · obtain ⟨rfl, rfl⟩ := h.unique hs
    exact ⟨fixture, hr, hfile⟩

/-! ## 3. Verdicts -/

/-- What comes out for a baseline without an update, when the memory of the emitter and the disk are
`s` before it. -/
inductive Fares (suite : Suite) (e : Emitter σ) (index : Option SourceIndex) (f : Found)
    (s : σ × Disk) : Status → Prop where
  | invalidFixture (hu : Unfit s.2 index f) : Fares suite e index f s .invalidFixture
  | missingSource (hu : ¬ Unfit s.2 index f)
      (hp : Fixture.sourcePath? s.2 index f.path f.name = none) :
      Fares suite e index f s .missingSource
  | emitFailed {baseline : Text} {r : Request} {fault : EmitFault}
      (hs : Sent s.2 index f baseline r)
      (hd : deviation? (suite.answersTo e r s) = some (.error fault)) :
      Fares suite e index f s .emitFailed
  | nondeterministic {baseline : Text} {r : Request} {code : Text}
      (hs : Sent s.2 index f baseline r)
      (hd : deviation? (suite.answersTo e r s) = some (.ok code)) :
      Fares suite e index f s .nondeterministic
  | pass {baseline : Text} {r : Request} {code : Text} (hs : Sent s.2 index f baseline r)
      (ha : ∀ a ∈ suite.answersTo e r s, a = .ok code)
      (hm : (Comparison.compare (MarkedFile.parse baseline).code code suite.mode).isMatch = true) :
      Fares suite e index f s .pass
  | mismatch {baseline : Text} {r : Request} {code : Text} (hs : Sent s.2 index f baseline r)
      (ha : ∀ a ∈ suite.answersTo e r s, a = .ok code)
      (hm : (Comparison.compare (MarkedFile.parse baseline).code code suite.mode).isMatch = false) :
      Fares suite e index f s .mismatch

theorem answersTo_ne_nil (suite : Suite) (e : Emitter σ) (r : Request) (s : σ × Disk) :
    suite.answersTo e r s ≠ [] := by
  have hmax : max suite.runs 1 = (max suite.runs 1 - 1) + 1 := by omega
  unfold answersTo
  rw [hmax, answers]
  exact List.cons_ne_nil _ _

section Exclusion

variable {suite : Suite} {e : Emitter σ} {s : σ × Disk} {b c : Text} {r q : Request} {x y : Text}

theorem code_unique (hx : ∀ a ∈ suite.answersTo e r s, a = .ok x)
    (hy : ∀ a ∈ suite.answersTo e r s, a = .ok y) : x = y := by
  obtain ⟨a, l, hl⟩ := List.exists_cons_of_ne_nil (answersTo_ne_nil suite e r s)
  have ha : a ∈ suite.answersTo e r s := by
    rw [hl]
    exact List.mem_cons_self
  exact Except.ok.inj ((hx a ha).symm.trans (hy a ha))

-- Answers that agree do not deviate, ...
theorem Sent.steady {a : Answer} (hs : Sent s.2 index f b r) (hs' : Sent s.2 index f c q)
    (ha : ∀ a ∈ suite.answersTo e r s, a = .ok x) :
    deviation? (suite.answersTo e q s) ≠ some a := by
  intro hd
  rw [← (hs.unique hs').2, deviation?_eq_none_iff.2 ⟨_, ha⟩] at hd
  exact absurd hd (by simp)

-- ... a deviation is a fault or other code, ...
theorem Sent.apart {fault : EmitFault} (hs : Sent s.2 index f b r) (hs' : Sent s.2 index f c q)
    (hd : deviation? (suite.answersTo e r s) = some (.error fault)) :
    deviation? (suite.answersTo e q s) ≠ some (.ok x) := by
  intro hd'
  rw [← (hs.unique hs').2, hd] at hd'
  exact absurd hd' (by simp)

-- ... and code matches or it does not.
theorem Sent.decided (hs : Sent s.2 index f b r) (hs' : Sent s.2 index f c q)
    (hx : ∀ a ∈ suite.answersTo e r s, a = .ok x) (hy : ∀ a ∈ suite.answersTo e q s, a = .ok y) :
    (Comparison.compare (MarkedFile.parse b).code x suite.mode).isMatch =
      (Comparison.compare (MarkedFile.parse c).code y suite.mode).isMatch := by
  obtain ⟨rfl, rfl⟩ := hs.unique hs'
  rw [code_unique hx hy]

end Exclusion

/-- A baseline fares in one way only. -/
theorem Fares.unique {suite : Suite} {e : Emitter σ} {s : σ × Disk} {a b : Status}
    (ha : Fares suite e index f s a) (hb : Fares suite e index f s b) : a = b := by
  cases ha with
  | invalidFixture hu =>
    cases hb with
    | invalidFixture => rfl
    | missingSource hn => exact absurd hu hn
    | emitFailed hs => exact absurd hu hs.not_unfit
    | nondeterministic hs => exact absurd hu hs.not_unfit
    | pass hs => exact absurd hu hs.not_unfit
    | mismatch hs => exact absurd hu hs.not_unfit
  | missingSource hn hp =>
    cases hb with
    | invalidFixture hu => exact absurd hu hn
    | missingSource => rfl
    | emitFailed hs => exact absurd hp hs.sourcePath?_ne_none
    | nondeterministic hs => exact absurd hp hs.sourcePath?_ne_none
    | pass hs => exact absurd hp hs.sourcePath?_ne_none
    | mismatch hs => exact absurd hp hs.sourcePath?_ne_none
  | emitFailed hs hd =>
    cases hb with
    | invalidFixture hu => exact absurd hu hs.not_unfit
    | missingSource hn hp => exact absurd hp hs.sourcePath?_ne_none
    | emitFailed => rfl
    | nondeterministic hs' hd' => exact absurd hd' (hs.apart hs' hd)
    | pass hs' ha => exact absurd hd (hs'.steady hs ha)
    | mismatch hs' ha => exact absurd hd (hs'.steady hs ha)
  | nondeterministic hs hd =>
    cases hb with
    | invalidFixture hu => exact absurd hu hs.not_unfit
    | missingSource hn hp => exact absurd hp hs.sourcePath?_ne_none
    | emitFailed hs' hd' => exact absurd hd (hs'.apart hs hd')
    | nondeterministic => rfl
    | pass hs' ha => exact absurd hd (hs'.steady hs ha)
    | mismatch hs' ha => exact absurd hd (hs'.steady hs ha)
  | pass hs ha hm =>
    cases hb with
    | invalidFixture hu => exact absurd hu hs.not_unfit
    | missingSource hn hp => exact absurd hp hs.sourcePath?_ne_none
    | emitFailed hs' hd => exact absurd hd (hs.steady hs' ha)
    | nondeterministic hs' hd => exact absurd hd (hs.steady hs' ha)
    | pass => rfl
    | mismatch hs' ha' hm' =>
      rw [hs.decided hs' ha ha', hm'] at hm
      exact absurd hm (by decide)
  | mismatch hs ha hm =>
    cases hb with
    | invalidFixture hu => exact absurd hu hs.not_unfit
    | missingSource hn hp => exact absurd hp hs.sourcePath?_ne_none
    | emitFailed hs' hd => exact absurd hd (hs.steady hs' ha)
    | nondeterministic hs' hd => exact absurd hd (hs.steady hs' ha)
    | pass hs' ha' hm' =>
      rw [hs.decided hs' ha ha', hm'] at hm
      exact absurd hm (by decide)
    | mismatch => rfl

-- A baseline that no request is made for gets the verdict that says why, and nothing happens.
theorem verdict_of_error {suite : Suite} {e : Emitter σ} {path : Path} {s : σ × Disk} {v : Verdict}
    (h : ready s.2 index path = .error v) : suite.verdict e index path s = (v, s) := by
  unfold verdict
  rw [h]

/-- What judging can do: code that matches passes, and other code is a mismatch or is written. -/
theorem judge_cases (suite : Suite) (fixture : Fixture) (code : Text) (d : Disk) :
    let result := suite.judge fixture code d
    let matched := (Comparison.compare fixture.expected code suite.mode).isMatch
    (matched = true ∧ result.1.status = .pass ∧ result.2 = d) ∨
      (matched = false ∧ result.1.status = .mismatch ∧ result.2 = d) ∨
      (matched = false ∧ suite.update = true ∧ result.1.status = .updated ∧
        d.write fixture.path (blessed fixture code) = .ok result.2) := by
  unfold judge Comparison.isMatch
  cases (Comparison.compare fixture.expected code suite.mode).mismatch with
  | none => exact Or.inl ⟨rfl, rfl, rfl⟩
  | some m =>
    cases hu : suite.update with
    | false => exact Or.inr (Or.inl ⟨rfl, rfl, rfl⟩)
    | true =>
      cases hw : d.write fixture.path (blessed fixture code) with
      | error x => exact Or.inr (Or.inl ⟨rfl, rfl, rfl⟩)
      | ok e => exact Or.inr (Or.inr ⟨rfl, rfl, rfl, rfl⟩)

/-- Code passes when it matches. -/
theorem judge_pass_iff (suite : Suite) (fixture : Fixture) (code : Text) (d : Disk) :
    (suite.judge fixture code d).1.status = .pass ↔
      (Comparison.compare fixture.expected code suite.mode).isMatch = true := by
  rcases suite.judge_cases fixture code d with ⟨hm, hs, -⟩ | ⟨hm, hs, -⟩ | ⟨hm, -, hs, -⟩
  · simp [hm, hs]
  · simp [hm, hs]
  · simp [hm, hs]

/-- Without an update, code that does not match is a mismatch, and nothing is written. -/
theorem judge_of_not_update (suite : Suite) (hu : suite.update = false) (fixture : Fixture)
    (code : Text) (d : Disk) : (suite.judge fixture code d).2 = d ∧
      (suite.judge fixture code d).1.status =
        if (Comparison.compare fixture.expected code suite.mode).isMatch = true then .pass
        else .mismatch := by
  rcases suite.judge_cases fixture code d with ⟨hm, hs, hd⟩ | ⟨hm, hs, hd⟩ | ⟨-, hu', -⟩
  · exact ⟨hd, by rw [hs, hm, if_pos rfl]⟩
  · exact ⟨hd, by rw [hs, hm, if_neg (by decide)]⟩
  · rw [hu] at hu'
    exact absurd hu' (by decide)

-- Without an update, a baseline gets the verdict on how it fares.
theorem fares_verdict (suite : Suite) (hu : suite.update = false) (e : Emitter σ) (s : σ × Disk)
    (hname : Name.ofPath f.path = .ok f.name) :
    Fares suite e index f s (suite.verdict e index f.path s).1.status := by
  unfold verdict
  rcases ready_cases s.2 index hname with
    ⟨h, v, hr, hv⟩ | ⟨h, hp, v, hr, hv⟩ | ⟨fixture, r, baseline, hs, hr, -, hfile⟩
  · rw [hr]
    simp only [hv]
    exact .invalidFixture h
  · rw [hr]
    simp only [hv]
    exact .missingSource h hp
  · rw [hr]
    simp only
    have htold := told_emitted suite e r s
    rcases hem : emitted e suite.runs r s with ⟨x, t⟩
    rw [hem] at htold
    cases htold with
    | @code code ha =>
      simp only
      rw [(judge_of_not_update suite hu fixture code t.2).2]
      have hexp : fixture.expected = (MarkedFile.parse baseline).code := by
        unfold Fixture.expected
        rw [hfile]
      rw [hexp]
      split
      · rename_i hm
        exact .pass hs ha hm
      · rename_i hm
        exact .mismatch hs ha (by simpa using hm)
    | failed hd hv =>
      simp only [hv]
      exact .emitFailed hs hd
    | diverged hd hv =>
      simp only [hv]
      exact .nondeterministic hs hd

/-- Without an update, the verdict tells how a baseline fares, and nothing else. -/
theorem verdict_status_iff (suite : Suite) (hu : suite.update = false) (e : Emitter σ)
    (s : σ × Disk) (hname : Name.ofPath f.path = .ok f.name) (st : Status) :
    (suite.verdict e index f.path s).1.status = st ↔ Fares suite e index f s st := by
  constructor
  · rintro rfl
    exact fares_verdict suite hu e s hname
  · intro h
    exact (fares_verdict suite hu e s hname).unique h

end Suite

end Baselines
