import Baselines.Selection
import Baselines.Proofs.Authoring.Request
import Mathlib.Data.List.Induction
import Mathlib.Data.List.Perm.Basic

/-!
# Selections built by calls

A selection is built call by call. Of several stages the last one counts, and so of several targets.
Of several patterns the last one with wildcards counts, though another one was given later; only
where no pattern has wildcards the last one counts. It makes no difference to this what wildcards
fit, and which of them can be read.
-/

namespace Baselines.Selection

/-! ## 1. Calls -/

/-- A call that gives a selection a pattern, a stage or a target. -/
inductive Call where
  | pattern (p : Text)
  | stage (x : Stage)
  | target (t : Target)

namespace Call

def pattern? : Call → Option Text
  | pattern p => some p
  | _ => none

def stage? : Call → Option Stage
  | stage x => some x
  | _ => none

def target? : Call → Option Target
  | target t => some t
  | _ => none

def wildcards? : Call → Option Text
  | pattern p => if hasWildcards p then some p else none
  | _ => none

end Call

variable {ε : Type}

/-- The selection after one more call, where `read` reads wildcards. -/
def call (read : Text → Except ε (Text → Bool)) (s : Selection) : Call → Except ε Selection
  | .pattern p => s.withPatternBy read p
  | .stage x => .ok (s.withStage x)
  | .target t => .ok (s.withTarget t)

/-- The selection that calls make of the one that covers everything. -/
def build (read : Text → Except ε (Text → Bool)) (calls : List Call) : Except ε Selection :=
  calls.foldlM (call read) {}

/-- The last setting of one kind. -/
def lastOf {α : Type} (kind : Call → Option α) (calls : List Call) : Option α :=
  (calls.filterMap kind).getLast?

/-- The pattern that counts: the last one with wildcards, or else the last one. -/
def inForce (calls : List Call) : Option Text :=
  (lastOf Call.wildcards? calls).or (lastOf Call.pattern? calls)

/-- Calls for at most one pattern, one stage and one target. -/
def callsFor (pattern : Option Text) (stage : Option Stage) (target : Option Target) : List Call :=
  (pattern.map Call.pattern).toList ++ (stage.map Call.stage).toList ++
    (target.map Call.target).toList

/-- The last call of each kind. -/
def latest (calls : List Call) : List Call :=
  callsFor (lastOf Call.pattern? calls) (lastOf Call.stage? calls) (lastOf Call.target? calls)

/-- Whether a pattern alone allows a path. -/
def allows (read : Text → Except ε (Text → Bool)) (p : Text) (relative : Path) : Bool :=
  if hasWildcards p then
    (read p).toOption.any fun fits => fits relative || (relative.fileName?).any fits
  else Text.hasPart p (slashed relative)

variable {read : Text → Except ε (Text → Bool)}
variable {calls : List Call} {s s' : Selection} {c : Call} {p : Text}

/-! ## 2. What calls leave behind -/

theorem withPatternBy_eq_ok (h : s.withPatternBy read p = .ok s') :
    (hasWildcards p = true ∧ ∃ g, read p = .ok g ∧
        s' = { s with pattern := some p, wildcards := some g }) ∨
      (hasWildcards p = false ∧ s' = { s with pattern := some p }) := by
  unfold withPatternBy at h
  split at h
  · next hw =>
    cases hg : read p with
    | error e =>
      rw [hg] at h
      cases h
    | ok g =>
      rw [hg] at h
      cases h
      exact .inl ⟨hw, g, rfl, rfl⟩
  · next hw =>
    cases h
    exact .inr ⟨by simpa using hw, rfl⟩

theorem lastOf_append {α : Type} (kind : Call → Option α) (calls : List Call) (c : Call) :
    lastOf kind (calls ++ [c]) = (kind c).or (lastOf kind calls) := by
  cases h : kind c <;> simp [lastOf, List.filterMap_append, h]

/-- What a selection holds after calls. -/
structure Holds (read : Text → Except ε (Text → Bool)) (calls : List Call) (s : Selection) :
    Prop where
  pattern : s.pattern = lastOf Call.pattern? calls
  stage : s.stage = lastOf Call.stage? calls
  target : s.target = lastOf Call.target? calls
  /-- The wildcards are those of the last pattern that has any. -/
  wildcards : (lastOf Call.wildcards? calls).map read = s.wildcards.map .ok

theorem holds_nil : Holds read [] {} := ⟨rfl, rfl, rfl, rfl⟩

theorem holds_call (hs : Holds read calls s) (h : s.call read c = .ok s') :
    Holds read (calls ++ [c]) s' := by
  cases c with
  | stage x =>
    cases h
    constructor <;> simp [lastOf_append, Call.pattern?, Call.stage?, Call.target?,
      Call.wildcards?, withStage, hs.pattern, hs.target, hs.wildcards]
  | target t =>
    cases h
    constructor <;> simp [lastOf_append, Call.pattern?, Call.stage?, Call.target?,
      Call.wildcards?, withTarget, hs.pattern, hs.stage, hs.wildcards]
  | pattern p =>
    obtain ⟨hw, g, hg, rfl⟩ | ⟨hw, rfl⟩ := withPatternBy_eq_ok h
    · constructor <;> simp [lastOf_append, Call.pattern?, Call.stage?, Call.target?,
        Call.wildcards?, hs.stage, hs.target, hw, hg]
    · constructor <;> simp [lastOf_append, Call.pattern?, Call.stage?, Call.target?,
        Call.wildcards?, hs.stage, hs.target, hs.wildcards, hw]

theorem bind_eq_ok {α β : Type} {x : Except ε α} {f : α → Except ε β} {b : β}
    (h : x >>= f = .ok b) : ∃ a, x = .ok a ∧ f a = .ok b := by
  cases x with
  | error e => cases h
  | ok a => exact ⟨a, rfl, h⟩

/-- A selection that was built holds the last setting of each kind. -/
theorem holds_build (h : build read calls = .ok s) : Holds read calls s := by
  induction calls using List.reverseRecOn generalizing s with
  | nil =>
    cases h
    exact holds_nil
  | append_singleton calls c ih =>
    rw [build, List.foldlM_append] at h
    obtain ⟨t, ht, hc⟩ := bind_eq_ok h
    refine holds_call (ih ht) ?_
    simpa using hc

/-- Whether the wildcards that a call gives can be read. -/
def Call.Readable (read : Text → Except ε (Text → Bool)) (c : Call) : Prop :=
  ∀ p ∈ c.wildcards?, ∃ g, read p = .ok g

theorem exists_call_iff : (∃ s', s.call read c = .ok s') ↔ c.Readable read := by
  cases c with
  | stage x => simp [call, Call.Readable, Call.wildcards?]
  | target t => simp [call, Call.Readable, Call.wildcards?]
  | pattern p =>
    by_cases hw : hasWildcards p = true
    · cases hg : read p <;>
        simp [call, withPatternBy, Call.Readable, Call.wildcards?, hw, hg, bind, Except.bind]
    · simp [call, withPatternBy, Call.Readable, Call.wildcards?, hw]

/-- Only wildcards that cannot be read keep calls from building a selection. -/
theorem exists_build_iff : (∃ s, build read calls = .ok s) ↔ ∀ c ∈ calls, c.Readable read := by
  suffices key : ∀ s : Selection,
      (∃ s', calls.foldlM (call read) s = .ok s') ↔ ∀ c ∈ calls, c.Readable read from key {}
  induction calls with
  | nil => simp [pure, Except.pure]
  | cons c calls ih =>
    intro s
    rw [List.foldlM_cons, List.forall_mem_cons, ← exists_call_iff (s := s)]
    constructor
    · rintro ⟨s', h⟩
      obtain ⟨t, ht, h⟩ := bind_eq_ok h
      exact ⟨⟨t, ht⟩, (ih t).1 ⟨s', h⟩⟩
    · rintro ⟨⟨t, ht⟩, h⟩
      obtain ⟨s', hs⟩ := (ih t).2 h
      exact ⟨s', by rw [ht]; exact hs⟩

/-! ## 3. What a built selection covers -/

theorem wildcards?_eq_some : c.wildcards? = some p ↔ c = .pattern p ∧ hasWildcards p = true := by
  cases c with
  | stage x => simp [Call.wildcards?]
  | target t => simp [Call.wildcards?]
  | pattern q =>
    by_cases hw : hasWildcards q = true
    · simp only [Call.wildcards?, hw, if_true, Option.some.injEq, Call.pattern.injEq]
      exact ⟨fun h => ⟨h, h ▸ hw⟩, fun h => h.1⟩
    · simp only [Call.wildcards?, hw, Call.pattern.injEq]
      constructor
      · intro h
        cases h
      · rintro ⟨rfl, h⟩
        exact absurd h hw

theorem pattern?_eq_some : c.pattern? = some p ↔ c = .pattern p := by
  cases c <;> simp [Call.pattern?]

theorem exists_of_lastOf {α : Type} {kind : Call → Option α} {a : α}
    (h : lastOf kind calls = some a) : ∃ c ∈ calls, kind c = some a :=
  List.mem_filterMap.1 (List.mem_of_getLast? h)

theorem lastOf_eq_none {α : Type} {kind : Call → Option α} :
    lastOf kind calls = none ↔ ∀ c ∈ calls, kind c = none := by
  rw [lastOf, List.getLast?_eq_none_iff, List.filterMap_eq_nil_iff]

theorem lastOf_pattern_ne_none {w : Text} (h : lastOf Call.wildcards? calls = some w) :
    ∃ p, lastOf Call.pattern? calls = some p := by
  obtain ⟨c, hc, he⟩ := exists_of_lastOf h
  obtain ⟨rfl, -⟩ := wildcards?_eq_some.1 he
  refine Option.ne_none_iff_exists'.1 fun hn => ?_
  simpa [Call.pattern?] using lastOf_eq_none.1 hn _ hc

/-- A selection allows the paths that the pattern in force allows. -/
theorem Holds.admitsPath (h : Holds read calls s) (relative : Path) :
    s.admitsPath relative = (inForce calls).all (allows read · relative) := by
  unfold Selection.admitsPath inForce
  have hg := h.wildcards
  cases hw : lastOf Call.wildcards? calls with
  | some w =>
    obtain ⟨c, hc, he⟩ := exists_of_lastOf hw
    obtain ⟨-, hw'⟩ := wildcards?_eq_some.1 he
    obtain ⟨p, hp⟩ := lastOf_pattern_ne_none hw
    obtain ⟨g, hs⟩ : ∃ g, s.wildcards = some g := by
      cases hs : s.wildcards with
      | none => simp [hw, hs] at hg
      | some g => exact ⟨g, rfl⟩
    have hgw : read w = .ok g := by simpa [hw, hs] using hg
    simp [h.pattern, hp, hs, allows, hw', hgw, Except.toOption]
  | none =>
    have hs : s.wildcards = none := by simpa [hw] using hg.symm
    cases hp : lastOf Call.pattern? calls with
    | none => simp [h.pattern, hp]
    | some p =>
      obtain ⟨c, hc, he⟩ := exists_of_lastOf hp
      rw [pattern?_eq_some.1 he] at hc
      have hn : hasWildcards p = false := by
        by_contra hw'
        have := lastOf_eq_none.1 hw _ hc
        simp [Call.wildcards?, hw'] at this
      simp [h.pattern, hp, hs, allows, hn]

/-- What calls come to: the pattern in force, the last stage and the last target. -/
theorem Holds.admits (h : Holds read calls s) (relative : Path) (name : Name) :
    s.admits relative name = ((inForce calls).all (allows read · relative) &&
      (lastOf Call.stage? calls).all (name.effectiveStage = ·) &&
      (Selection.admitsTarget { target := lastOf Call.target? calls } name)) := by
  rw [Selection.admits, h.admitsPath, admitsStage, h.stage, admitsTarget, h.target]
  rfl

-- A name of any stage and target.
theorem exists_admitted (stage : Option Stage) (target : Option Target) : ∃ name : Name,
    stage.all (name.effectiveStage = ·) = true ∧
      Selection.admitsTarget { target := target } name = true := by
  refine ⟨⟨[], (target.map fun t => ("target".toList, t.label)).toList, none, stage, []⟩, ?_, ?_⟩
  · cases stage <;> simp [Name.effectiveStage]
  · cases target with
    | none => rfl
    | some t =>
      have hsame : Text.sameAscii "target".toList "target".toList = true := by decide
      rw [admitsTarget, Name.target, Name.option?, Option.map_some, Option.toList_some,
        List.find?_cons_of_pos (by exact hsame)]
      simp [Authoring.parse?_label]

/-! ## 4. The last calls alone -/

section Latest

variable {cs : List Call} {pattern : Option Text} {stage : Option Stage} {target : Option Target}

-- Calls for at most one setting of a kind give it in any order.
theorem lastOf_of_perm {α : Type} {kind : Call → Option α} {a : Option α}
    (hp : cs.Perm (callsFor pattern stage target))
    (h : (callsFor pattern stage target).filterMap kind = a.toList) : lastOf kind cs = a := by
  have hp' := hp.filterMap kind
  rw [h] at hp'
  cases a with
  | none => simp [lastOf, List.perm_nil.1 hp']
  | some a => simp [lastOf, List.perm_singleton.1 hp']

theorem lastOf_pattern (hp : cs.Perm (callsFor pattern stage target)) :
    lastOf Call.pattern? cs = pattern :=
  lastOf_of_perm hp (by cases pattern <;> cases stage <;> cases target <;> rfl)

theorem lastOf_stage (hp : cs.Perm (callsFor pattern stage target)) :
    lastOf Call.stage? cs = stage :=
  lastOf_of_perm hp (by cases pattern <;> cases stage <;> cases target <;> rfl)

theorem lastOf_target (hp : cs.Perm (callsFor pattern stage target)) :
    lastOf Call.target? cs = target :=
  lastOf_of_perm hp (by cases pattern <;> cases stage <;> cases target <;> rfl)

/-- Of calls for one pattern this pattern is in force. -/
theorem inForce_of_perm (hp : cs.Perm (callsFor pattern stage target)) : inForce cs = pattern := by
  rw [inForce, lastOf_pattern hp]
  cases hw : lastOf Call.wildcards? cs with
  | none => rfl
  | some w =>
    obtain ⟨c, hc, he⟩ := exists_of_lastOf hw
    obtain ⟨rfl, -⟩ := wildcards?_eq_some.1 he
    have hm := hp.subset hc
    cases pattern <;> cases stage <;> cases target <;> simp_all [callsFor]

theorem mem_of_lastOf_pattern (h : lastOf Call.pattern? calls = some p) : .pattern p ∈ calls := by
  obtain ⟨c, hc, he⟩ := exists_of_lastOf h
  rwa [pattern?_eq_some.1 he] at hc

theorem mem_of_inForce (h : inForce calls = some p) : .pattern p ∈ calls := by
  rcases Option.or_eq_some_iff.1 h with hw | ⟨-, hp⟩
  · obtain ⟨c, hc, he⟩ := exists_of_lastOf hw
    rwa [(wildcards?_eq_some.1 he).1] at hc
  · exact mem_of_lastOf_pattern hp

/-- Calls with no pattern but one of those that have built a selection build one too. -/
theorem exists_build_of_perm (h : build read calls = .ok s)
    (hp : cs.Perm (callsFor pattern stage target))
    (hm : ∀ p, pattern = some p → .pattern p ∈ calls) : ∃ f, build read cs = .ok f := by
  have hr := exists_build_iff.1 ⟨s, h⟩
  refine exists_build_iff.2 fun c hc p hw => ?_
  obtain ⟨rfl, -⟩ := wildcards?_eq_some.1 hw
  refine hr (.pattern p) (hm p ?_) p hw
  have := hp.subset hc
  cases pattern <;> cases stage <;> cases target <;> simp_all [callsFor]

-- Without wildcards the pattern in force is the last one.
theorem inForce_agrees_iff :
    (∀ relative, (inForce calls).all (allows read · relative) =
        (lastOf Call.pattern? calls).all (allows read · relative)) ↔
      ∀ w p, lastOf Call.wildcards? calls = some w → lastOf Call.pattern? calls = some p →
        ∀ relative, allows read w relative = allows read p relative := by
  unfold inForce
  cases hw : lastOf Call.wildcards? calls with
  | none => simp
  | some w =>
    obtain ⟨p, hp⟩ := lastOf_pattern_ne_none hw
    simp [hp]

/-- A selection covers what the pattern in force, the last stage and the last target cover alone, in
whatever order they are given, and whatever wildcards are taken for. The last pattern, stage and
target alone cover the same exactly if the last wildcards, where there are any, allow the same paths
as the last pattern. -/
theorem admits_of_calls (h : build read calls = .ok s) :
    (∀ cs, cs.Perm (callsFor (inForce calls) (lastOf Call.stage? calls)
        (lastOf Call.target? calls)) →
      ∃ f, build read cs = .ok f ∧ ∀ relative name, s.admits relative name = f.admits relative name) ∧
    ∀ cs, cs.Perm (latest calls) →
      ∃ f, build read cs = .ok f ∧
        ((∀ relative name, s.admits relative name = f.admits relative name) ↔
          ∀ w p, lastOf Call.wildcards? calls = some w → lastOf Call.pattern? calls = some p →
            ∀ relative, allows read w relative = allows read p relative) := by
  have hs := holds_build h
  constructor
  · intro cs hp
    obtain ⟨f, hf⟩ := exists_build_of_perm h hp fun p => mem_of_inForce
    refine ⟨f, hf, fun relative name => ?_⟩
    rw [hs.admits, (holds_build hf).admits, inForce_of_perm hp, lastOf_stage hp, lastOf_target hp]
  · intro cs hp
    obtain ⟨f, hf⟩ := exists_build_of_perm h hp fun p => mem_of_lastOf_pattern
    refine ⟨f, hf, ?_⟩
    rw [← inForce_agrees_iff]
    simp only [hs.admits, (holds_build hf).admits, inForce_of_perm hp, lastOf_stage hp,
      lastOf_target hp]
    constructor
    · intro he relative
      obtain ⟨name, hstage, htarget⟩ :=
        exists_admitted (lastOf Call.stage? calls) (lastOf Call.target? calls)
      simpa [hstage, htarget] using he relative name
    · intro he relative name
      rw [he]

-- Wildcards that come last count, whatever pattern was given before.
theorem admits_of_calls_wild :
    let calls : List Call := [.pattern "zz", .stage .minified, .pattern "?.js", .stage .normal]
    ∃ s, build wildcardsOf calls = .ok s ∧
      ∃ f, build wildcardsOf [.stage .normal, .pattern "?.js"] = .ok f ∧
        ∀ relative name, s.admits relative name = f.admits relative name := by
  intro calls
  have hb : (build wildcardsOf calls).toBool = true := by decide +kernel
  cases h : build wildcardsOf calls with
  | error e => simp [h, Except.toBool] at hb
  | ok s =>
    obtain ⟨f, hf, he⟩ := (admits_of_calls h).2 [.stage .normal, .pattern "?.js"]
      (List.Perm.swap _ _ _)
    refine ⟨s, rfl, f, hf, he.2 fun w p hw hp relative => ?_⟩
    have hsame : lastOf Call.wildcards? calls = lastOf Call.pattern? calls := by decide +kernel
    rw [hsame, hp] at hw
    rw [Option.some.inj hw]

/-- The wildcards of an earlier pattern stay when a pattern without any takes its place: the
selection still covers a path of which the last pattern is no part. -/
theorem admits_replaced : ¬ ∀ (calls : List Call) (s f : Selection),
    build wildcardsOf calls = .ok s → build wildcardsOf (latest calls) = .ok f →
    ∀ relative name, s.admits relative name = f.admits relative name := by
  intro h
  let s : Selection := { pattern := some "zz".toList, wildcards := some (Glob.fits [.anyRun]) }
  let f : Selection := { pattern := some "zz".toList }
  have he := h [.pattern "*", .pattern "zz"] s f rfl rfl "a.js" ⟨"a", [], none, none, "js"⟩
  exact absurd he (by decide +kernel)

end Latest

end Baselines.Selection
