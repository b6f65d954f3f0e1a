import Baselines.Proofs.Authoring.Request
import Mathlib.Algebra.BigOperators.Group.List.Basic
import Mathlib.Data.List.Forall2
import Mathlib.Data.List.GetD

/-!
# Configurations as a product

The configurations of a test source are every choice of one value for each key that has any. A choice
is told by the places of its values; the choices come in the order of their places, the last key
varying fastest. What the configurations say of the target is what is declared of it.
-/

namespace Baselines.Directives

open Text

/-! ## 1. Choices -/

/-- The keys that list values, each with these values. -/
def offers (entries : List (Text × Text)) : List (Text × List Text) :=
  (entries.map fun e => (e.1, listed e.2)).filter (·.2 ≠ [])

/-- Whether places choose one of the values of each key. -/
abbrev Fits (places : List Nat) (os : List (Text × List Text)) : Prop :=
  List.Forall₂ (fun i o => i < o.2.length) places os

/-- The configuration that takes the values at the places. -/
def pick (os : List (Text × List Text)) (places : List Nat) : Table Text :=
  List.zipWith (fun o i => (o.1, o.2.getD i [])) os places

/-- The places of every choice, the last one varying fastest. -/
def choices : List (Text × List Text) → List (List Nat)
  | [] => [[]]
  | o :: os => (List.range o.2.length).flatMap fun i => (choices os).map (i :: ·)

variable {os : List (Text × List Text)} {o : Text × List Text} {places : List Nat}
  {entries : List (Text × Text)} {entry : Text × Text} {key value : Text}

/-- The choices are the places that fit what is offered. -/
theorem mem_choices : places ∈ choices os ↔ Fits places os := by
  induction os generalizing places with
  | nil => simp [choices]
  | cons o os ih =>
    simp only [choices, List.mem_flatMap, List.mem_range, List.mem_map, ih]
    constructor
    · rintro ⟨i, hi, is, his, rfl⟩
      exact List.Forall₂.cons hi his
    · rintro (_ | ⟨hi, his⟩)
      exact ⟨_, hi, _, his, rfl⟩

/-- The choices come in the order of their places. -/
theorem pairwise_choices (os : List (Text × List Text)) : (choices os).Pairwise (· < ·) := by
  induction os with
  | nil => exact List.pairwise_singleton _ _
  | cons o os ih =>
    rw [choices, List.pairwise_flatMap]
    constructor
    · intro i _
      exact List.pairwise_map.2 (ih.imp fun h => List.cons_lt_cons_iff.2 (Or.inr ⟨rfl, h⟩))
    · refine List.pairwise_lt_range.imp ?_
      intro i j hij p hp q hq
      obtain ⟨p, -, rfl⟩ := List.mem_map.1 hp
      obtain ⟨q, -, rfl⟩ := List.mem_map.1 hq
      exact List.cons_lt_cons_iff.2 (Or.inl hij)

/-- There are as many choices as the product of the numbers of values. -/
theorem length_choices (os : List (Text × List Text)) :
    (choices os).length = (os.map (·.2.length)).prod := by
  induction os with
  | nil => rfl
  | cons o os ih => simp [choices, List.length_flatMap, ih]

/-- A key without values offers nothing. -/
theorem offers_cons_empty (h : listed entry.2 = []) (entries : List (Text × Text)) :
    offers (entry :: entries) = offers entries := by simp [offers, h]

/-- A key with values offers them. -/
theorem offers_cons (h : listed entry.2 ≠ []) (entries : List (Text × Text)) :
    offers (entry :: entries) = (entry.1, listed entry.2) :: offers entries := by
  simp [offers, h]

/-- What is offered is listed under a key, and is not empty. -/
theorem mem_offers : o ∈ offers entries ↔
    o.2 ≠ [] ∧ ∃ raw, (o.1, raw) ∈ entries ∧ listed raw = o.2 := by
  unfold offers
  rw [List.mem_filter, decide_eq_true_eq, List.mem_map, and_comm]
  refine and_congr_right fun _ => ⟨?_, ?_⟩
  · rintro ⟨e, he, rfl⟩
    exact ⟨e.2, he, rfl⟩
  · rintro ⟨raw, hr, hl⟩
    exact ⟨(o.1, raw), hr, by rw [hl]⟩

theorem forall_offers (entries : List (Text × Text)) : ∀ o ∈ offers entries, o.2 ≠ [] :=
  fun _ ho => (mem_offers.1 ho).1

-- A key without values counts once.
theorem prod_offers (entries : List (Text × Text)) :
    ((offers entries).map (·.2.length)).prod =
      (entries.map fun e => max 1 (listed e.2).length).prod := by
  induction entries with
  | nil => rfl
  | cons e r ih =>
    by_cases hl : listed e.2 = []
    · rw [offers_cons_empty hl, List.map_cons, List.prod_cons, hl, ih]
      simp
    · have hpos : 1 ≤ (listed e.2).length := List.length_pos_iff.2 hl
      rw [offers_cons hl, List.map_cons, List.map_cons, List.prod_cons, List.prod_cons, ih,
        Nat.max_eq_right hpos]

/-! ## 2. The configurations -/

/-- A choice for several keys takes the value of the first and chooses for the others. -/
theorem pick_cons (o : Text × List Text) (os : List (Text × List Text)) (i : Nat)
    (is : List Nat) : pick (o :: os) (i :: is) = (o.1, o.2.getD i []) :: pick os is := rfl

-- Going through values is going through their places.
theorem map_eq_range {β : Type} (f : Text → β) (vs : List Text) :
    vs.map f = (List.range vs.length).map fun i => f (vs.getD i []) := by
  apply List.ext_getElem
  · simp
  · intro i h _
    have hi : i < vs.length := by simpa using h
    simp [List.getElem?_eq_getElem hi]

-- What a key that stands behind all others makes of configurations.
theorem extend_of_precedes {configs : List (Table Text)}
    (hc : ∀ c ∈ configs, ∀ e ∈ c, Precedes e.1 entry.1) (hl : listed entry.2 ≠ []) :
    extend configs entry =
      configs.flatMap fun c => (List.range (listed entry.2).length).map fun i =>
        c ++ [(entry.1, (listed entry.2).getD i [])] := by
  have hinsert : extend configs entry =
      configs.flatMap fun c => (listed entry.2).map fun v => c.insert entry.1 v := by
    unfold extend
    cases h : listed entry.2 with
    | nil => exact absurd h hl
    | cons v vs => rfl
  rw [hinsert]
  apply List.flatMap_congr
  intro c hm
  rw [← map_eq_range fun v => c ++ [(entry.1, v)]]
  exact List.map_congr_left fun v _ => Table.insert_of_precedes (hc c hm) v

/-- Going through keys in order extends each configuration by every choice for them. -/
theorem foldl_extend (hs : Table.Sorted entries) {configs : List (Table Text)}
    (hc : ∀ c ∈ configs, ∀ e ∈ c, ∀ entry ∈ entries, Precedes e.1 entry.1) :
    entries.foldl extend configs =
      configs.flatMap fun c => (choices (offers entries)).map fun is =>
        c ++ pick (offers entries) is := by
  induction entries generalizing configs with
  | nil => simp [offers, choices, pick]
  | cons entry r ih =>
    obtain ⟨hfirst, hr⟩ := List.pairwise_cons.1 hs
    rw [List.foldl_cons]
    by_cases hl : listed entry.2 = []
    · have he : extend configs entry = configs := by
        unfold extend
        rw [hl]
      rw [he, offers_cons_empty hl]
      exact ih hr fun c hm e hem x hx => hc c hm e hem x (List.mem_cons_of_mem _ hx)
    · have he := extend_of_precedes
        (fun c hm e hem => hc c hm e hem entry List.mem_cons_self) hl
      have hnext : ∀ c ∈ extend configs entry, ∀ e ∈ c, ∀ x ∈ r, Precedes e.1 x.1 := by
        intro c hm e hem x hx
        rw [he, List.mem_flatMap] at hm
        obtain ⟨c', hc', hm⟩ := hm
        obtain ⟨i, -, rfl⟩ := List.mem_map.1 hm
        rcases List.mem_append.1 hem with hem | hem
        · exact hc c' hc' e hem x (List.mem_cons_of_mem _ hx)
        · rw [List.mem_singleton.1 hem]
          exact hfirst x hx
      rw [ih hr hnext, he, offers_cons hl, List.flatMap_assoc]
      apply List.flatMap_congr
      intro c _
      simp only [choices, List.flatMap_map, List.map_flatMap, List.map_map, Function.comp_def,
        pick_cons, List.append_assoc, List.singleton_append]

/-- The configurations are picked by the choices, in their order. -/
theorem configurations_eq {d : Directives} (h : Table.Sorted d.options) :
    d.configurations = (choices (offers d.options)).map (pick (offers d.options)) := by
  have hempty : ∀ c ∈ ([[]] : List (Table Text)), ∀ e ∈ c, ∀ entry ∈ d.options,
      Precedes e.1 entry.1 := by
    intro c hm e he
    rw [List.mem_singleton.1 hm] at he
    exact absurd he List.not_mem_nil
  rw [configurations, foldl_extend h hempty]
  simp

/-! ## 3. One configuration -/

/-- A choice has the keys that are offered, in their order. -/
theorem keys_pick (h : Fits places os) : Table.keys (pick os places) = os.map (·.1) := by
  induction h with
  | nil => rfl
  | cons _ _ ih => simpa [pick, Table.keys] using ih

/-- What a choice takes for a key is one of its values. -/
theorem mem_pick (h : Fits places os) (hm : (key, value) ∈ pick os places) :
    ∃ o ∈ os, o.1 = key ∧ value ∈ o.2 := by
  induction h with
  | nil => exact absurd hm List.not_mem_nil
  | @cons i o is os hi _ ih =>
    rw [pick_cons, List.mem_cons] at hm
    rcases hm with hm | hm
    · obtain ⟨rfl, rfl⟩ := Prod.mk.inj hm
      refine ⟨o, List.mem_cons_self, rfl, ?_⟩
      rw [List.getD_eq_getElem _ _ hi]
      exact List.getElem_mem hi
    · obtain ⟨o', ho', hk⟩ := ih hm
      exact ⟨o', List.mem_cons_of_mem o ho', hk⟩

/-- Where every key lists values there is a choice. -/
theorem exists_fits (h : ∀ o ∈ os, o.2 ≠ []) : ∃ places, Fits places os := by
  induction os with
  | nil => exact ⟨[], List.Forall₂.nil⟩
  | cons o os ih =>
    obtain ⟨is, his⟩ := ih fun o' ho' => h o' (List.mem_cons_of_mem o ho')
    exact ⟨0 :: is, List.Forall₂.cons (List.length_pos_iff.2 (h o List.mem_cons_self)) his⟩

/-- Every value that a key lists is chosen for it once. -/
theorem exists_pick (h : ∀ o ∈ os, o.2 ≠ []) (ho : o ∈ os) (hv : value ∈ o.2) :
    ∃ places, Fits places os ∧ (o.1, value) ∈ pick os places := by
  induction os with
  | nil => exact absurd ho List.not_mem_nil
  | cons x os ih =>
    have hr : ∀ o' ∈ os, o'.2 ≠ [] := fun o' ho' => h o' (List.mem_cons_of_mem x ho')
    rcases List.mem_cons.1 ho with rfl | ho
    · obtain ⟨i, hi, rfl⟩ := List.getElem_of_mem hv
      obtain ⟨is, his⟩ := exists_fits hr
      refine ⟨i :: is, List.Forall₂.cons hi his, ?_⟩
      rw [pick_cons, List.getD_eq_getElem _ _ hi]
      exact List.mem_cons_self
    · obtain ⟨is, his, hm⟩ := ih hr ho
      refine ⟨0 :: is, List.Forall₂.cons (List.length_pos_iff.2 (h x List.mem_cons_self)) his, ?_⟩
      rw [pick_cons]
      exact List.mem_cons_of_mem _ hm

/-- The keys that are offered are those that list values. -/
theorem keys_offers (entries : List (Text × Text)) :
    (offers entries).map (·.1) = (entries.filter fun e => listed e.2 ≠ []).map (·.1) := by
  simp [offers, List.filter_map, Function.comp_def]

/-- A configuration is what some choice picks. -/
theorem mem_configurations {d : Directives} (h : Table.Sorted d.options) {c : Table Text} :
    c ∈ d.configurations ↔
      ∃ places, Fits places (offers d.options) ∧ c = pick (offers d.options) places := by
  rw [configurations_eq h, List.mem_map]
  simp only [mem_choices, eq_comm]

/-- A configuration has one value for each key that lists any, and is sorted as the keys are. -/
theorem keys_of_mem_configurations {d : Directives} (h : Table.Sorted d.options) {c : Table Text}
    (hc : c ∈ d.configurations) :
    Table.keys c = (d.options.filter fun e => listed e.2 ≠ []).map (·.1) := by
  obtain ⟨places, hp, rfl⟩ := (mem_configurations h).1 hc
  rw [keys_pick hp, keys_offers]

/-- A configuration is sorted by its keys, as the directives are. -/
theorem sorted_of_mem_configurations {d : Directives} (h : Table.Sorted d.options) {c : Table Text}
    (hc : c ∈ d.configurations) : Table.Sorted c := by
  have hk : (Table.keys c).Pairwise Precedes := by
    rw [keys_of_mem_configurations h hc]
    exact List.pairwise_map.2 (h.filter _)
  exact List.pairwise_map.1 hk

variable {d : Directives} {c : Table Text}

-- What a key offers is what is declared under it.
theorem mem_offers_values (h : Table.Sorted d.options) (hk : lower key = key) {vs : List Text} :
    (key, vs) ∈ offers d.options ↔ vs ≠ [] ∧ d.values key = vs := by
  rw [mem_offers, values, get?, hk]
  refine and_congr_right fun hne => ⟨?_, fun hv => ?_⟩
  · rintro ⟨raw, hr, hl⟩
    rw [h.get?_eq_some_iff.2 hr]
    exact hl
  · cases hg : d.options.get? key with
    | none =>
      rw [hg] at hv
      exact absurd hv.symm hne
    | some raw =>
      rw [hg] at hv
      exact ⟨raw, Table.mem_of_get? hg, hv⟩

/-- A configuration has one of the values that are declared under a key, and none where none is
declared. -/
theorem get?_of_mem_configurations (h : Table.Sorted d.options) (hk : lower key = key)
    (hc : c ∈ d.configurations) :
    (∃ v ∈ d.values key, c.get? key = some v) ∨ (d.values key = [] ∧ c.get? key = none) := by
  obtain ⟨places, hp, rfl⟩ := (mem_configurations h).1 hc
  cases hg : Table.get? (pick (offers d.options) places) key with
  | some v =>
    obtain ⟨⟨k, vs⟩, ho, rfl, hv⟩ := mem_pick hp (Table.mem_of_get? hg)
    rw [← ((mem_offers_values h hk).1 ho).2] at hv
    exact Or.inl ⟨v, hv, rfl⟩
  | none =>
    refine Or.inr ⟨?_, rfl⟩
    by_contra hne
    have ho : (key, d.values key) ∈ offers d.options := (mem_offers_values h hk).2 ⟨hne, rfl⟩
    have hmem : key ∈ Table.keys (pick (offers d.options) places) := by
      rw [keys_pick hp]
      exact List.mem_map_of_mem ho
    obtain ⟨v, hv⟩ := Table.mem_keys.1 hmem
    rw [(sorted_of_mem_configurations h hc).get?_eq_some_iff.2 hv] at hg
    exact absurd hg (by simp)

/-- Every value that is declared under a key is that of a configuration. -/
theorem exists_configuration (h : Table.Sorted d.options) (hk : lower key = key)
    (hv : value ∈ d.values key) : ∃ c ∈ d.configurations, c.get? key = some value := by
  have ho : (key, d.values key) ∈ offers d.options :=
    (mem_offers_values h hk).2 ⟨List.ne_nil_of_mem hv, rfl⟩
  obtain ⟨places, hp, hm⟩ := exists_pick (forall_offers d.options) ho hv
  have hc : pick (offers d.options) places ∈ d.configurations :=
    (mem_configurations h).2 ⟨places, hp, rfl⟩
  exact ⟨_, hc, (sorted_of_mem_configurations h hc).get?_eq_some_iff.2 hm⟩

/-- Every source has a configuration, be it the empty one. -/
theorem configurations_ne_nil (h : Table.Sorted d.options) : d.configurations ≠ [] := by
  obtain ⟨places, hp⟩ := exists_fits (forall_offers d.options)
  exact List.ne_nil_of_mem ((mem_configurations h).2 ⟨places, hp, rfl⟩)

/-! ## 4. Targets -/

/-- Whether a configuration is for a target: the one that its value names, or the fallback where it
has no value. -/
def IsFor (c : Table Text) (t : Target) : Prop :=
  match c.get? "target" with
  | some value => Target.parse? value = some t
  | none => t = .fallback

/-- A configuration with a value for the target is for what the value names. -/
theorem isFor_of_some (h : c.get? "target" = some value) {t : Target} :
    IsFor c t ↔ Target.parse? value = some t := by
  unfold IsFor
  rw [h]

/-- A configuration without a value for the target is for the fallback. -/
theorem isFor_of_none (h : c.get? "target" = none) {t : Target} : IsFor c t ↔ t = .fallback := by
  unfold IsFor
  rw [h]

-- Targets that are read are those that the values name.
theorem map_parse?_of_readTargets {vs : List Text} {ts : List Target}
    (h : readTargets vs = .ok ts) : vs.map Target.parse? = ts.map some := by
  induction vs generalizing ts with
  | nil =>
    obtain rfl : [] = ts := Except.ok.inj h
    rfl
  | cons v vs ih =>
    cases hv : Target.parse? v with
    | none => simp [readTargets, hv] at h
    | some t =>
      cases hr : readTargets vs with
      | error e => simp [readTargets, hv, hr, Except.map] at h
      | ok us =>
        obtain rfl : t :: us = ts := by simpa [readTargets, hv, hr, Except.map] using h
        rw [List.map_cons, List.map_cons, hv, ih hr]

theorem lower_target : lower "target" = "target".toList := isKey_target.lower

variable {ts : List Target}

-- Where values are declared, they are read one by one.
theorem map_parse?_of_targets (hv : d.values "target" ≠ []) (ht : d.targets = .ok ts) :
    (d.values "target").map Target.parse? = ts.map some := by
  unfold targets at ht
  split at ht
  · rename_i he
    exact absurd he hv
  · exact map_parse?_of_readTargets ht

/-- A configuration is for the target that is taken from it, when its value names one. -/
theorem isFor_targetOf (h : ∀ v, c.get? "target" = some v → Target.parse? v ≠ none) :
    IsFor c (Authoring.targetOf c) := by
  cases hg : c.get? "target" with
  | none =>
    rw [isFor_of_none hg, Authoring.targetOf, hg]
    rfl
  | some v =>
    obtain ⟨t, ht⟩ := Option.ne_none_iff_exists'.1 (h v hg)
    rw [isFor_of_some hg, Authoring.targetOf, hg, Option.bind_some, ht, Option.getD_some]

/-- Where targets are read, every value that a configuration has for the target names one. -/
theorem parse?_ne_none (h : Table.Sorted d.options) (ht : d.targets = .ok ts)
    (hc : c ∈ d.configurations) (hg : c.get? "target" = some value) :
    Target.parse? value ≠ none := by
  rcases get?_of_mem_configurations h lower_target hc with ⟨v, hm, hv⟩ | ⟨-, hn⟩
  · obtain rfl : v = value := Option.some.inj (hv.symm.trans hg)
    have hs : Target.parse? v ∈ ts.map some := by
      rw [← map_parse?_of_targets (List.ne_nil_of_mem hm) ht]
      exact List.mem_map_of_mem hm
    obtain ⟨t, -, hp⟩ := List.mem_map.1 hs
    rw [← hp]
    exact Option.some_ne_none t
  · rw [hn] at hg
    exact absurd hg (by simp)

/-- The targets that are declared are those of the configurations. -/
theorem mem_targets (h : Table.Sorted d.options) (ht : d.targets = .ok ts) (t : Target) :
    t ∈ ts ↔ ∃ c ∈ d.configurations, IsFor c t := by
  by_cases hv : d.values "target" = []
  · have hts : ts = [.fallback] := by
      rw [targets, hv, Except.ok.injEq] at ht
      exact ht.symm
    have hnone : ∀ c ∈ d.configurations, c.get? "target" = none := by
      intro c hc
      rcases get?_of_mem_configurations h lower_target hc with ⟨v, hm, -⟩ | ⟨-, hg⟩
      · rw [hv] at hm
        exact absurd hm List.not_mem_nil
      · exact hg
    rw [hts, List.mem_singleton]
    constructor
    · intro he
      obtain ⟨c, hc⟩ := List.exists_mem_of_ne_nil _ (configurations_ne_nil h)
      exact ⟨c, hc, (isFor_of_none (hnone c hc)).2 he⟩
    · rintro ⟨c, hc, hf⟩
      exact (isFor_of_none (hnone c hc)).1 hf
  · have hmem : t ∈ ts ↔ ∃ v ∈ d.values "target", Target.parse? v = some t := by
      rw [← List.mem_map, map_parse?_of_targets hv ht, List.mem_map]
      simp
    rw [hmem]
    constructor
    · rintro ⟨v, hm, hp⟩
      obtain ⟨c, hc, hg⟩ := exists_configuration h lower_target hm
      exact ⟨c, hc, (isFor_of_some hg).2 hp⟩
    · rintro ⟨c, hc, hf⟩
      rcases get?_of_mem_configurations h lower_target hc with ⟨v, hm, hg⟩ | ⟨hn, -⟩
      · exact ⟨v, hm, (isFor_of_some hg).1 hf⟩
      · exact absurd hn hv

/-! ## 5. The product -/

/-- The configurations are picked by all choices of one value for each key that lists any, in the
order of the places of the values with the last key varying fastest. Each has exactly these keys,
there are as many as the product of the numbers of values, and they are for the targets that are
declared: where any is, every configuration has a value for the target, and it names one. -/
theorem configurations_product (h : Table.Sorted d.options) :
    (∃ all : List (List Nat), all.Pairwise (· < ·) ∧
        (∀ places, places ∈ all ↔ Fits places (offers d.options)) ∧
        d.configurations = all.map (pick (offers d.options))) ∧
      d.configurations.length = (d.options.map fun e => max 1 (listed e.2).length).prod ∧
      (∀ c ∈ d.configurations,
        Table.keys c = (d.options.filter fun e => listed e.2 ≠ []).map (·.1)) ∧
      ∀ ts, d.targets = .ok ts →
        (∀ t, t ∈ ts ↔ ∃ c ∈ d.configurations, IsFor c t) ∧
        (∀ c ∈ d.configurations, IsFor c (Authoring.targetOf c)) ∧
        (d.values "target" ≠ [] → ∀ c ∈ d.configurations, c.get? "target" ≠ none) := by
  refine ⟨⟨_, pairwise_choices _, fun _ => mem_choices, configurations_eq h⟩, ?_,
    fun c hc => keys_of_mem_configurations h hc, fun ts ht => ?_⟩
  · rw [configurations_eq h, List.length_map, length_choices, prod_offers]
  · refine ⟨mem_targets h ht, fun c hc => isFor_targetOf fun v hg => parse?_ne_none h ht hc hg,
      fun hne c hc hn => ?_⟩
    rcases get?_of_mem_configurations h lower_target hc with ⟨v, -, hg⟩ | ⟨hv, -⟩
    · rw [hg] at hn
      exact absurd hn (by simp)
    · exact hne hv

-- A source that lists a target under two spellings, and a key without values.
def spelled : Directives := parse "// @Target: es6, ES5,, es2015\n// @a: x, y\n// @b: ,\n"

/-- Two spellings of one target make configurations of their own, and a key without values is left
out of them. -/
theorem configurations_product_spelled : Table.Sorted spelled.options ∧
    spelled.targets = .ok [.es2015, .es5, .es2015] ∧ spelled.configurations.length = 6 ∧
    (∀ t, t ∈ [Target.es2015, .es5, .es2015] ↔ ∃ c ∈ spelled.configurations, IsFor c t) ∧
    ∀ c ∈ spelled.configurations, Table.keys c = ["a".toList, "target"] := by
  have hs : Table.Sorted spelled.options := (wellKeyed_parse _).sorted
  have ht : spelled.targets = .ok [.es2015, .es5, .es2015] := by decide +kernel
  obtain ⟨-, hlength, hkeys, htargets⟩ := configurations_product hs
  refine ⟨hs, ht, hlength.trans (by decide +kernel), (htargets _ ht).1, fun c hc => ?_⟩
  rw [hkeys c hc]
  decide +kernel

end Baselines.Directives
