import Baselines.Emitter.Command
import Baselines.Proofs.Text.Parts
import Mathlib.Data.List.Nodup

/-!
# Slots in templates

What a template is when all its slots are replaced by their values at once, and when the replacement of
one slot more comes to the same.
-/

namespace Baselines.Command

open Text

variable {ss before : List (Text × Text)} {s : Text × Text} {k k' a t u : Text}

/-! ## 1. Slots -/

/-- A name in braces that has no brace itself. -/
def IsSlot (k : Text) : Prop := ∃ name, k = slot name ∧ '{' ∉ name ∧ '}' ∉ name

namespace IsSlot

theorem ne_nil (h : IsSlot k) : k ≠ [] := by
  obtain ⟨name, rfl, -, -⟩ := h
  simp [slot]

theorem exists_open (h : IsSlot k) : ∃ b, k = '{' :: b ∧ '{' ∉ b := by
  obtain ⟨name, rfl, hopen, -⟩ := h
  exact ⟨name ++ ['}'], rfl, by simp [hopen]⟩

theorem close_mem (h : IsSlot k) : '}' ∈ k := by
  obtain ⟨name, rfl, -, -⟩ := h
  simp [slot]

-- A slot opens at its start only.
theorem open_not_mem {b : Text} (h : IsSlot (a ++ b)) (ha : a ≠ []) : '{' ∉ b := by
  obtain ⟨name, he, hopen, -⟩ := h
  obtain ⟨x, a, rfl⟩ := List.exists_cons_of_ne_nil ha
  have hb : a ++ b = name ++ ['}'] := (List.cons.inj he).2
  intro hmem
  have : '{' ∈ name ++ ['}'] := hb ▸ List.mem_append_right a hmem
  simp [hopen] at this

-- A slot closes at its end only.
theorem close_not_mem {b : Text} (h : IsSlot (a ++ b)) (hb : b ≠ []) : '}' ∉ a := by
  obtain ⟨name, he, -, hclose⟩ := h
  obtain ⟨b, x, rfl⟩ : ∃ b' x, b = b' ++ [x] := ⟨_, _, (List.dropLast_concat_getLast hb).symm⟩
  rw [← List.append_assoc] at he
  have ha : a ++ b = '{' :: name := List.append_inj_left' he rfl
  intro hmem
  have : '}' ∈ '{' :: name := ha ▸ List.mem_append_left b hmem
  simp [hclose] at this

theorem eq_of_leads (h : IsSlot k) (h' : IsSlot k') (hk : k <+: t) (hk' : k' <+: t) : k = k' := by
  rcases List.prefix_or_prefix_of_prefix hk hk' with ⟨b, rfl⟩ | ⟨b, rfl⟩
  · by_cases hb : b = []
    · rw [hb, List.append_nil]
    · exact absurd h.close_mem (h'.close_not_mem hb)
  · by_cases hb : b = []
    · rw [hb, List.append_nil]
    · exact absurd h'.close_mem (h.close_not_mem hb)

end IsSlot

/-- A text begins at a place within `a`, when `t` comes after `a`. -/
def Begins (k a t : Text) : Prop := ∃ w, w ≠ [] ∧ w <:+ a ∧ k <+: w ++ t

theorem begins_cons {x : Char} : Begins k (x :: a) t ↔ k <+: x :: (a ++ t) ∨ Begins k a t := by
  constructor
  · rintro ⟨w, hw, hs, hk⟩
    rcases List.suffix_cons_iff.1 hs with rfl | hs
    · exact .inl hk
    · exact .inr ⟨w, hw, hs, hk⟩
  · rintro (hk | ⟨w, hw, hs, hk⟩)
    · exact ⟨x :: a, by simp, List.suffix_rfl, hk⟩
    · exact ⟨w, hw, List.suffix_cons_iff.2 (.inr hs), hk⟩

namespace IsSlot

/-- A slot does not begin in a text that opens none. -/
theorem not_begins_of_open (hk : IsSlot k) (ha : '{' ∉ a) : ¬ Begins k a t := by
  rintro ⟨w, hw, hs, hp⟩
  obtain ⟨b, rfl, -⟩ := hk.exists_open
  obtain ⟨x, w, rfl⟩ := List.exists_cons_of_ne_nil hw
  have hx : '{' = x := (List.cons_prefix_cons.1 hp).1
  exact ha (hs.subset (hx ▸ List.mem_cons_self))

/-- A slot does not begin in another. -/
theorem not_begins_of_ne (hk : IsSlot k) (hk' : IsSlot k') (hne : k ≠ k') : ¬ Begins k k' t := by
  obtain ⟨b, rfl, hopen⟩ := hk'.exists_open
  rw [begins_cons]
  rintro (hp | hb)
  · exact hne (hk.eq_of_leads hk' hp (List.prefix_append _ t))
  · exact hk.not_begins_of_open hopen hb

-- What opens in `a` is not closed before the next slot opens.
theorem not_begins_of_close (hk : IsSlot k) (hk' : IsSlot k') (ha : '}' ∉ a) :
    ¬ Begins k a (k' ++ t) := by
  rintro ⟨w, hw, hs, hp⟩
  rcases List.prefix_or_prefix_of_prefix hp (List.prefix_append w _) with hkw | ⟨d, rfl⟩
  · exact ha (hs.subset (hkw.subset hk.close_mem))
  · obtain ⟨b, rfl, -⟩ := hk'.exists_open
    cases d with
    | nil => exact ha (hs.subset (by simpa using hk.close_mem))
    | cons y d =>
      have hy : y = '{' := (List.cons_prefix_cons.1 ((List.prefix_append_right_inj w).1 hp)).1
      exact hk.open_not_mem hw (by simp [hy])

end IsSlot

/-- How often a text begins in another. -/
def occurrences (k : Text) : Text → Nat
  | [] => 0
  | x :: t => (if k <+: x :: t then 1 else 0) + occurrences k t

theorem occurrences_cons {x : Char} (h : ¬ k <+: x :: t) :
    occurrences k (x :: t) = occurrences k t := by
  rw [occurrences, if_neg h, Nat.zero_add]

/-- A text in which a slot does not begin adds none to what stands behind it. -/
theorem occurrences_append (h : ¬ Begins k a t) : occurrences k (a ++ t) = occurrences k t := by
  induction a with
  | nil => rfl
  | cons x a ih =>
    rw [begins_cons, not_or] at h
    rw [List.cons_append, occurrences_cons h.1, ih h.2]

theorem le_occurrences_append (k a t : Text) : occurrences k t ≤ occurrences k (a ++ t) := by
  induction a with
  | nil => exact Nat.le_refl _
  | cons x a ih => exact Nat.le_trans ih (Nat.le_add_left _ _)

/-- A slot stands once more behind itself. -/
theorem occurrences_self (hk : IsSlot k) (t : Text) :
    occurrences k (k ++ t) = 1 + occurrences k t := by
  obtain ⟨b, rfl, hopen⟩ := hk.exists_open
  have hp : '{' :: b <+: '{' :: (b ++ t) := List.prefix_append ('{' :: b) t
  rw [List.cons_append, occurrences, if_pos hp, occurrences_append (hk.not_begins_of_open hopen)]

/-- A slot that never stands in a text is no part of it. -/
theorem occurrences_eq_zero_iff (hk : k ≠ []) : occurrences k t = 0 ↔ ¬ k <:+: t := by
  induction t with
  | nil => simpa [occurrences] using hk
  | cons x t ih =>
    rw [occurrences, List.infix_cons_iff, not_or, ← ih]
    by_cases hp : k <+: x :: t
    · simp [hp]
    · simp [hp]

/-! ## 2. Slots filled at once -/

/-- One text is another with all its slots replaced by their values, the rest of it being copied. -/
inductive Expands (ss : List (Text × Text)) : Text → Text → Prop
  | nil : Expands ss [] []
  | slot {s : Text × Text} {t u : Text} :
    s ∈ ss → Expands ss t u → Expands ss (s.1 ++ t) (s.2 ++ u)
  | copy {x : Char} {t u : Text} :
    (∀ s ∈ ss, ¬ s.1 <+: x :: t) → Expands ss t u → Expands ss (x :: t) (x :: u)

/-- Slots with their values, each slot once. -/
structure Slotted (ss : List (Text × Text)) : Prop where
  named : ∀ s ∈ ss, IsSlot s.1
  nodup : (ss.map (·.1)).Nodup

namespace Slotted

theorem left {rest : List (Text × Text)} (h : Slotted (before ++ rest)) : Slotted before := by
  refine ⟨fun s hs => h.named s (List.mem_append_left _ hs), ?_⟩
  have hn := h.nodup
  rw [List.map_append] at hn
  exact (List.nodup_append.1 hn).1

theorem last (h : Slotted (before ++ [s])) : IsSlot s.1 := h.named s (by simp)

theorem ne_last (h : Slotted (before ++ [s])) {s' : Text × Text} (hs : s' ∈ before) :
    s'.1 ≠ s.1 := by
  have hn := h.nodup
  rw [List.map_append] at hn
  exact (List.nodup_append.1 hn).2.2 s'.1 (List.mem_map_of_mem hs) s.1 (by simp)

theorem eq_of_leads (h : Slotted ss) {s' : Text × Text} (hs : s ∈ ss) (hs' : s' ∈ ss)
    (hp : s.1 <+: t) (hp' : s'.1 <+: t) : s = s' :=
  List.inj_on_of_nodup_map h.nodup hs hs'
    ((h.named s hs).eq_of_leads (h.named s' hs') hp hp')

end Slotted

theorem expands_nil_iff (h : Slotted ss) : Expands ss [] u ↔ u = [] := by
  constructor
  · intro hu
    generalize ht : ([] : Text) = t at hu
    cases hu with
    | nil => rfl
    | @slot s t u hs _ => exact absurd (List.append_eq_nil_iff.1 ht.symm).1 (h.named s hs).ne_nil
    | copy => exact absurd ht (by simp)
  · rintro rfl
    exact .nil

theorem expands_slot_iff (h : Slotted ss) (hs : s ∈ ss) :
    Expands ss (s.1 ++ t) u ↔ ∃ u', u = s.2 ++ u' ∧ Expands ss t u' := by
  constructor
  · intro hu
    generalize ht : s.1 ++ t = t' at hu
    cases hu with
    | nil => exact absurd (List.append_eq_nil_iff.1 ht).1 (h.named s hs).ne_nil
    | @slot s' t' u' hs' hu' =>
      obtain rfl := h.eq_of_leads hs hs' ⟨t, ht⟩ ⟨t', rfl⟩
      obtain rfl := List.append_cancel_left ht
      exact ⟨u', rfl, hu'⟩
    | copy hno => exact absurd ⟨t, ht⟩ (hno s hs)
  · rintro ⟨u', rfl, hu'⟩
    exact .slot hs hu'

theorem expands_cons_iff {x : Char} (hno : ∀ s ∈ ss, ¬ s.1 <+: x :: t) :
    Expands ss (x :: t) u ↔ ∃ u', u = x :: u' ∧ Expands ss t u' := by
  constructor
  · intro hu
    generalize ht : x :: t = t' at hu
    cases hu with
    | nil => exact absurd ht (by simp)
    | @slot s t' u' hs _ => exact absurd ⟨t', ht.symm⟩ (hno s hs)
    | @copy y t' u' _ hu' =>
      obtain ⟨rfl, rfl⟩ := List.cons.inj ht
      exact ⟨u', rfl, hu'⟩
  · rintro ⟨u', rfl, hu'⟩
    exact .copy hno hu'

-- Where no slot begins, the text is copied.
theorem expands_append_iff (hno : ∀ s ∈ ss, ¬ Begins s.1 a t) :
    Expands ss (a ++ t) u ↔ ∃ u', u = a ++ u' ∧ Expands ss t u' := by
  induction a generalizing u with
  | nil => simp
  | cons x a ih =>
    simp only [begins_cons, not_or] at hno
    rw [List.cons_append, expands_cons_iff fun s hs => (hno s hs).1]
    simp only [ih fun s hs => (hno s hs).2]
    constructor
    · rintro ⟨_, rfl, u', rfl, hu'⟩
      exact ⟨u', rfl, hu'⟩
    · rintro ⟨u', rfl, hu'⟩
      exact ⟨_, rfl, u', rfl, hu'⟩

/-- Every text has an expansion. -/
theorem exists_expands (h : Slotted ss) (t : Text) : ∃ u, Expands ss t u := by
  induction hn : t.length using Nat.strongRecOn generalizing t with
  | _ n ih =>
    cases t with
    | nil => exact ⟨[], .nil⟩
    | cons x t =>
      by_cases hs : ∃ s ∈ ss, s.1 <+: x :: t
      · obtain ⟨s, hs, rest, hrest⟩ := hs
        have hpos := List.length_pos_iff.2 (h.named s hs).ne_nil
        have hlength := congrArg List.length hrest
        rw [List.length_append] at hlength
        obtain ⟨u, hu⟩ := ih rest.length (by omega) rest rfl
        exact ⟨s.2 ++ u, hrest ▸ .slot hs hu⟩
      · obtain ⟨u, hu⟩ := ih t.length (by simp [← hn]) t rfl
        exact ⟨_, .copy (fun s hs' hp => hs ⟨s, hs', hp⟩) hu⟩

/-- A text has one expansion. -/
theorem Expands.unique (h : Slotted ss) {u' : Text} (hu : Expands ss t u) (hu' : Expands ss t u') :
    u = u' := by
  induction hu generalizing u' with
  | nil => exact ((expands_nil_iff h).1 hu').symm
  | slot hs _ ih =>
    obtain ⟨u'', rfl, hu''⟩ := (expands_slot_iff h hs).1 hu'
    rw [ih hu'']
  | copy hno _ ih =>
    obtain ⟨u'', rfl, hu''⟩ := (expands_cons_iff hno).1 hu'
    rw [ih hu'']

/-! ## 3. One slot more -/

/-- Replacing leaves a text as it is that adds no slot to what stands behind it. -/
theorem replace_append_of_occurrences (h : occurrences k (a ++ t) = occurrences k t) (v : Text) :
    Text.replace k v (a ++ t) = a ++ Text.replace k v t := by
  induction a with
  | nil => rfl
  | cons x a ih =>
    have hle := le_occurrences_append k a t
    have hno : ¬ k <+: x :: (a ++ t) := by
      intro hp
      rw [List.cons_append, occurrences, if_pos hp] at h
      omega
    rw [List.cons_append, occurrences_cons hno] at h
    rw [List.cons_append, replace_cons hno, ih h, List.cons_append]

-- The slots of the template that are still to be filled stay as they are.
theorem Expands.exists_of_last (h : Slotted (before ++ [s])) (hu : Expands before (s.1 ++ t) u) :
    ∃ u', u = s.1 ++ u' ∧ Expands before t u' :=
  (expands_append_iff fun _ hs =>
    (h.left.named _ hs).not_begins_of_ne h.last (h.ne_last hs)).1 hu

/-- Filling other slots takes none of a slot away. -/
theorem Expands.occurrences_le (h : Slotted (before ++ [s])) (hu : Expands before t u) :
    occurrences s.1 t ≤ occurrences s.1 u := by
  induction hu with
  | nil => exact Nat.le_refl _
  | @slot s' t u hs _ ih =>
    rw [occurrences_append (h.last.not_begins_of_ne (h.left.named s' hs) (h.ne_last hs).symm)]
    exact Nat.le_trans ih (le_occurrences_append _ _ _)
  | @copy x t u hno hu ih =>
    have hmono : s.1 <+: x :: t → s.1 <+: x :: u := by
      rintro ⟨rest, hrest⟩
      obtain ⟨u', he, -⟩ := Expands.exists_of_last h (hrest ▸ Expands.copy hno hu)
      exact ⟨u', he.symm⟩
    rw [occurrences, occurrences]
    refine Nat.add_le_add ?_ ih
    split
    · exact Nat.le_of_eq (if_pos (hmono ‹_›)).symm
    · exact Nat.zero_le _

/-- Where a slot is found as often as in the template, filling it is filling it at once with the
slots before it. -/
theorem Expands.replace (h : Slotted (before ++ [s])) (hu : Expands before t u)
    (hfound : occurrences s.1 u = occurrences s.1 t) :
    Expands (before ++ [s]) t (Text.replace s.1 s.2 u) := by
  obtain ⟨w, hw⟩ := exists_expands h t
  suffices hwu : w = Text.replace s.1 s.2 u from hwu ▸ hw
  -- along the expansion of one slot more, since that one tells where the slot stands
  induction hw generalizing u with
  | nil => rw [(expands_nil_iff h.left).1 hu]; rfl
  | @slot s' t w hs _ ih =>
    rcases List.mem_append.1 hs with hs | hs
    · obtain ⟨u, rfl, hu'⟩ := (expands_slot_iff h.left hs).1 hu
      rw [occurrences_append
        (h.last.not_begins_of_ne (h.left.named s' hs) (h.ne_last hs).symm)] at hfound
      have hle := hu'.occurrences_le h
      have hge := le_occurrences_append s.1 s'.2 u
      rw [replace_append_of_occurrences (by omega), ih hu' (by omega)]
    · obtain rfl := List.mem_singleton.1 hs
      obtain ⟨u, rfl, hu'⟩ := Expands.exists_of_last h hu
      rw [occurrences_self h.last, occurrences_self h.last] at hfound
      rw [replace_self_append h.last.ne_nil, ih hu' (by omega)]
  | @copy x t w hno _ ih =>
    obtain ⟨u, rfl, hu'⟩ :=
      (expands_cons_iff fun s' hs => hno s' (List.mem_append_left _ hs)).1 hu
    have hle := hu'.occurrences_le h
    have hge := le_occurrences_append s.1 [x] u
    rw [occurrences_cons (hno s (by simp))] at hfound
    have hskip : occurrences s.1 ([x] ++ u) = occurrences s.1 u :=
      Nat.le_antisymm (Nat.le_trans (Nat.le_of_eq hfound) hle) hge
    have hrep := replace_append_of_occurrences hskip s.2
    rw [List.singleton_append] at hskip hrep
    rw [hrep, ih hu' (hskip.symm.trans hfound)]
    rfl

end Baselines.Command
