import Baselines.Table
import Mathlib.Data.List.Nodup

/-!
# Sorted tables

A table that is built by inserting is sorted, and a sorted table is known by the values it gives.
-/

namespace Baselines

/-! ## 1. The order of texts -/

namespace Text

theorem before_cons {x y : Char} {s t : Text} :
    before (x :: s) (y :: t) = true ↔ x < y ∨ (x = y ∧ before s t = true) := by
  simp [before]

theorem before_refl (t : Text) : before t t = true := by
  induction t with
  | nil => rfl
  | cons x t ih => exact before_cons.2 (Or.inr ⟨rfl, ih⟩)

theorem before_total (s t : Text) : before s t = true ∨ before t s = true := by
  induction s generalizing t with
  | nil => exact Or.inl rfl
  | cons x s ih =>
    cases t with
    | nil => exact Or.inr rfl
    | cons y t =>
      rw [before_cons, before_cons]
      by_cases hlt : x < y
      · exact Or.inl (Or.inl hlt)
      · by_cases hgt : y < x
        · exact Or.inr (Or.inl hgt)
        · have hxy : x = y := Char.le_antisymm (Char.not_lt.1 hgt) (Char.not_lt.1 hlt)
          exact (ih t).imp (fun h => Or.inr ⟨hxy, h⟩) fun h => Or.inr ⟨hxy.symm, h⟩

theorem before_antisymm {s t : Text} (hst : before s t = true) (hts : before t s = true) :
    s = t := by
  induction s generalizing t with
  | nil =>
    cases t with
    | nil => rfl
    | cons y t => exact absurd hts (by simp [before])
  | cons x s ih =>
    cases t with
    | nil => exact absurd hst (by simp [before])
    | cons y t =>
      rw [before_cons] at hst hts
      rcases hst with hlt | ⟨rfl, hst⟩
      · rcases hts with hgt | ⟨rfl, -⟩
        · exact absurd hgt (Char.lt_asymm hlt)
        · exact absurd hlt (Char.lt_irrefl _)
      · rcases hts with hgt | ⟨-, hts⟩
        · exact absurd hgt (Char.lt_irrefl _)
        · rw [ih hst hts]

theorem before_trans {s t u : Text} (hst : before s t = true) (htu : before t u = true) :
    before s u = true := by
  induction s generalizing t u with
  | nil => rfl
  | cons x s ih =>
    cases t with
    | nil => exact absurd hst (by simp [before])
    | cons y t =>
      cases u with
      | nil => exact absurd htu (by simp [before])
      | cons z u =>
        rw [before_cons] at hst htu ⊢
        rcases hst with hxy | ⟨rfl, hst⟩
        · rcases htu with hyz | ⟨rfl, -⟩
          · exact Or.inl (Char.lt_trans hxy hyz)
          · exact Or.inl hxy
        · exact htu.imp_right fun h => ⟨h.1, ih hst h.2⟩

-- Whether a text comes before another one and is not the same.
def Precedes (s t : Text) : Prop := before t s = false

theorem not_precedes_self (t : Text) : ¬ Precedes t t := by
  simp [Precedes, before_refl]

theorem precedes_of_before {s t : Text} (h : before s t = true) (hne : s ≠ t) : Precedes s t :=
  Bool.eq_false_iff.2 fun hts => hne (before_antisymm h hts)

theorem precedes_trans {s t u : Text} (hst : Precedes s t) (htu : Precedes t u) :
    Precedes s u := by
  refine Bool.eq_false_iff.2 fun hus => ?_
  rcases before_total t u with h | h
  · exact absurd (before_trans h hus) (Bool.eq_false_iff.1 hst)
  · exact absurd h (Bool.eq_false_iff.1 htu)

end Text

namespace Table

variable {α : Type} {s t : Table α} {key : Text} {value : α}

/-- Whether each key stands before all that follow it. -/
def Sorted (t : Table α) : Prop := t.Pairwise fun a b => Text.Precedes a.1 b.1

/-! ## 2. Values of a list of pairs -/

theorem mem_of_get? (h : get? t key = some value) : (key, value) ∈ t := by
  obtain ⟨e, he, rfl⟩ := Option.map_eq_some_iff.1 h
  have hk : e.1 = key := by simpa using List.find?_some he
  rw [← hk]
  exact List.mem_of_find?_eq_some he

-- A key of which the pairs agree has the value of each of them.
theorem get?_of_mem (h : (key, value) ∈ t) (hu : ∀ v, (key, v) ∈ t → v = value) :
    get? t key = some value := by
  cases hg : get? t key with
  | some v => rw [hu v (mem_of_get? hg)]
  | none =>
    rw [get?, Option.map_eq_none_iff, List.find?_eq_none] at hg
    exact absurd (hg _ h) (by simp)

theorem mem_keys : key ∈ keys t ↔ ∃ value, (key, value) ∈ t := by
  simp [keys]

/-! ## 3. Inserting -/

theorem mem_insert {e : Text × α} (h : e ∈ insert key value t) : e = (key, value) ∨ e ∈ t := by
  induction t with
  | nil => exact Or.inl (List.mem_singleton.1 h)
  | cons x r ih =>
    obtain ⟨k, v⟩ := x
    by_cases hk : k = key
    · rw [insert, if_pos hk, List.mem_cons] at h
      exact h.imp_right (List.mem_cons_of_mem _)
    · by_cases hb : Text.before key k = true
      · rw [insert, if_neg hk, if_pos hb, List.mem_cons] at h
        exact h
      · rw [insert, if_neg hk, if_neg hb, List.mem_cons] at h
        rcases h with rfl | h
        · exact Or.inr List.mem_cons_self
        · exact (ih h).imp_right (List.mem_cons_of_mem _)

theorem sorted_nil : Sorted ([] : Table α) := List.Pairwise.nil

theorem sorted_insert (h : Sorted t) (key : Text) (value : α) : Sorted (insert key value t) := by
  induction t with
  | nil => exact List.pairwise_singleton _ _
  | cons x r ih =>
    obtain ⟨k, v⟩ := x
    obtain ⟨hx, hr⟩ := List.pairwise_cons.1 h
    by_cases hk : k = key
    · subst hk
      rw [insert, if_pos rfl]
      exact List.pairwise_cons.2 ⟨hx, hr⟩
    · by_cases hb : Text.before key k = true
      · have hlt : Text.Precedes key k := Text.precedes_of_before hb (Ne.symm hk)
        rw [insert, if_neg hk, if_pos hb]
        refine List.pairwise_cons.2 ⟨fun e he => ?_, h⟩
        rcases List.mem_cons.1 he with rfl | he
        · exact hlt
        · exact Text.precedes_trans hlt (hx e he)
      · have hlt : Text.Precedes k key := Bool.eq_false_iff.2 hb
        rw [insert, if_neg hk, if_neg hb]
        refine List.pairwise_cons.2 ⟨fun e he => ?_, ih hr⟩
        rcases mem_insert he with rfl | he
        · exact hlt
        · exact hx e he

-- A key that stands behind all others is inserted at the end.
theorem insert_of_precedes (h : ∀ e ∈ t, Text.Precedes e.1 key) (value : α) :
    insert key value t = t ++ [(key, value)] := by
  induction t with
  | nil => rfl
  | cons e r ih =>
    obtain ⟨k, v⟩ := e
    have hk : Text.Precedes k key := h (k, v) List.mem_cons_self
    have hne : k ≠ key := fun he => Text.not_precedes_self key (he ▸ hk)
    rw [insert, if_neg hne, if_neg (Bool.eq_false_iff.1 hk),
      ih fun e he => h e (List.mem_cons_of_mem _ he), List.cons_append]

/-! ## 4. Sorted tables -/

namespace Sorted

theorem nodup_keys (h : Sorted t) : (keys t).Nodup := by
  refine List.pairwise_map.2 (h.imp ?_)
  intro a b hlt he
  rw [he] at hlt
  exact Text.not_precedes_self _ hlt

/-- A sorted table has one value for each key. -/
theorem unique (h : Sorted t) {v w : α} (hv : (key, v) ∈ t) (hw : (key, w) ∈ t) : v = w :=
  congrArg Prod.snd (List.inj_on_of_nodup_map h.nodup_keys hv hw rfl)

theorem get?_eq_some_iff (h : Sorted t) : get? t key = some value ↔ (key, value) ∈ t :=
  ⟨mem_of_get?, fun hm => get?_of_mem hm fun _ hv => h.unique hv hm⟩

/-- Sorted tables with the same entries are the same table. -/
theorem ext (hs : Sorted s) (ht : Sorted t) (h : ∀ e, e ∈ s ↔ e ∈ t) : s = t := by
  have hp : s.Perm t := (List.perm_ext_iff_of_nodup (List.Nodup.of_map _ hs.nodup_keys)
    (List.Nodup.of_map _ ht.nodup_keys)).2 h
  refine hp.eq_of_pairwise ?_ hs ht
  intro a b _ _ hab hba
  exact absurd (Text.precedes_trans hab hba) (Text.not_precedes_self _)

theorem get?_reverse (h : Sorted t) (key : Text) : get? t.reverse key = get? t key := by
  refine Option.ext fun v => ?_
  rw [h.get?_eq_some_iff]
  constructor
  · intro hv
    exact List.mem_reverse.1 (mem_of_get? hv)
  · intro hv
    exact get?_of_mem (List.mem_reverse.2 hv) fun w hw => h.unique (List.mem_reverse.1 hw) hv

/-- Sorted tables that give the same values are the same table. -/
theorem ext_get? (hs : Sorted s) (ht : Sorted t) (h : ∀ key, get? s key = get? t key) : s = t :=
  ext hs ht fun e => by rw [← hs.get?_eq_some_iff, ← ht.get?_eq_some_iff, h]

/-- A sorted table has one entry for a key that has a value. -/
theorem filter_key (h : Sorted t) (hv : get? t key = some value) :
    t.filter (fun e => e.1 = key) = [(key, value)] := by
  have hm := h.get?_eq_some_iff.1 hv
  refine ext (List.Pairwise.filter _ h) (List.pairwise_singleton _ _) fun e => ?_
  rw [List.mem_filter, decide_eq_true_eq, List.mem_singleton]
  constructor
  · rintro ⟨he, rfl⟩
    rw [← h.unique he hm]
  · rintro rfl
    exact ⟨hm, rfl⟩

end Sorted

/-! ## 5. Tables of pairs -/

theorem sorted_foldl_insert (ps : List (Text × α)) (h : Sorted t) :
    Sorted (ps.foldl (fun t p => insert p.1 p.2 t) t) := by
  induction ps generalizing t with
  | nil => exact h
  | cons p r ih => exact ih (sorted_insert h p.1 p.2)

theorem sorted_ofPairs (ps : List (Text × α)) : Sorted (ofPairs ps) :=
  sorted_foldl_insert ps sorted_nil

theorem get?_append (s t : List (Text × α)) (key : Text) :
    get? (s ++ t) key = (get? s key).or (get? t key) := by
  rw [get?, get?, get?, List.find?_append, Option.map_or]

-- Of pairs with one key the last counts.
theorem get?_foldl_insert (ps : List (Text × α)) (t : Table α) (key : Text) :
    get? (ps.foldl (fun t p => insert p.1 p.2 t) t) key =
      (get? ps.reverse key).or (get? t key) := by
  induction ps generalizing t with
  | nil => rfl
  | cons p r ih =>
    rw [List.foldl_cons, ih, List.reverse_cons, get?_append, Option.or_assoc]
    congr 1
    by_cases hp : key = p.1
    · rw [hp, get?_insert_self]
      simp [get?]
    · rw [get?_insert_ne hp]
      simp [get?, Ne.symm hp]

theorem get?_ofPairs (ps : List (Text × α)) (key : Text) :
    get? (ofPairs ps) key = get? ps.reverse key := by
  rw [ofPairs, get?_foldl_insert]
  exact Option.or_none

-- Where the pairs of one key agree, their order does not count.
theorem mem_ofPairs {ps : List (Text × α)}
    (hu : ∀ key v w, (key, v) ∈ ps → (key, w) ∈ ps → v = w) {e : Text × α} :
    e ∈ ofPairs ps ↔ e ∈ ps := by
  obtain ⟨key, value⟩ := e
  rw [← (sorted_ofPairs ps).get?_eq_some_iff, get?_ofPairs]
  constructor
  · intro h
    exact List.mem_reverse.1 (mem_of_get? h)
  · intro h
    exact get?_of_mem (List.mem_reverse.2 h) fun v hv => hu key v value (List.mem_reverse.1 hv) h

theorem ofPairs_congr {ps qs : List (Text × α)}
    (hu : ∀ key v w, (key, v) ∈ ps → (key, w) ∈ ps → v = w) (h : ∀ e, e ∈ ps ↔ e ∈ qs) :
    ofPairs ps = ofPairs qs := by
  have hu' : ∀ key v w, (key, v) ∈ qs → (key, w) ∈ qs → v = w := fun key v w hv hw =>
    hu key v w ((h _).2 hv) ((h _).2 hw)
  refine (sorted_ofPairs ps).ext (sorted_ofPairs qs) fun e => ?_
  rw [mem_ofPairs hu, mem_ofPairs hu']
  exact h e

end Table

end Baselines
