import Baselines.Text.Blank
import Mathlib.Data.List.DropRight

/-!
# Pieces of a text

Cutting at a character and joining with it undo each other, as long as no piece holds the
character. What is dropped at the end of a text is the longest such end.
-/

namespace Baselines.Text

/-! ## 1. Cutting -/

section Cutting

variable {α : Type} [DecidableEq α] {c : α}

theorem splitOn_nil : splitOn c ([] : List α) = [[]] := rfl

theorem splitOn_cons_self (r : List α) : splitOn c (c :: r) = [] :: splitOn c r := by
  simp [splitOn]

theorem splitOn_cons_ne {x : α} (h : x ≠ c) (r : List α) :
    ∃ p ps, splitOn c r = p :: ps ∧ splitOn c (x :: r) = (x :: p) :: ps := by
  cases hr : splitOn c r with
  | nil => exact absurd hr (splitOn_ne_nil c r)
  | cons p ps => exact ⟨p, ps, rfl, by simp [splitOn, h, hr]⟩

-- A text has a last piece.
theorem exists_splitOn_concat (c : α) (t : List α) :
    ∃ front last, splitOn c t = front ++ [last] :=
  ⟨_, _, (List.dropLast_append_getLast (splitOn_ne_nil c t)).symm⟩

/-- No piece holds the character that the text was cut at. -/
theorem not_mem_of_mem_splitOn {t p : List α} (h : p ∈ splitOn c t) : c ∉ p := by
  induction t generalizing p with
  | nil =>
    rw [splitOn_nil, List.mem_singleton] at h
    simp [h]
  | cons x r ih =>
    by_cases hx : x = c
    · rw [hx, splitOn_cons_self, List.mem_cons] at h
      rcases h with rfl | h
      · exact List.not_mem_nil
      · exact ih h
    · obtain ⟨q, qs, hr, he⟩ := splitOn_cons_ne hx r
      rw [he, List.mem_cons] at h
      rcases h with rfl | h
      · have hq := ih (p := q) (by rw [hr]; exact List.mem_cons_self)
        simp [hq, Ne.symm hx]
      · exact ih (by rw [hr]; exact List.mem_cons_of_mem q h)

theorem splitOn_of_not_mem {t : List α} (h : c ∉ t) : splitOn c t = [t] := by
  induction t with
  | nil => rfl
  | cons x r ih =>
    have hx : x ≠ c := fun e => h (e ▸ List.mem_cons_self)
    have hr : c ∉ r := fun m => h (List.mem_cons_of_mem x m)
    simp [splitOn, hx, ih hr]

theorem splitOn_append (a b : List α) : splitOn c (a ++ c :: b) = splitOn c a ++ splitOn c b := by
  induction a with
  | nil => simp [splitOn]
  | cons x r ih =>
    by_cases hx : x = c
    · rw [List.cons_append, hx, splitOn_cons_self, splitOn_cons_self, ih, List.cons_append]
    · obtain ⟨p, ps, hr, he⟩ := splitOn_cons_ne hx r
      rw [hr] at ih
      rw [he, List.cons_append]
      simp [splitOn, hx, ih]

/-- Where two texts meet, the last piece of the one and the first of the other are one piece. -/
theorem splitOn_append_pieces {a b p q : List α} {ps qs : List (List α)}
    (ha : splitOn c a = ps ++ [p]) (hb : splitOn c b = q :: qs) :
    splitOn c (a ++ b) = ps ++ (p ++ q) :: qs := by
  induction a generalizing p ps with
  | nil =>
    have he : ps = [] ∧ p = [] := by
      rw [splitOn_nil] at ha
      cases ps with
      | nil => simpa [eq_comm] using ha
      | cons x r => simp at ha
    rw [he.1, he.2]
    exact hb
  | cons x r ih =>
    obtain ⟨front, last, hr⟩ := exists_splitOn_concat c r
    by_cases hx : x = c
    · rw [hx, splitOn_cons_self, hr, ← List.cons_append] at ha
      obtain ⟨rfl, he⟩ := List.append_inj' ha rfl
      obtain rfl := List.singleton_inj.1 he
      rw [List.cons_append, hx, splitOn_cons_self, ih hr]
      rfl
    · cases front with
      | nil =>
        have he : ps = [] ∧ p = x :: last := by
          cases ps with
          | nil => simpa [splitOn, hx, hr, eq_comm] using ha
          | cons y s => simp [splitOn, hx, hr] at ha
        simp [splitOn, hx, ih hr, he.1, he.2]
      | cons f fs =>
        have he : ps = (x :: f) :: fs ∧ p = last := by
          have hs : splitOn c (x :: r) = ((x :: f) :: fs) ++ [last] := by simp [splitOn, hx, hr]
          rw [hs] at ha
          obtain ⟨h1, h2⟩ := List.append_inj' ha rfl
          exact ⟨h1.symm, (List.singleton_inj.1 h2).symm⟩
        simp [splitOn, hx, ih hr, he.1, he.2]

theorem mem_of_mem_splitOn {t p : List α} (h : p ∈ splitOn c t) {x : α} (hx : x ∈ p) : x ∈ t := by
  induction t generalizing p with
  | nil =>
    rw [splitOn_nil, List.mem_singleton] at h
    exact absurd (h ▸ hx) List.not_mem_nil
  | cons y r ih =>
    by_cases hy : y = c
    · rw [hy, splitOn_cons_self, List.mem_cons] at h
      rcases h with rfl | h
      · exact absurd hx List.not_mem_nil
      · exact List.mem_cons_of_mem y (ih h hx)
    · obtain ⟨q, qs, hr, he⟩ := splitOn_cons_ne hy r
      rw [he, List.mem_cons] at h
      rcases h with rfl | h
      · rcases List.mem_cons.1 hx with rfl | hx
        · exact List.mem_cons_self
        · exact List.mem_cons_of_mem y (ih (p := q) (by rw [hr]; exact List.mem_cons_self) hx)
      · exact List.mem_cons_of_mem y (ih (by rw [hr]; exact List.mem_cons_of_mem q h) hx)

/-- The last occurrence is the one that no other follows. -/
theorem splitLast?_append {c : Char} (a : Text) {b : Text} (h : c ∉ b) :
    splitLast? c (a ++ c :: b) = some (a, b) := by
  induction a with
  | nil => simp [splitLast?, splitLast?_eq_none.2 h]
  | cons x r ih =>
    rw [List.cons_append, splitLast?, ih]

theorem splitFirst?_append {c : Char} {a : Text} (h : c ∉ a) (b : Text) :
    splitFirst? c (a ++ c :: b) = some (a, b) := by
  induction a with
  | nil => simp [splitFirst?]
  | cons x r ih =>
    have hx : x ≠ c := fun e => h (e ▸ List.mem_cons_self)
    have hr : c ∉ r := fun m => h (List.mem_cons_of_mem x m)
    rw [List.cons_append, splitFirst?, if_neg hx, ih hr]
    rfl

end Cutting

/-! ## 2. Joining -/

section Joining

variable {α : Type} {sep : List α}

theorem join_cons (t : List α) {r : List (List α)} (h : r ≠ []) :
    join sep (t :: r) = t ++ (sep ++ join sep r) := by
  cases r with
  | nil => exact absurd rfl h
  | cons u r => rfl

theorem join_append {a b : List (List α)} (ha : a ≠ []) (hb : b ≠ []) :
    join sep (a ++ b) = join sep a ++ (sep ++ join sep b) := by
  induction a with
  | nil => exact absurd rfl ha
  | cons t r ih =>
    cases r with
    | nil => rw [List.singleton_append, join_cons t hb, join]
    | cons u r =>
      rw [List.cons_append, join_cons t (by simp), ih (by simp), join_cons t (by simp)]
      simp only [List.append_assoc]

/-- What stands for no texts at all where texts are joined: one empty text. -/
def orEmpty (ts : List (List α)) : List (List α) := if ts = [] then [[]] else ts

theorem orEmpty_ne_nil (ts : List (List α)) : orEmpty ts ≠ [] := by
  unfold orEmpty
  split
  · exact List.cons_ne_nil _ _
  · assumption

theorem join_orEmpty (ts : List (List α)) : join sep (orEmpty ts) = join sep ts := by
  unfold orEmpty
  split
  · rename_i h
    rw [h, join, join]
  · rfl

/-- Joining what was joined is joining all of it. -/
theorem join_map_join (tss : List (List (List α))) :
    join sep (tss.map (join sep)) = join sep (tss.flatMap orEmpty) := by
  induction tss with
  | nil => rfl
  | cons ts r ih =>
    cases r with
    | nil => simp only [List.map_cons, List.map_nil, join, List.flatMap_cons, List.flatMap_nil,
        List.append_nil, join_orEmpty]
    | cons us r =>
      have hr : (us :: r).flatMap orEmpty ≠ [] := by
        rw [List.flatMap_cons]
        exact List.append_ne_nil_of_left_ne_nil (orEmpty_ne_nil us) _
      rw [List.flatMap_cons, join_append (orEmpty_ne_nil ts) hr, List.map_cons,
        join_cons _ (by simp), ih, join_orEmpty]

theorem mem_join {ts : List (List α)} {t : List α} (ht : t ∈ ts) {c : α} (hc : c ∈ t) :
    c ∈ join sep ts := by
  induction ts with
  | nil => exact absurd ht List.not_mem_nil
  | cons u r ih =>
    by_cases hr : r = []
    · rw [hr, List.mem_singleton] at ht
      rw [hr, join, ← ht]
      exact hc
    · rw [join_cons u hr]
      rcases List.mem_cons.1 ht with rfl | ht
      · exact List.mem_append_left _ hc
      · exact List.mem_append_right u (List.mem_append_right sep (ih ht))

theorem mem_of_mem_join {ts : List (List α)} {c : α} (h : c ∈ join sep ts) :
    c ∈ sep ∨ ∃ t ∈ ts, c ∈ t := by
  induction ts with
  | nil => exact absurd h List.not_mem_nil
  | cons t r ih =>
    by_cases hr : r = []
    · rw [hr, join] at h
      exact Or.inr ⟨t, List.mem_cons_self, h⟩
    · rw [join_cons t hr, List.mem_append, List.mem_append] at h
      rcases h with h | h | h
      · exact Or.inr ⟨t, List.mem_cons_self, h⟩
      · exact Or.inl h
      · rcases ih h with hs | ⟨u, hu, hc⟩
        · exact Or.inl hs
        · exact Or.inr ⟨u, List.mem_cons_of_mem t hu, hc⟩

theorem splitOn_join [DecidableEq α] {c : α} {ps : List (List α)} (h : ps ≠ [])
    (hc : ∀ p ∈ ps, c ∉ p) : splitOn c (join [c] ps) = ps := by
  induction ps with
  | nil => exact absurd rfl h
  | cons p r ih =>
    have hp : c ∉ p := hc p List.mem_cons_self
    cases r with
    | nil => exact splitOn_of_not_mem hp
    | cons q r =>
      rw [join_cons p (by simp), List.singleton_append, splitOn_append, splitOn_of_not_mem hp,
        ih (by simp) fun x hx => hc x (List.mem_cons_of_mem p hx)]
      rfl

/-- The pieces of joined texts are the pieces of each, in order. -/
theorem splitOn_join_pieces [DecidableEq α] {c : α} {ts : List (List α)} (h : ts ≠ []) :
    splitOn c (join [c] ts) = ts.flatMap (splitOn c) := by
  induction ts with
  | nil => exact absurd rfl h
  | cons t r ih =>
    by_cases hr : r = []
    · rw [hr, join, List.flatMap_singleton]
    · rw [join_cons t hr, List.singleton_append, splitOn_append, ih hr, List.flatMap_cons]

/-- Parts of the same lengths are told from what they are joined to. -/
theorem join_map_eq_iff {β : Type} {f g : β → List α} (h : ∀ x, (f x).length = (g x).length)
    (sep : List α) (xs : List β) :
    join sep (xs.map f) = join sep (xs.map g) ↔ ∀ x ∈ xs, f x = g x := by
  induction xs with
  | nil => simp
  | cons x xs ih =>
    cases xs with
    | nil => simp [join]
    | cons y xs =>
      rw [List.forall_mem_cons, ← ih]
      show f x ++ (sep ++ join sep ((y :: xs).map f)) =
        g x ++ (sep ++ join sep ((y :: xs).map g)) ↔ _
      constructor
      · intro he
        obtain ⟨hx, he⟩ := List.append_inj he (h x)
        exact ⟨hx, List.append_cancel_left he⟩
      · exact fun he => by rw [he.1, he.2]

theorem flatMap_eq_iff {β : Type} {f g : β → List α} (h : ∀ x, (f x).length = (g x).length)
    (xs : List β) : xs.flatMap f = xs.flatMap g ↔ ∀ x ∈ xs, f x = g x := by
  induction xs with
  | nil => simp
  | cons x xs ih =>
    rw [List.flatMap_cons, List.flatMap_cons, List.forall_mem_cons, ← ih]
    exact ⟨fun he => List.append_inj he (h x), fun he => by rw [he.1, he.2]⟩

end Joining

/-! ## 3. Ends -/

theorem dropEndWhile_eq (p : Char → Bool) (t : Text) : dropEndWhile p t = t.rdropWhile p := rfl

/-- A text is what is left of it and an end of characters that are dropped. -/
theorem exists_dropEndWhile (p : Char → Bool) (t : Text) :
    ∃ w, t = dropEndWhile p t ++ w ∧ ∀ c ∈ w, p c = true := by
  refine ⟨t.rtakeWhile p, List.rdropWhile_append_rtakeWhile.symm, fun c hc => ?_⟩
  exact List.mem_rtakeWhile_imp hc

theorem getLast?_dropEndWhile {p : Char → Bool} {t : Text} {c : Char}
    (h : (dropEndWhile p t).getLast? = some c) : p c = false := by
  rw [dropEndWhile_eq] at h
  have hne : t.rdropWhile p ≠ [] := by
    intro he
    rw [he] at h
    simp at h
  have hl := List.rdropWhile_last_not p t hne
  rw [List.getLast?_eq_some_getLast hne, Option.some.injEq] at h
  simpa [h] using hl

theorem dropEndWhile_append {p : Char → Bool} {t w : Text} (hw : ∀ c ∈ w, p c = true) :
    dropEndWhile p (t ++ w) = dropEndWhile p t := by
  unfold dropEndWhile
  rw [List.reverse_append, List.dropWhile_append_of_pos (by simpa using hw)]

theorem dropEndWhile_eq_self {p : Char → Bool} {t : Text}
    (h : ∀ c, t.getLast? = some c → p c = false) : dropEndWhile p t = t := by
  rw [dropEndWhile_eq, List.rdropWhile_eq_self_iff]
  intro hl
  simpa using h _ (List.getLast?_eq_some_getLast hl)

/-! ## 4. Blanks -/

theorem head?_trim {t : Text} {c : Char} (h : (trim t).head? = some c) : isBlank c = false := by
  obtain ⟨w, hw, -⟩ := exists_dropEndWhile isBlank (trimStart t)
  have hs : (trimStart t).head? = some c := by
    rw [hw, List.head?_append, show dropEndWhile isBlank (trimStart t) = trim t from rfl, h]
    rfl
  have hd := List.head?_dropWhile_not isBlank t
  rw [show t.dropWhile isBlank = trimStart t from rfl, hs] at hd
  exact hd

theorem getLast?_trim {t : Text} {c : Char} (h : (trim t).getLast? = some c) :
    isBlank c = false :=
  getLast?_dropEndWhile h

/-- A text has no blanks at its ends exactly if trimming does not change it. -/
theorem trim_eq_self_iff {t : Text} : trim t = t ↔
    (∀ c, t.head? = some c → isBlank c = false) ∧
      ∀ c, t.getLast? = some c → isBlank c = false := by
  constructor
  · intro h
    rw [← h]
    exact ⟨fun _ => head?_trim, fun _ => getLast?_trim⟩
  · rintro ⟨hh, hl⟩
    have hs : trimStart t = t := by
      cases t with
      | nil => rfl
      | cons x r => rw [trimStart, List.dropWhile_cons_of_neg (by simp [hh x rfl])]
    rw [trim, hs]
    exact dropEndWhile_eq_self hl

theorem trim_trim (t : Text) : trim (trim t) = trim t :=
  trim_eq_self_iff.2 ⟨fun _ => head?_trim, fun _ => getLast?_trim⟩

theorem trim_of_forall {t : Text} (h : ∀ c ∈ t, isBlank c = false) : trim t = t :=
  trim_eq_self_iff.2 ⟨fun c hc => h c (List.mem_of_mem_head? hc),
    fun c hc => h c (List.mem_of_getLast? hc)⟩

/-- Trimming drops blanks only. -/
theorem mem_trim {t : Text} {c : Char} (h : c ∈ t) (hc : isBlank c = false) : c ∈ trim t := by
  obtain ⟨w, hw, hwb⟩ := exists_dropEndWhile isBlank (trimStart t)
  have hs : c ∈ trimStart t := by
    rw [← List.takeWhile_append_dropWhile (p := isBlank) (l := t), List.mem_append] at h
    refine h.resolve_left fun hl => ?_
    have := List.mem_takeWhile_imp hl
    rw [hc] at this
    exact absurd this (by decide)
  rw [hw, List.mem_append] at hs
  refine hs.resolve_right fun hl => ?_
  have := hwb c hl
  rw [hc] at this
  exact absurd this (by decide)

theorem mem_of_mem_trim {t : Text} {c : Char} (h : c ∈ trim t) : c ∈ t := by
  obtain ⟨w, hw, -⟩ := exists_dropEndWhile isBlank (trimStart t)
  have hs : c ∈ trimStart t := by
    rw [hw]
    exact List.mem_append_left w h
  exact (List.dropWhile_sublist isBlank).mem hs

/-! ## 5. Digits -/

theorem not_mem_digits {c : Char} (h : c.isDigit = false) (n : Nat) : c ∉ ofNat n := by
  intro hm
  have hd : c.isDigit = true := Nat.isDigit_of_mem_toDigits (by omega) (by omega) hm
  exact absurd (hd.symm.trans h) (by decide)

end Baselines.Text
