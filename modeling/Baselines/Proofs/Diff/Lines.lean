import Baselines.Diff.Hunk
import Baselines.Proofs.Text.Lines
import Mathlib.Data.List.Infix

/-!
# Lines of a diff and lines of a text

A diff cuts its texts at carriage returns too, and keeps the ends of its lines. So its lines make up
the text, and there is one for every line end and one for what stands behind the last; in a text that
ends in a line feed every line has its end. The first line at which two texts differ is told by their
lines without ends: there is none exactly when the texts are the same but for carriage returns before
line feeds.
-/

namespace Baselines.Diff

open Text

/-! ## 1. Lines with their ends -/

variable {c : Char} {r t : Text}

theorem cutLines_return_lineFeed (r : Text) :
    cutLines ('\r' :: '\n' :: r) = ['\r', '\n'] :: cutLines r := by rw [cutLines]

-- A line end that is one character.
theorem cutLines_end (hc : c = '\n' ∨ c = '\r') (hr : c = '\r' → r.head? ≠ some '\n') :
    cutLines (c :: r) = [c] :: cutLines r := by
  rw [cutLines]
  · rw [if_pos hc]
  · rintro r' rfl rfl
    exact hr rfl rfl

-- A character within a line.
theorem cutLines_inner (hc : ¬(c = '\n' ∨ c = '\r')) (r : Text) :
    cutLines (c :: r) = match cutLines r with
      | [] => [[c]]
      | l :: ls => (c :: l) :: ls := by
  cases h : cutLines r with
  | nil =>
    rw [cutLines, if_neg hc, h]
    rintro r' rfl rfl
    exact hc (Or.inr rfl)
  | cons l ls =>
    rw [cutLines, if_neg hc, h]
    rintro r' rfl rfl
    exact hc (Or.inr rfl)

/-- What a text begins with: nothing, a line end of two characters or of one, or a character within
a line. -/
theorem cutLines_cases {motive : Text → Prop} (t : Text) (nil : motive [])
    (pair : ∀ r, motive r → motive ('\r' :: '\n' :: r))
    (single : ∀ c r, (c = '\n' ∨ c = '\r') → (c = '\r' → r.head? ≠ some '\n') → motive r →
      motive (c :: r))
    (inner : ∀ c r, ¬(c = '\n' ∨ c = '\r') → motive r → motive (c :: r)) : motive t := by
  induction t using cutLines.induct with
  | case1 => exact nil
  | case2 r ih => exact pair r ih
  | case3 c r hpair hc ih =>
    refine single c r hc (fun he hh => ?_) ih
    obtain ⟨r', hr⟩ := List.head?_eq_some_iff.1 hh
    exact hpair r' he hr
  | case4 c r hpair hc hr ih => exact inner c r hc ih
  | case5 c r hpair hc l ls hr ih => exact inner c r hc ih

/-- The lines of a diff make up the text. -/
theorem flatten_cutLines (t : Text) : (cutLines t).flatten = t := by
  induction t using cutLines_cases with
  | nil => rfl
  | pair r ih => rw [cutLines_return_lineFeed, List.flatten_cons, ih]; rfl
  | single c r hc hr ih => rw [cutLines_end hc hr, List.flatten_cons, ih]; rfl
  | inner c r hc ih =>
    rw [cutLines_inner hc]
    cases h : cutLines r with
    | nil =>
      rw [h] at ih
      rw [← ih]
      rfl
    | cons l ls =>
      rw [h] at ih
      rw [← ih]
      rfl

theorem cutLines_injective {s t : Text} (h : cutLines s = cutLines t) : s = t := by
  rw [← flatten_cutLines s, ← flatten_cutLines t, h]

theorem cutLines_eq_nil : cutLines t = [] ↔ t = [] := by
  refine ⟨fun h => cutLines_injective h, fun h => ?_⟩
  rw [h]
  rfl

theorem length_cutLines_inner (hc : ¬(c = '\n' ∨ c = '\r')) (hr : r ≠ []) :
    (cutLines (c :: r)).length = (cutLines r).length := by
  rw [cutLines_inner hc]
  cases h : cutLines r with
  | nil => exact absurd (cutLines_eq_nil.1 h) hr
  | cons l ls => rfl

/-! ## 2. How many lines -/

/-- Whether a line ends with the first character of a text: with a line feed, or with a carriage
return that no line feed follows. -/
def endsLine : Text → Bool
  | [] => false
  | c :: r => c = '\n' ∨ (c = '\r' ∧ r.head? ≠ some '\n')

/-- How many lines a text has where a line ends at a line feed, at a carriage return, or at both in
that order: one for every end, and one for what stands behind the last. -/
def lineCount (t : Text) : Nat :=
  t.tails.countP endsLine +
    if t = [] ∨ t.getLast? = some '\n' ∨ t.getLast? = some '\r' then 0 else 1

-- What stands behind the last line end is told by any end of the text that is not empty.
theorem lineCount_cons (c : Char) (hr : r ≠ []) :
    lineCount (c :: r) = (if endsLine (c :: r) then 1 else 0) + lineCount r := by
  obtain ⟨d, r', rfl⟩ := List.exists_cons_of_ne_nil hr
  simp only [lineCount, List.tails_cons, List.countP_cons, List.getLast?_cons_cons,
    reduceCtorEq, false_or]
  omega

theorem endsLine_cons (c : Char) (r : Text) : endsLine (c :: r) = true ↔
    c = '\n' ∨ (c = '\r' ∧ r.head? ≠ some '\n') := by
  rw [endsLine, decide_eq_true_eq]

theorem lineCount_singleton (c : Char) : lineCount [c] = 1 := by
  by_cases hc : c = '\n' ∨ c = '\r'
  · have he : endsLine [c] = true := (endsLine_cons c []).2 (hc.imp_right fun h => ⟨h, by simp⟩)
    have hn : endsLine [] = false := rfl
    simp [lineCount, he, hn, hc]
  · have he : endsLine [c] = false := by
      rw [Bool.eq_false_iff, ne_eq, endsLine_cons]
      exact fun h => hc (h.imp_right And.left)
    have hn : endsLine [] = false := rfl
    simp [lineCount, he, hn, hc]

/-- A text is cut into as many lines as it has. -/
theorem length_cutLines (t : Text) : (cutLines t).length = lineCount t := by
  induction t using cutLines_cases with
  | nil => rfl
  | pair r ih =>
    have hreturn : endsLine ('\r' :: '\n' :: r) = false := by simp [endsLine]
    rw [cutLines_return_lineFeed, List.length_cons, ih, lineCount_cons _ (List.cons_ne_nil _ _),
      hreturn]
    by_cases hr : r = []
    · rw [hr, lineCount_singleton]
      rfl
    · rw [lineCount_cons _ hr, if_pos ((endsLine_cons _ _).2 (Or.inl rfl))]
      simp only [Bool.false_eq_true, if_false]
      omega
  | single c r hc hr ih =>
    rw [cutLines_end hc hr, List.length_cons, ih]
    by_cases hne : r = []
    · rw [hne, lineCount_singleton]
      rfl
    · rw [lineCount_cons _ hne,
        if_pos ((endsLine_cons c r).2 (hc.imp_right fun h => ⟨h, hr h⟩)), Nat.add_comm]
  | inner c r hc ih =>
    by_cases hne : r = []
    · rw [hne, lineCount_singleton, cutLines_inner hc]
      rfl
    · have hends : ¬ endsLine (c :: r) = true := fun h =>
        hc (((endsLine_cons c r).1 h).imp_right And.left)
      rw [length_cutLines_inner hc hne, ih, lineCount_cons _ hne, if_neg hends, Nat.zero_add]

/-- A line feed behind a text that is not empty and does not end in one begins no line: it ends the
last one, or belongs to the carriage return before it. -/
theorem length_cutLines_append_lineFeed (hne : t ≠ []) (hl : t.getLast? ≠ some '\n') :
    (cutLines (t ++ ['\n'])).length = (cutLines t).length := by
  induction t using cutLines_cases with
  | nil => exact absurd rfl hne
  | pair r ih =>
    have hr : r ≠ [] := by
      rintro rfl
      exact hl rfl
    rw [List.cons_append, List.cons_append, cutLines_return_lineFeed, cutLines_return_lineFeed,
      List.length_cons, List.length_cons, ih hr]
    rwa [List.getLast?_cons_cons, List.getLast?_cons_of_ne_nil hr] at hl
  | single c r hc hr ih =>
    by_cases hre : r = []
    · subst hre
      obtain rfl : c = '\r' := hc.resolve_left fun he => hl (by rw [he]; rfl)
      decide
    · have hhead : c = '\r' → (r ++ ['\n']).head? ≠ some '\n' := by
        rw [List.head?_append_of_ne_nil _ hre]
        exact hr
      rw [List.cons_append, cutLines_end hc hhead, cutLines_end hc hr, List.length_cons,
        List.length_cons, ih hre]
      rwa [List.getLast?_cons_of_ne_nil hre] at hl
  | inner c r hc ih =>
    by_cases hre : r = []
    · subst hre
      rw [List.singleton_append, cutLines_inner hc, cutLines_inner hc]
      rfl
    · rw [List.cons_append, length_cutLines_inner hc (by simp), length_cutLines_inner hc hre,
        ih hre]
      rwa [List.getLast?_cons_of_ne_nil hre] at hl

/-- The line feed that a diff puts behind a text makes no line of its own. -/
theorem length_cutLines_terminated (h : t.getLast? ≠ some '\n') :
    (cutLines (terminated t)).length = lineCount t := by
  unfold terminated
  split
  · exact length_cutLines t
  · rename_i hne
    rw [not_or] at hne
    rw [length_cutLines_append_lineFeed hne.1 h, length_cutLines]

/-- Texts without a line feed at their end are told apart where one is put there. -/
theorem terminated_injective {s t : Text} (hs : s.getLast? ≠ some '\n')
    (ht : t.getLast? ≠ some '\n') (h : terminated s = terminated t) : s = t := by
  unfold terminated at h
  by_cases hs' : s = [] <;> by_cases ht' : t = []
  · rw [hs', ht']
  · simp [hs', ht', ht] at h
  · simp [hs', ht', hs] at h
  · simpa [hs', ht', hs, ht] using h

/-! ## 3. Lines that have ended -/

/-- Whether a text is what stands on a line, with a line end behind it. -/
structure IsLine (b l : Text) : Prop where
  noFeed : '\n' ∉ b
  noReturn : '\r' ∉ b
  ends : l = b ++ ['\n'] ∨ l = b ++ ['\r', '\n'] ∨ l = b ++ ['\r']

theorem IsLine.cons {c : Char} {b l : Text} (h : IsLine b l) (hc : ¬(c = '\n' ∨ c = '\r')) :
    IsLine (c :: b) (c :: l) := by
  rw [not_or] at hc
  refine ⟨by simp [h.noFeed, Ne.symm hc.1], by simp [h.noReturn, Ne.symm hc.2], ?_⟩
  rcases h.ends with rfl | rfl | rfl
  · exact Or.inl rfl
  · exact Or.inr (Or.inl rfl)
  · exact Or.inr (Or.inr rfl)

theorem IsLine.not_mem_dropLast {b l : Text} (h : IsLine b l) : '\n' ∉ l.dropLast := by
  rcases h.ends with rfl | rfl | rfl
  · rw [List.dropLast_concat]
    exact h.noFeed
  · rw [List.dropLast_append_of_ne_nil (by simp)]
    simpa using h.noFeed
  · rw [List.dropLast_concat]
    exact h.noFeed

/-- Of a text that ends in a line feed every line has an end. -/
theorem isLine_of_mem_cutLines {t : Text} (h : t = [] ∨ t.getLast? = some '\n') :
    ∀ l ∈ cutLines t, ∃ b, IsLine b l := by
  induction t using cutLines_cases with
  | nil => exact fun l hl => absurd hl List.not_mem_nil
  | pair r ih =>
    rw [cutLines_return_lineFeed]
    intro l hl
    rcases List.mem_cons.1 hl with rfl | hl
    · exact ⟨[], List.not_mem_nil, List.not_mem_nil, Or.inr (Or.inl rfl)⟩
    · refine ih ?_ l hl
      cases r with
      | nil => exact Or.inl rfl
      | cons x r => exact Or.inr (by simpa using h)
  | single c r hc hr ih =>
    rw [cutLines_end hc hr]
    intro l hl
    rcases List.mem_cons.1 hl with rfl | hl
    · refine ⟨[], List.not_mem_nil, List.not_mem_nil, ?_⟩
      rcases hc with rfl | rfl
      · exact Or.inl rfl
      · exact Or.inr (Or.inr rfl)
    · refine ih ?_ l hl
      cases r with
      | nil => exact Or.inl rfl
      | cons x r => exact Or.inr (by simpa using h)
  | inner c r hc ih =>
    have hlast : r.getLast? = some '\n' := by
      cases r with
      | nil => exact absurd (by simpa using h) (not_or.1 hc).1
      | cons x r => simpa using h
    rw [cutLines_inner hc]
    cases hcut : cutLines r with
    | nil =>
      rw [cutLines_eq_nil.1 hcut] at hlast
      exact absurd hlast (by simp)
    | cons k ks =>
      rw [hcut] at ih
      intro l hl
      rcases List.mem_cons.1 hl with rfl | hl
      · obtain ⟨b, hb⟩ := ih (Or.inr hlast) k List.mem_cons_self
        exact ⟨c :: b, hb.cons hc⟩
      · exact ih (Or.inr hlast) l (List.mem_cons_of_mem k hl)

theorem terminated_getLast? (t : Text) :
    terminated t = [] ∨ (terminated t).getLast? = some '\n' := by
  unfold terminated
  split
  · assumption
  · exact Or.inr (List.getLast?_concat ..)

/-! ## 4. The first difference -/

/-- No line differs exactly when the lists are the same. -/
theorem firstDifference_eq_none {n : Nat} {s t : List Text} :
    firstDifference n s t = none ↔ s = t := by
  induction s generalizing n t with
  | nil => cases t <;> simp [firstDifference]
  | cons x s ih =>
    cases t with
    | nil => simp [firstDifference]
    | cons y t => by_cases h : x = y <;> simp [firstDifference, h, ih]

-- Lists that do not begin alike differ at their first line.
theorem firstDifference_of_head? {n : Nat} {s t : List Text} (h : s.head? ≠ t.head?) :
    firstDifference n s t = some n := by
  cases s with
  | nil =>
    cases t with
    | nil => exact absurd rfl h
    | cons y t => simp [firstDifference]
  | cons x s =>
    cases t with
    | nil => simp [firstDifference]
    | cons y t =>
      have hxy : x ≠ y := fun he => h (by rw [he]; rfl)
      rw [firstDifference, if_neg hxy]

theorem exists_take_iff_of_head? {n k : Nat} {s t : List Text} (h : s.head? ≠ t.head?) :
    (∃ i, k = n + i ∧ s.take i = t.take i ∧ s[i]? ≠ t[i]?) ↔ k = n := by
  constructor
  · rintro ⟨i, rfl, ht, -⟩
    cases i with
    | zero => rfl
    | succ i =>
      have he := congrArg List.head? ht
      rw [List.head?_take, List.head?_take] at he
      exact absurd (by simpa using he) h
  · rintro rfl
    exact ⟨0, rfl, rfl, by simpa [List.head?_eq_getElem?] using h⟩

/-- The first line that differs is the one up to which all lines agree: there the lists have other
lines, or only one of them has a line. -/
theorem firstDifference_eq_some {n k : Nat} {s t : List Text} :
    firstDifference n s t = some k ↔
      ∃ i, k = n + i ∧ s.take i = t.take i ∧ s[i]? ≠ t[i]? := by
  induction s generalizing n t with
  | nil =>
    cases t with
    | nil => simp [firstDifference]
    | cons y t =>
      have h : ([] : List Text).head? ≠ (y :: t).head? := by simp
      rw [firstDifference_of_head? h, exists_take_iff_of_head? h, Option.some.injEq, eq_comm]
  | cons x s ih =>
    by_cases h : (x :: s).head? = t.head?
    · obtain ⟨t, rfl⟩ := List.head?_eq_some_iff.1 h.symm
      rw [firstDifference, if_pos rfl, ih]
      constructor
      · rintro ⟨i, rfl, ht, hi⟩
        exact ⟨i + 1, by omega, by simpa using ht, by simpa using hi⟩
      · rintro ⟨i, rfl, ht, hi⟩
        cases i with
        | zero => exact absurd rfl hi
        | succ i => exact ⟨i, by omega, by simpa using ht, by simpa using hi⟩
    · rw [firstDifference_of_head? h, exists_take_iff_of_head? h, Option.some.injEq, eq_comm]

end Baselines.Diff
