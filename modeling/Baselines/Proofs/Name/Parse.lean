import Baselines.Name
import Baselines.Proofs.Text.Pieces

/-!
# What a name is read from

A file name that is read as the name of a baseline ends in one of the extensions, and before that in
what the name says of its stage and its variant.
-/

namespace Baselines.Name

open Text

/-! ## 1. Pieces at the end -/

section Peel

variable {α : Type} {read : Text → Option α} {stem front : Text} {a : Option α}

-- A piece at the end of a stem is taken off when it says something.
theorem peel_eq (h : peel read stem = (front, a)) :
    (a = none ∧ front = stem) ∨
      ∃ piece, stem = front ++ '.' :: piece ∧ '.' ∉ piece ∧ read piece = a ∧ a ≠ none := by
  unfold peel at h
  cases hs : splitLast? '.' stem with
  | none =>
    simp only [hs, Prod.mk.injEq] at h
    exact Or.inl ⟨h.2.symm, h.1.symm⟩
  | some p =>
    obtain ⟨f, piece⟩ := p
    simp only [hs] at h
    cases hr : read piece with
    | none =>
      simp only [hr, Prod.mk.injEq] at h
      exact Or.inl ⟨h.2.symm, h.1.symm⟩
    | some b =>
      simp only [hr, Prod.mk.injEq] at h
      obtain ⟨rfl, rfl⟩ := h
      obtain ⟨he, hn⟩ := splitLast?_eq_some hs
      exact Or.inr ⟨piece, he, hn, hr, by simp⟩

theorem mem_of_mem_peel (h : peel read stem = (front, a)) {c : Char} (hc : c ∈ front) :
    c ∈ stem := by
  rcases peel_eq h with ⟨-, rfl⟩ | ⟨piece, rfl, -⟩
  · exact hc
  · exact List.mem_append_left _ hc

end Peel

/-! ## 2. Options -/

/-- Items between commas, and the options they list: a blank one lists none, and any other one is
cut at its first `=`. Blanks around the key and around the value do not count. -/
inductive Lists : List Text → List (Text × Text) → Prop
  | nil : Lists [] []
  | blank {raw : Text} {raws : List Text} {os : List (Text × Text)} (hraw : trim raw = [])
      (h : Lists raws os) : Lists (raw :: raws) os
  | item {raw key value : Text} {raws : List Text} {os : List (Text × Text)}
      (hraw : trim raw = key ++ '=' :: value) (hkey : '=' ∉ key) (h : Lists raws os) :
      Lists (raw :: raws) ((trim key, trim value) :: os)

theorem readOptions_eq_ok {name : Text} {raws : List Text} {os : List (Text × Text)} :
    readOptions name raws = .ok os ↔ Lists raws os := by
  constructor
  · intro h
    induction raws generalizing os with
    | nil =>
      obtain rfl : [] = os := Except.ok.inj h
      exact .nil
    | cons raw raws ih =>
      rw [readOptions] at h
      split at h
      · rename_i hraw
        exact .blank hraw (ih h)
      · cases hs : splitFirst? '=' (trim raw) with
        | none => simp [hs] at h
        | some p =>
          obtain ⟨he, hk⟩ := splitFirst?_eq_some hs
          cases hr : readOptions name raws with
          | error e => simp [hs, hr, Except.map] at h
          | ok os' =>
            obtain rfl : (trim p.1, trim p.2) :: os' = os := by simpa [hs, hr, Except.map] using h
            exact .item he hk (ih hr)
  · intro h
    induction h with
    | nil => rfl
    | blank hraw _ ih => simp only [readOptions, hraw, if_true, ih]
    | item hraw hkey _ ih =>
      simp [readOptions, hraw, splitFirst?_append hkey, ih, Except.map]

/-! ## 3. Stems -/

theorem splitStem_ok {name stem test : Text} {options : List (Text × Text)}
    (h : splitStem name stem = .ok (test, options)) :
    (test = stem ∧ options = [] ∧ '(' ∉ stem ∧ ')' ∉ stem) ∨
      ∃ inner, stem = test ++ '(' :: (inner ++ [')']) ∧ '(' ∉ test ∧ '(' ∉ inner ∧ ')' ∉ inner ∧
        readOptions name (splitOn ',' inner) = .ok options := by
  unfold splitStem at h
  cases hs : splitFirst? '(' stem with
  | none =>
    simp only [hs] at h
    split at h
    · exact absurd h (by simp)
    · rename_i hc
      simp only [Except.ok.injEq, Prod.mk.injEq] at h
      exact Or.inl ⟨h.1.symm, h.2.symm, splitFirst?_eq_none.1 hs, hc⟩
  | some p =>
    obtain ⟨front, tail⟩ := p
    simp only [hs] at h
    obtain ⟨he, hn⟩ := splitFirst?_eq_some hs
    cases ht : dropTail? [')'] tail with
    | none => simp [ht] at h
    | some inner =>
      simp only [ht] at h
      split at h
      · exact absurd h (by simp)
      · rename_i hc
        rw [not_or] at hc
        cases hr : readOptions name (splitOn ',' inner) with
        | error e => simp [hr, Except.map] at h
        | ok os =>
          simp only [hr, Except.map, Except.ok.injEq, Prod.mk.injEq] at h
          obtain ⟨rfl, rfl⟩ := h
          exact Or.inr ⟨inner, dropTail?_eq_some.1 ht ▸ he, hn, hc.1, hc.2, hr⟩

theorem mem_of_mem_splitStem {name stem test : Text} {options : List (Text × Text)}
    (h : splitStem name stem = .ok (test, options)) {c : Char} (hc : c ∈ test) : c ∈ stem := by
  rcases splitStem_ok h with ⟨rfl, -⟩ | ⟨inner, rfl, -⟩
  · exact hc
  · exact List.mem_append_left _ hc

/-! ## 4. Names -/

/-- A file name is read as a name exactly when it is made of the parts of the name. -/
theorem parse_eq_ok {t : Text} {n : Name} : parse t = .ok n ↔ ∃ stem staged varied,
    splitLast? '.' t = some (stem, n.extension) ∧ n.extension ∈ extensions ∧
      peel stage? stem = (staged, n.stage) ∧ peel variant? staged = (varied, n.variant) ∧
      splitStem t varied = .ok (n.test, n.options) ∧ n.test ≠ [] := by
  constructor
  · intro h
    unfold parse at h
    simp only [bind, Except.bind] at h
    split at h
    · exact absurd h (by simp)
    · rename_i hext
      have hext : (((splitLast? '.' t).getD (t, [])).2 ∈ extensions) := by simpa using hext
      split at h
      · exact absurd h (by simp)
      · rename_i p hp
        split at h
        · exact absurd h (by simp)
        · rename_i htest
          obtain rfl := Except.ok.inj h
          cases hs : splitLast? '.' t with
          | none =>
            rw [hs] at hext
            exact absurd hext (by simp [extensions])
          | some q =>
            rw [hs] at hext hp
            exact ⟨q.1, _, _, rfl, hext, rfl, rfl, hp, htest⟩
  · rintro ⟨stem, staged, varied, ht, he, hstage, hvariant, hstem, hne⟩
    unfold parse
    simp only [ht, Option.getD_some, List.contains_eq_mem, he, decide_true, Bool.not_true,
      Bool.false_eq_true, if_false, hstage, hvariant, hstem, bind, Except.bind, if_neg hne]

theorem mem_of_mem_test {t : Text} {n : Name} (h : parse t = .ok n) {c : Char} (hc : c ∈ n.test) :
    c ∈ t := by
  obtain ⟨stem, staged, varied, ht, -, hstage, hvariant, hstem, -⟩ := parse_eq_ok.1 h
  have hm := mem_of_mem_peel hstage (mem_of_mem_peel hvariant (mem_of_mem_splitStem hstem hc))
  rw [(splitLast?_eq_some ht).1]
  exact List.mem_append_left _ hm

end Baselines.Name
