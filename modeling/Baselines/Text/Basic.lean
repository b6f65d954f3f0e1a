/-!
# Texts

A text is the list of its characters, so that everything said about texts is said about lists.
A string literal stands for its text.
-/

namespace Baselines

/-- A text, as the list of its characters. -/
abbrev Text := List Char

instance : Coe String Text := ⟨String.toList⟩

namespace Text

/-! ## 1. Cutting at a character -/

/-- The parts before and after the first `c`. -/
def splitFirst? (c : Char) : Text → Option (Text × Text)
  | [] => none
  | x :: r => if x = c then some ([], r) else (splitFirst? c r).map fun p => (x :: p.1, p.2)

/-- The parts before and after the last `c`. -/
def splitLast? (c : Char) : Text → Option (Text × Text)
  | [] => none
  | x :: r =>
    match splitLast? c r with
    | some p => some (x :: p.1, p.2)
    | none => if x = c then some ([], r) else none

/-- The pieces between the occurrences of `c`; one more than there are of them. -/
def splitOn {α : Type} [DecidableEq α] (c : α) : List α → List (List α)
  | [] => [[]]
  | x :: r =>
    if x = c then [] :: splitOn c r
    else match splitOn c r with
      | [] => [[x]]
      | p :: ps => (x :: p) :: ps

/-- The texts one after the other, with `sep` between neighbours. -/
def join {α : Type} (sep : List α) : List (List α) → List α
  | [] => []
  | [t] => t
  | t :: u :: r => t ++ (sep ++ join sep (u :: r))

theorem splitFirst?_eq_some {c : Char} {t a b : Text} (h : splitFirst? c t = some (a, b)) :
    t = a ++ c :: b ∧ c ∉ a := by
  induction t generalizing a b with
  | nil => simp [splitFirst?] at h
  | cons x r ih =>
    by_cases hx : x = c
    · simp [splitFirst?, hx] at h
      obtain ⟨rfl, rfl⟩ := h
      simp [hx]
    · simp only [splitFirst?, hx, if_false, Option.map_eq_some_iff] at h
      obtain ⟨⟨a', b'⟩, hr, he⟩ := h
      simp only [Prod.mk.injEq] at he
      obtain ⟨rfl, rfl⟩ := he
      obtain ⟨rfl, hn⟩ := ih hr
      exact ⟨rfl, by simp [hn, Ne.symm hx]⟩

theorem splitFirst?_eq_none {c : Char} {t : Text} : splitFirst? c t = none ↔ c ∉ t := by
  induction t with
  | nil => simp [splitFirst?]
  | cons x r ih =>
    by_cases hx : x = c
    · simp [splitFirst?, hx]
    · simp [splitFirst?, hx, ih, Ne.symm hx]

theorem splitLast?_eq_none {c : Char} {t : Text} : splitLast? c t = none ↔ c ∉ t := by
  induction t with
  | nil => simp [splitLast?]
  | cons x r ih =>
    cases h : splitLast? c r with
    | some p =>
      have hr : c ∈ r := Classical.byContradiction fun hn => by
        have := ih.2 hn
        simp [h] at this
      simp [splitLast?, h, hr]
    | none =>
      have hr : c ∉ r := ih.1 h
      by_cases hx : x = c
      · simp [splitLast?, h, hx]
      · simp [splitLast?, h, hx, hr, Ne.symm hx]

theorem splitLast?_eq_some {c : Char} {t a b : Text} (h : splitLast? c t = some (a, b)) :
    t = a ++ c :: b ∧ c ∉ b := by
  induction t generalizing a b with
  | nil => simp [splitLast?] at h
  | cons x r ih =>
    cases hr : splitLast? c r with
    | some p =>
      obtain ⟨a', b'⟩ := p
      simp only [splitLast?, hr, Option.some.injEq, Prod.mk.injEq] at h
      obtain ⟨rfl, rfl⟩ := h
      obtain ⟨rfl, hn⟩ := ih hr
      exact ⟨rfl, hn⟩
    | none =>
      by_cases hx : x = c
      · simp [splitLast?, hr, hx] at h
        obtain ⟨rfl, rfl⟩ := h
        exact ⟨by simp [hx], splitLast?_eq_none.1 hr⟩
      · simp [splitLast?, hr, hx] at h

theorem splitOn_ne_nil {α : Type} [DecidableEq α] (c : α) (t : List α) : splitOn c t ≠ [] := by
  cases t with
  | nil => simp [splitOn]
  | cons x r =>
    by_cases hx : x = c
    · simp [splitOn, hx]
    · cases h : splitOn c r <;> simp [splitOn, hx, h]

/-- Joining the pieces with the character they were cut at gives the text back. -/
theorem join_splitOn {α : Type} [DecidableEq α] (c : α) (t : List α) :
    join [c] (splitOn c t) = t := by
  induction t with
  | nil => rfl
  | cons x r ih =>
    cases h : splitOn c r with
    | nil => exact absurd h (splitOn_ne_nil c r)
    | cons p ps =>
      rw [h] at ih
      by_cases hx : x = c
      · simp [splitOn, hx, h, join, ih]
      · cases ps with
        | nil => simp [splitOn, hx, h, join] at ih ⊢; exact ih
        | cons q qs => simp [splitOn, hx, h, join] at ih ⊢; exact ih

/-! ## 2. Finding and replacing -/

/-- The text after `p`, where it begins with `p`. -/
def dropLead? : Text → Text → Option Text
  | [], t => some t
  | _ :: _, [] => none
  | c :: p, x :: t => if c = x then dropLead? p t else none

/-- The text before `s`, where it ends with `s`. -/
def dropTail? (s t : Text) : Option Text :=
  (dropLead? s.reverse t.reverse).map List.reverse

def startsWith (t p : Text) : Bool := (dropLead? p t).isSome

def endsWith (t s : Text) : Bool := (dropTail? s t).isSome

/-- Whether `p` stands somewhere in the text. -/
def hasPart (p : Text) : Text → Bool
  | [] => p.isEmpty
  | x :: t => startsWith (x :: t) p || hasPart p t

-- The text with every `p`, found from left to right and without overlap, replaced by `new`. The
-- first argument counts the characters of the last find that are still to be passed over.
def replaceFrom (p new : Text) : Nat → Text → Text
  | _, [] => []
  | n + 1, _ :: t => replaceFrom p new n t
  | 0, x :: t =>
    if startsWith (x :: t) p then new ++ replaceFrom p new (p.length - 1) t
    else x :: replaceFrom p new 0 t

def replace (p new t : Text) : Text := replaceFrom p new 0 t

theorem dropLead?_eq_some {p t r : Text} : dropLead? p t = some r ↔ t = p ++ r := by
  induction p generalizing t with
  | nil => simp [dropLead?]
  | cons c p ih =>
    cases t with
    | nil => simp [dropLead?]
    | cons x t =>
      by_cases hx : c = x
      · subst hx
        simp [dropLead?, ih]
      · simp [dropLead?, hx, Ne.symm hx]

theorem dropTail?_eq_some {s t r : Text} : dropTail? s t = some r ↔ t = r ++ s := by
  unfold dropTail?
  rw [Option.map_eq_some_iff]
  constructor
  · rintro ⟨k, hk, rfl⟩
    have h := congrArg List.reverse (dropLead?_eq_some.1 hk)
    rwa [List.reverse_reverse, List.reverse_append, List.reverse_reverse] at h
  · rintro rfl
    exact ⟨r.reverse, dropLead?_eq_some.2 List.reverse_append, List.reverse_reverse r⟩

/-! ## 3. ASCII letters and digits -/

/-- The text with its ASCII capitals in lower case. -/
def lowerAscii (t : Text) : Text := t.map Char.toLower

/-- Whether two texts are the same but for the case of ASCII letters. -/
def sameAscii (s t : Text) : Bool := lowerAscii s = lowerAscii t

def digitValue (c : Char) : Nat := c.toNat - 48

/-- The number written by decimal digits only. -/
def number? (t : Text) : Option Nat :=
  if t ≠ [] ∧ t.all Char.isDigit then some (t.foldl (fun n c => 10 * n + digitValue c) 0) else none

def ofNat (n : Nat) : Text := Nat.toDigits 10 n

def hexValue? (c : Char) : Option Nat :=
  if c.isDigit then some (c.toNat - 48)
  else if 'a' ≤ c ∧ c ≤ 'f' then some (c.toNat - 87)
  else if 'A' ≤ c ∧ c ≤ 'F' then some (c.toNat - 55)
  else none

/-! ## 4. Trailing characters -/

def dropEndWhile (p : Char → Bool) (t : Text) : Text := (t.reverse.dropWhile p).reverse

/-- The order of texts by their characters, which is also the order of their UTF-8 bytes. -/
def before : Text → Text → Bool
  | [], _ => true
  | _ :: _, [] => false
  | x :: s, y :: t => x < y || (x = y && before s t)

end Text

end Baselines
