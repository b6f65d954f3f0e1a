import Baselines.Json.Reader
import Baselines.Proofs.Text.Pieces

/-!
# The grammar of JSON texts

JSON values as they are written, with the blanks between their marks and the escapes in their
strings. An object is known by its fields in order, of which a name may come twice.
-/

namespace Baselines.Json

/-! ## 1. Blanks and strings -/

def isGap (c : Char) : Bool := c == ' ' || c == '\n' || c == '\t' || c == '\r'

/-- Blanks that stand between marks. -/
abbrev Gap := { t : Text // ∀ c ∈ t, isGap c = true }

def noGap : Gap := ⟨[], by simp⟩

theorem noGap_append (t : Text) : noGap ++ t = t := rfl

/-- The number of four hexadecimal digits. -/
def hexCode? (digits : Text) : Option Nat :=
  if digits.length = 4 then
    (digits.mapM Text.hexValue?).map fun ds => ds.foldl (fun n d => 16 * n + d) 0
  else none

-- Whether a character stands for itself in a string.
def isPlain (c : Char) : Bool := c != '"' && c != '\\' && decide (32 ≤ c.toNat)

theorem isPlain_iff {c : Char} : isPlain c = true ↔ c ≠ '"' ∧ c ≠ '\\' ∧ 32 ≤ c.toNat := by
  simp [isPlain, and_assoc]

/-- A character of a string as it is written: itself, behind a reverse solidus, or by a number that
may also be one half of a pair. -/
inductive Piece where
  | plain (c : Char) (h : isPlain c = true)
  | short (c x : Char) (h : Reader.simpleEscape? c = some x)
  | code (digits : Text) (n : Nat) (h : hexCode? digits = some n)

def Piece.text : Piece → Text
  | plain c _ => [c]
  | short c _ _ => ['\\', c]
  | code digits _ _ => '\\' :: 'u' :: digits

-- Whether a number is the first half of a pair, or the second one.
def isHigh (n : Nat) : Bool := 0xD800 ≤ n && n < 0xDC00

def isLow (n : Nat) : Bool := 0xDC00 ≤ n && n < 0xE000

/-- The text that a string stands for; none if a half of a pair stands alone. -/
def denoted? : List Piece → Option Text
  | [] => some []
  | .plain c _ :: r => (denoted? r).map (c :: ·)
  | .short _ x _ :: r => (denoted? r).map (x :: ·)
  | .code _ n _ :: r =>
    if isLow n then none
    else if isHigh n then
      match r with
      | .code _ m _ :: r =>
        if isLow m then
          (denoted? r).map (Char.ofNat (0x10000 + (n - 0xD800) * 1024 + (m - 0xDC00)) :: ·)
        else none
      | _ => none
    else (denoted? r).map (Char.ofNat n :: ·)

/-- A string up to its closing quote. -/
def quoted (ps : List Piece) : Text := '"' :: (ps.flatMap Piece.text ++ ['"'])

/-- A text written without escapes. -/
def unescaped (t : Text) (h : t.all isPlain = true) : List Piece :=
  t.attach.map fun c => .plain c.1 (List.all_eq_true.1 h c.1 c.2)

/-! ## 2. Numbers -/

def IsDigits (t : Text) : Prop := t ≠ [] ∧ ∀ c ∈ t, c.isDigit = true

/-- A number as it is written. -/
structure Numeral where
  negative : Bool
  whole : Text
  fraction : Option Text
  /-- The letter, the sign and the digits of the exponent. -/
  exponent : Option (Char × Option Char × Text)
  whole_valid : whole = ['0'] ∨ IsDigits whole ∧ whole.head? ≠ some '0'
  fraction_valid : ∀ ds ∈ fraction, IsDigits ds
  exponent_valid : ∀ e ∈ exponent, (e.1 = 'e' ∨ e.1 = 'E') ∧
    (∀ sign ∈ e.2.1, sign = '+' ∨ sign = '-') ∧ IsDigits e.2.2

namespace Numeral

def fractionText (n : Numeral) : Text := n.fraction.elim [] ('.' :: ·)

def exponentText (n : Numeral) : Text :=
  n.exponent.elim [] fun e => e.1 :: (e.2.1.toList ++ e.2.2)

def text (n : Numeral) : Text :=
  (if n.negative then ['-'] else []) ++ (n.whole ++ (n.fractionText ++ n.exponentText))

end Numeral

/-! ## 3. Values -/

/-- An item of an array, with the blanks around it. -/
structure Item where
  before : Gap
  value : Text
  after : Gap

/-- A field of an object, with the blanks around its name and its value. -/
structure Member where
  before : Gap
  name : List Piece
  middle : Gap
  lead : Gap
  value : Text
  after : Gap

def Item.text (x : Item) : Text := x.before ++ (x.value ++ x.after.1)

/-- The key of a field. -/
def Member.key? (m : Member) : Option Text := denoted? m.name

-- A field from its colon on.
def Member.tail (m : Member) : Text := m.middle ++ (':' :: (m.lead ++ (m.value ++ m.after.1)))

def Member.text (m : Member) : Text := m.before ++ (quoted m.name ++ m.tail)

/-- Parts between two brackets, with commas between neighbours. -/
def bracketed (first last : Char) (gap : Gap) (parts : List Text) : Text :=
  first :: ((if parts = [] then gap.1 else Text.join [','] parts) ++ [last])

/-- The array of the items; the gap stands in an empty one. -/
def arrayText (gap : Gap) (xs : List Item) : Text := bracketed '[' ']' gap (xs.map Item.text)

/-- The object of the fields; the gap stands in an empty one. -/
def objectText (gap : Gap) (ms : List Member) : Text := bracketed '{' '}' gap (ms.map Member.text)

/-- Whether a text is a JSON value, without blanks around it. -/
inductive IsValue : Text → Prop where
  | null : IsValue "null"
  | bool (b : Bool) : IsValue (if b then "true" else "false")
  | number (n : Numeral) : IsValue n.text
  | string (ps : List Piece) : IsValue (quoted ps)
  | array (gap : Gap) (xs : List Item) (h : ∀ x ∈ xs, IsValue x.value) :
      IsValue (arrayText gap xs)
  | object (gap : Gap) (ms : List Member) (h : ∀ m ∈ ms, IsValue m.value) :
      IsValue (objectText gap ms)

/-! ## 4. First characters -/

namespace Numeral

theorem exists_whole (n : Numeral) : ∃ c r, n.whole = c :: r ∧ c.isDigit = true := by
  rcases n.whole_valid with h | ⟨⟨hne, hd⟩, -⟩
  · exact ⟨'0', [], h, rfl⟩
  · obtain ⟨c, r, hw⟩ := List.exists_cons_of_ne_nil hne
    exact ⟨c, r, hw, hd c (by simp [hw])⟩

theorem exists_text (n : Numeral) :
    ∃ c r, n.text = c :: r ∧ (c = '-' ∨ c.isDigit = true) := by
  rw [text]
  cases n.negative with
  | true => exact ⟨'-', _, rfl, .inl rfl⟩
  | false =>
    obtain ⟨c, r, hw, hc⟩ := n.exists_whole
    exact ⟨c, r ++ (n.fractionText ++ n.exponentText), by rw [hw]; rfl, .inr hc⟩

theorem afterWhole_cases (n : Numeral) : n.fractionText ++ n.exponentText = [] ∨
    ∃ c r, n.fractionText ++ n.exponentText = c :: r ∧ (c = '.' ∨ c = 'e' ∨ c = 'E') := by
  rw [fractionText, exponentText]
  rcases n.fraction with _ | ds
  · rcases he : n.exponent with _ | ⟨c, sign, ds⟩
    · exact .inl rfl
    · exact .inr ⟨c, _, rfl, .inr (n.exponent_valid _ he).1⟩
  · exact .inr ⟨'.', _, rfl, .inl rfl⟩

end Numeral

/-- What a value is by its first character. -/
structure Starts (c : Char) (v : Text) : Prop where
  valid : IsValue v
  head : ∃ r, v = c :: r
  gap : isGap c = false := by simp [isGap]
  null : c = 'n' → v = "null" := by simp
  yes : c = 't' → v = "true" := by simp
  no : c = 'f' → v = "false" := by simp
  number : c = '-' ∨ c.isDigit = true → ∃ n : Numeral, v = n.text := by simp
  string : c = '"' → ∃ ps, v = quoted ps := by simp
  array : c = '[' → ∃ gap xs, v = arrayText gap xs ∧ ∀ x ∈ xs, IsValue x.value := by simp
  object : c = '{' → ∃ gap ms, v = objectText gap ms ∧ ∀ m ∈ ms, IsValue m.value := by simp
  notEnd : c ≠ ']' := by simp

theorem IsValue.starts {v : Text} (h : IsValue v) : ∃ c, Starts c v := by
  cases h with
  | null => exact ⟨'n', { valid := .null, head := ⟨"ull", rfl⟩, null := fun _ => rfl }⟩
  | bool b =>
    cases b with
    | true => exact ⟨'t', { valid := .bool true, head := ⟨"rue", rfl⟩, yes := fun _ => rfl }⟩
    | false => exact ⟨'f', { valid := .bool false, head := ⟨"alse", rfl⟩, no := fun _ => rfl }⟩
  | number n =>
    obtain ⟨c, r, hn, hc⟩ := n.exists_text
    have hne (d : Char) (hd : d ≠ '-' ∧ d.isDigit = false) : c ≠ d := by
      rintro rfl
      simp [hd] at hc
    exact ⟨c, {
      valid := .number n
      head := ⟨r, hn⟩
      notEnd := hne _ (by decide)
      gap := by
        simp [isGap, hne ' ' (by decide), hne '\n' (by decide), hne '\t' (by decide),
          hne '\r' (by decide)]
      null := fun h => absurd h (hne _ (by decide))
      yes := fun h => absurd h (hne _ (by decide))
      no := fun h => absurd h (hne _ (by decide))
      number := fun _ => ⟨n, rfl⟩
      string := fun h => absurd h (hne _ (by decide))
      array := fun h => absurd h (hne _ (by decide))
      object := fun h => absurd h (hne _ (by decide)) }⟩
  | string ps =>
    exact ⟨'"', { valid := .string ps, head := ⟨_, rfl⟩, string := fun _ => ⟨ps, rfl⟩ }⟩
  | array gap xs h =>
    exact ⟨'[', {
      valid := .array gap xs h
      head := ⟨_, rfl⟩
      array := fun _ => ⟨gap, xs, rfl, h⟩ }⟩
  | object gap ms h =>
    exact ⟨'{', {
      valid := .object gap ms h
      head := ⟨_, rfl⟩
      object := fun _ => ⟨gap, ms, rfl, h⟩ }⟩

theorem IsValue.exists_head {v : Text} (h : IsValue v) :
    ∃ c r, v = c :: r ∧ isGap c = false ∧ c ≠ ']' := by
  obtain ⟨c, hc⟩ := h.starts
  obtain ⟨r, hr⟩ := hc.head
  exact ⟨c, r, hr, hc.gap, hc.notEnd⟩

end Baselines.Json
