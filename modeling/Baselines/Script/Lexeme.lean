import Baselines.Script.Blank

/-!
# Words, numbers and literals

How far a word, a number, a string, a regular expression or a part of a template reaches. Each
function gives the length of the longest one that a text begins with.
-/

namespace Baselines.Script

/-! ## 1. Words -/

/-- Whether a character may stand in a word: ASCII letters, digits, `$` and `_`, and whatever lies
beyond ASCII and is not blank. -/
def isWordChar (c : Char) : Bool :=
  c.isAlphanum || c == '$' || c == '_' || (0x7F ≤ c.toNat && !isBlank c)

-- The length of an escaped character in a word: `\u` and four digits, or digits in braces.
def wordEscape? : Text → Option Nat
  | '\\' :: 'u' :: '{' :: r =>
    let ds := r.takeWhile fun c => (Text.hexValue? c).isSome
    if ds ≠ [] ∧ (r.drop ds.length).head? = some '}' then some (4 + ds.length) else none
  | '\\' :: 'u' :: r =>
    if 4 ≤ r.length ∧ (r.take 4).all fun c => (Text.hexValue? c).isSome then some 6 else none
  | _ => none

-- The length of the word characters and escapes; the first argument bounds their number.
def wordTail : Nat → Text → Nat
  | 0, _ => 0
  | _, [] => 0
  | n + 1, c :: r =>
    if isWordChar c then wordTail n r + 1
    else match wordEscape? (c :: r) with
      | some k => wordTail n ((c :: r).drop k) + k
      | none => 0

/-- The length of the word that a text begins with; a word does not begin with a digit. -/
def wordLength? (t : Text) : Option Nat :=
  match t with
  | [] => none
  | c :: _ =>
    let n := if c.isDigit then 0 else wordTail t.length t
    if n = 0 then none else some n

/-- The words that are no identifiers. -/
def reserved : List Text :=
  (["break", "case", "catch", "class", "const", "continue", "debugger", "default", "delete", "do",
    "else", "extends", "false", "finally", "for", "function", "if", "import", "in", "instanceof",
    "new", "null", "return", "super", "switch", "this", "throw", "true", "try", "typeof", "var",
    "void", "while", "with"] : List String).map String.toList

/-! ## 2. Numbers -/

-- The length of digits in which single underscores may stand between two digits.
def digitRun (isDigit : Char → Bool) : Text → Nat
  | '_' :: _ => 0
  | t => go t
where
  /-- The length of the digits, where an underscore is allowed first. -/
  go : Text → Nat
    | [] => 0
    | '_' :: c :: r => if isDigit c then go r + 2 else 0
    | c :: r => if isDigit c then go r + 1 else 0

def exponentLength : Text → Nat
  | e :: r =>
    if e == 'e' || e == 'E' then
      let sign := if r.head? = some '+' ∨ r.head? = some '-' then 1 else 0
      let n := digitRun Char.isDigit (r.drop sign)
      if n = 0 then 0 else 1 + sign + n
    else 0
  | [] => 0

-- Whether digits may have a point or an exponent after them: they do not begin with a zero, unless
-- they are a zero alone or the second digit is none.
def takesPoint (digits : Text) : Bool :=
  match digits with
  | ['0'] => true
  | '0' :: c :: _ => c.isDigit && c ≠ '0'
  | _ => true

-- The length of a whole number in a base with a mark, with the sign of a big number.
def radixLength (isDigit : Char → Bool) (digits : Text) : Nat :=
  let n := digitRun isDigit digits
  if n = 0 then 0 else 2 + n + (if (digits.drop n).head? = some 'n' then 1 else 0)

def decimalLength (t : Text) : Nat :=
  let n := digitRun Char.isDigit t
  let rest := t.drop n
  if n = 0 then
    match t with
    | '.' :: r =>
      let k := digitRun Char.isDigit r
      if k = 0 then 0 else 1 + k + exponentLength (r.drop k)
    | _ => 0
  else if rest.head? = some 'n' then n + 1
  else if takesPoint (t.take n) then
    match rest with
    | '.' :: r =>
      let k := digitRun Char.isDigit r
      n + 1 + k + exponentLength (r.drop k)
    | _ => n + exponentLength rest
  else n

def numberLength? (t : Text) : Option Nat :=
  let special :=
    match t with
    | '0' :: x :: r =>
      if x == 'x' || x == 'X' then radixLength (fun c => (Text.hexValue? c).isSome) r
      else if x == 'b' || x == 'B' then radixLength (fun c => c == '0' || c == '1') r
      else if x == 'o' || x == 'O' then radixLength (fun c => '0' ≤ c && c ≤ '7') r
      else 0
    | _ => 0
  let n := max special (decimalLength t)
  if n = 0 then none else some n

/-! ## 3. Escapes -/

def escapeLength? : Text → Option Nat
  | '\\' :: 'x' :: a :: b :: _ =>
    if (Text.hexValue? a).isSome && (Text.hexValue? b).isSome then some 4 else none
  | '\\' :: 'x' :: _ => none
  | '\\' :: 'u' :: r => wordEscape? ('\\' :: 'u' :: r)
  | '\\' :: c :: r =>
    if '0' ≤ c ∧ c ≤ '7' then
      some (2 + ((r.take 2).takeWhile fun c => '0' ≤ c && c ≤ '7').length)
    else if (c = '\r' ∨ c = '?') ∧ r.head?.any isLineEnd then some 3
    else some 2
  | _ => none

/-! ## 4. Strings -/

/-- The length of a string after its opening quote, the closing quote included. Line ends and what
follows them may be blanks and comments before the closing quote only. The first argument bounds the
number of steps. -/
def stringTail (quote : Char) : Nat → Text → Option Nat
  | 0, _ => none
  | _, [] => none
  | n + 1, c :: r =>
    if c = quote then some 1
    else if c = '\\' then do
      let k ← escapeLength? (c :: r)
      (stringTail quote n ((c :: r).drop k)).map (· + k)
    else if c = '\n' ∨ c = '\r' then
      let blanks := ((c :: r).takeWhile isBlank).length
      let rest := (c :: r).drop blanks
      if rest.head? = some quote then some (blanks + 1)
      else do
        let k ← commentLength? rest
        (stringTail quote n (rest.drop k)).map (· + blanks + k)
    else (stringTail quote n r).map (· + 1)

def stringLength? : Text → Option Nat
  | c :: r => if c = '"' ∨ c = '\'' then (stringTail c (r.length + 1) r).map (· + 1) else none
  | [] => none

/-! ## 5. Regular expressions -/

-- The length of a regular expression from within, up to its closing slash; `inClass` says that a
-- class of characters is open.
def regexTail : Bool → Text → Option Nat
  | _, [] => none
  | inClass, '\\' :: c :: r =>
    if c = '\n' then none else (regexTail inClass r).map (· + 2)
  | true, c :: r =>
    if c = '\n' ∨ c = '\\' then none
    else (regexTail (c ≠ ']') r).map (· + 1)
  | false, c :: r =>
    if c = '/' then some 1
    else if c = '\n' ∨ c = '\\' then none
    else (regexTail (c = '[') r).map (· + 1)

/-- The length of the regular expression that a text begins with, its flags included. -/
def regexLength? : Text → Option Nat
  | '/' :: c :: r =>
    if c = '/' ∨ c = '*' then none
    else (regexTail false (c :: r)).map fun k =>
      k + 1 + (((c :: r).drop k).takeWhile fun c => 'a' ≤ c && c ≤ 'z').length
  | _ => none

/-! ## 6. Templates and elements -/

/-- The length of the literal characters of a template up to an escape, a substitution or its
end. -/
def templateRun : Text → Nat
  | [] => 0
  | '$' :: '{' :: _ => 0
  | c :: r => if c = '\x60' ∨ c = '\\' then 0 else templateRun r + 1

/-- The length of the text between elements, unless there is nothing but white space that begins
with a line end. -/
def jsxTextLength? (t : Text) : Option Nat :=
  let text := t.takeWhile fun c => c ∉ (['<', '>', '{', '}', '&'] : Text)
  if go false text then some text.length else none
where
  /-- Whether there is something to see; `fresh` says that only white space stands after the last
  line end. -/
  go (fresh : Bool) : Text → Bool
    | [] => false
    | c :: r =>
      if c = '\n' then go true r
      else if fresh && isSpace c then go true r
      else true

/-- The length of the character reference that a text begins with. -/
def referenceLength? : Text → Option Nat
  | '&' :: '#' :: r =>
    let hex := r.head? = some 'x' ∨ r.head? = some 'X'
    let ds := if hex then (r.drop 1).takeWhile fun c => (Text.hexValue? c).isSome
      else r.takeWhile Char.isDigit
    let lead := if hex then 1 else 0
    if 1 ≤ ds.length ∧ ds.length ≤ (if hex then 6 else 5) ∧
        (r.drop (lead + ds.length)).head? = some ';' then
      some (3 + lead + ds.length)
    else none
  | '&' :: r =>
    let ls := r.takeWhile Char.isAlpha
    if 1 ≤ ls.length ∧ ls.length ≤ 30 ∧ (r.drop ls.length).head? = some ';' then
      some (2 + ls.length)
    else none
  | _ => none

-- The length of the value of an attribute after its opening quote, the closing quote included. The
-- first argument bounds the number of steps.
def jsxStringTail (quote : Char) : Nat → Text → Option Nat
  | 0, _ => none
  | _, [] => none
  | n + 1, '&' :: r =>
    match referenceLength? ('&' :: r) with
    | some k => (jsxStringTail quote n (('&' :: r).drop k)).map (· + k)
    | none =>
      match r with
      | c :: r => if c = '#' ∨ c.isAlpha then none else (jsxStringTail quote n r).map (· + 2)
      | [] => none
  | n + 1, c :: r => if c = quote then some 1 else (jsxStringTail quote n r).map (· + 1)

/-- The length of the quoted value of an attribute that a text begins with. -/
def jsxStringLength? : Text → Option Nat
  | c :: r => if c = '"' ∨ c = '\'' then (jsxStringTail c (r.length + 1) r).map (· + 1) else none
  | [] => none

/-- The length of the name of an element or attribute: a word, or an ASCII word with hyphens. -/
def jsxNameLength? (t : Text) : Option Nat :=
  let plain := fun (c : Char) => c.isAlphanum || c == '$' || c == '_'
  let lead := (t.takeWhile plain).length
  let hyphened :=
    match t with
    | c :: _ =>
      if !c.isDigit && 0 < lead && (t.drop lead).head? = some '-' then
        (t.takeWhile fun c => plain c || c == '-').length
      else 0
    | [] => 0
  if 0 < hyphened then some hyphened else wordLength? t

end Baselines.Script
