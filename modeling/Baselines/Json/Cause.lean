import Baselines.Json.Basic

/-!
# Why a JSON text or value is refused

The causes and their sentences.
-/

namespace Baselines.Json

/-- Why a JSON text or value does not describe what was asked for. -/
inductive Cause where
  | eofValue | eofList | eofObject | eofString
  | expectedColon | expectedListEnd | expectedObjectEnd | expectedIdent | expectedValue
  | badEscape | badNumber | outOfRange | controlCharacter | keyNotString
  | loneSurrogate | hexEscapeEnd | trailingComma | trailingCharacters | tooDeep
  | unknownField (name : Text) (known : List Text)
  | missingField (name : Text)
  | duplicateField (name : Text)
  | unknownVariant (name : Text) (known : List Text)
  | wrongType (found expected : Text)
  | wrongValue (found expected : Text)
  | wrongLength (length : Nat) (expected : Text)
  | other (sentence : Text)
  deriving DecidableEq, Repr

-- A name between grave accents.
def ticked (t : Text) : Text := '\x60' :: t ++ ['\x60']

-- The choices that were open.
def choices : List Text → Text
  | [] => "there are no choices"
  | [a] => ticked a
  | [a, b] => ticked a ++ " or " ++ ticked b
  | as => "one of " ++ Text.join ", " (as.map ticked)

/-- The sentence that reports a cause. -/
def Cause.message : Cause → Text
  | eofValue => "EOF while parsing a value"
  | eofList => "EOF while parsing a list"
  | eofObject => "EOF while parsing an object"
  | eofString => "EOF while parsing a string"
  | expectedColon => "expected " ++ ticked ":"
  | expectedListEnd => "expected " ++ ticked "," ++ " or " ++ ticked "]"
  | expectedObjectEnd => "expected " ++ ticked "," ++ " or " ++ ticked ['}']
  | expectedIdent => "expected ident"
  | expectedValue => "expected value"
  | badEscape => "invalid escape"
  | badNumber => "invalid number"
  | outOfRange => "number out of range"
  | controlCharacter => "control character (\\u0000-\\u001F) found while parsing a string"
  | keyNotString => "key must be a string"
  | loneSurrogate => "lone leading surrogate in hex escape"
  | hexEscapeEnd => "unexpected end of hex escape"
  | trailingComma => "trailing comma"
  | trailingCharacters => "trailing characters"
  | tooDeep => "recursion limit exceeded"
  | unknownField name known => "unknown field " ++ ticked name ++ ", expected " ++ choices known
  | missingField name => "missing field " ++ ticked name
  | duplicateField name => "duplicate field " ++ ticked name
  | unknownVariant name known => "unknown variant " ++ ticked name ++ ", expected " ++ choices known
  | wrongType found expected => "invalid type: " ++ found ++ ", expected " ++ expected
  | wrongValue found expected => "invalid value: " ++ found ++ ", expected " ++ expected
  | wrongLength length expected =>
    "invalid length " ++ Text.ofNat length ++ ", expected " ++ expected
  | other sentence => sentence

/-! ## What was found -/

def hexText (n : Nat) : Text := Nat.toDigits 16 n

-- Whether a character is shown by its number when a text is quoted in a message: controls,
-- separators, formats and marks that combine with the character before.
def isHidden (c : Char) : Bool :=
  let n := c.toNat
  n < 32 || (0x7F ≤ n && n ≤ 0xA0) || n == 0xAD || (0x300 ≤ n && n ≤ 0x36F) || n == 0x1680 ||
    (0x2000 ≤ n && n ≤ 0x200F) || (0x2028 ≤ n && n ≤ 0x202F) || (0x205F ≤ n && n ≤ 0x206F) ||
    n == 0x3000 || (0xE000 ≤ n && n ≤ 0xF8FF) || (0xFE00 ≤ n && n ≤ 0xFE0F) || n == 0xFEFF ||
    (0xFFF9 ≤ n && n ≤ 0xFFFB) || (0xE0000 ≤ n && n ≤ 0x10FFFF)

/-- A character as it is quoted in a message. -/
def shown (c : Char) : Text :=
  if c = '"' then "\\\""
  else if c = '\\' then "\\\\"
  else if c = '\n' then "\\n"
  else if c = '\r' then "\\r"
  else if c = '\t' then "\\t"
  else if c.toNat = 0 then "\\0"
  else if isHidden c then "\\u" ++ '{' :: hexText c.toNat ++ ['}']
  else [c]

/-- How a message speaks of a string. -/
def foundString (t : Text) : Text := "string \"" ++ t.flatMap shown ++ ['"']

/-- How a message speaks of a truth value. -/
def foundBool (b : Bool) : Text := "boolean " ++ ticked (if b then "true" else "false")

/-- How a message speaks of a whole number. -/
def foundInt (n : Int) : Text :=
  "integer " ++ ticked (if n < 0 then '-' :: Text.ofNat n.natAbs else Text.ofNat n.natAbs)

/-- How a message speaks of another number. -/
def foundReal (x : Binary64) : Text := "floating point " ++ ticked x.text

/-- How a message speaks of a value. -/
def found : Json → Text
  | null => "null"
  | bool b => foundBool b
  | int n => foundInt n
  | real x => foundReal x
  | str t => foundString t
  | arr _ => "sequence"
  | obj _ => "map"

end Baselines.Json
