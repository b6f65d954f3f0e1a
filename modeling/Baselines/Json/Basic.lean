import Baselines.Json.Binary64

/-!
# JSON values

JSON values and their indented text.
-/

namespace Baselines

/-- A JSON value; the fields of an object keep their order. -/
inductive Json where
  | null
  | bool (b : Bool)
  | int (n : Int)
  | real (x : Binary64)
  | str (t : Text)
  | arr (items : List Json)
  | obj (fields : List (Text × Json))

namespace Json

/-! ## 1. Text of a string -/

-- The lower-case hexadecimal digit of a number below sixteen.
def hexDigit (n : Nat) : Char := Nat.digitChar n

/-- A character as it stands in a JSON string. -/
def escape (c : Char) : Text :=
  if c = '"' then "\\\""
  else if c = '\\' then "\\\\"
  else if c = '\n' then "\\n"
  else if c = '\r' then "\\r"
  else if c = '\t' then "\\t"
  else if c = '\x08' then "\\b"
  else if c = '\x0c' then "\\f"
  else if c.toNat < 32 then "\\u00" ++ [hexDigit (c.toNat / 16), hexDigit (c.toNat % 16)]
  else [c]

def quote (t : Text) : Text := '"' :: t.flatMap escape ++ ['"']

/-! ## 2. Indented text -/

-- The start of a line at a depth.
def indent (depth : Nat) : Text := '\n' :: List.replicate (2 * depth) ' '

/-- The pieces between two brackets, each on a line of its own. -/
def bracket (depth : Nat) (first last : Char) (pieces : List Text) : Text :=
  if pieces = [] then [first, last]
  else first :: Text.join [','] pieces ++ indent depth ++ [last]

mutual

-- The text of a value whose lines stand at a depth.
def renderAt (depth : Nat) : Json → Text
  | null => "null"
  | bool b => if b then "true" else "false"
  | int n => if n < 0 then '-' :: Text.ofNat n.natAbs else Text.ofNat n.natAbs
  | real x => x.text
  | str t => quote t
  | arr items => bracket depth '[' ']' (renderItems (depth + 1) items)
  | obj fields => bracket depth '{' '}' (renderFields (depth + 1) fields)

-- The lines of the items of an array.
def renderItems (depth : Nat) : List Json → List Text
  | [] => []
  | x :: r => (indent depth ++ renderAt depth x) :: renderItems depth r

-- The lines of the fields of an object.
def renderFields (depth : Nat) : List (Text × Json) → List Text
  | [] => []
  | (name, x) :: r =>
    (indent depth ++ quote name ++ ": " ++ renderAt depth x) :: renderFields depth r

end

/-- The text of a value over indented lines. -/
def render (j : Json) : Text := renderAt 0 j

/-- The value, or null. -/
def ofOption {α : Type} (f : α → Json) : Option α → Json
  | none => null
  | some a => f a

end Json

end Baselines
