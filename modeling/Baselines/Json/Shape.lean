import Baselines.Json.Reader

/-!
# Values of a known shape in JSON text

Readers that know what they expect: a text, a number, a list, one of several choices, or a record. A
value of another kind is passed, as far as one token goes, and refused. A record is written as an
object with its fields, or as an array of them in order.
-/

namespace Baselines.Json.Reader

variable {α σ : Type}

/-! ## 1. Plain values -/

-- Refuses the value that comes next, which is not of the kind expected.
def wrongKind (expected : Text) : Reader α := placed do
  match ← peek with
  | none => failNext .expectedValue
  | some c =>
    if c = 'n' then do
      skip
      ident "ull"
      refuse (.wrongType "null" expected)
    else if c = 't' then do
      skip
      ident "rue"
      refuse (.wrongType (foundBool true) expected)
    else if c = 'f' then do
      skip
      ident "alse"
      refuse (.wrongType (foundBool false) expected)
    else if c = '-' ∨ c.isDigit then
      match ← signedNumber with
      | .whole n => refuse (.wrongType (foundInt n) expected)
      | .real x => refuse (.wrongType (foundReal x) expected)
    else if c = '"' then refuse (.wrongType (foundString (← string true)) expected)
    else if c = '[' then refuse (.wrongType "sequence" expected)
    else if c = '{' then refuse (.wrongType "map" expected)
    else failNext .expectedValue

def firstOfValue : Reader Char := do
  match ← peekToken with
  | some c => return c
  | none => failNext .eofValue

/-- A string. -/
def text (expected : Text) : Reader Text := do
  if (← firstOfValue) = '"' then string true else wrongKind expected

/-- A whole number that is not negative and lies below a bound; `kind` is the name of its type. -/
def natBelow (bound : Nat) (kind : Text) : Reader Nat := do
  let c ← firstOfValue
  if c = '-' ∨ c.isDigit then
    placed do
      match ← signedNumber with
      | .whole n =>
        if 0 ≤ n ∧ n < bound then return n.toNat else refuse (.wrongValue (foundInt n) kind)
      | .real x => refuse (.wrongType (foundReal x) kind)
  else wrongKind kind

/-- Nothing. -/
def unit : Reader Unit := do
  if (← firstOfValue) = 'n' then
    skip
    ident "ull"
  else wrongKind "unit"

/-- The value, unless it is null. -/
def option (r : Reader α) : Reader (Option α) := do
  if (← peekToken) = some 'n' then
    skip
    ident "ull"
    return none
  else return some (← r)

/-- The values of an array. -/
def list (room : Nat) (item : Nat → Reader α) : Reader (List α) := do
  if (← firstOfValue) = '[' then
    nested room fun room => do
      skip
      let bound := (← unread).length + 1
      placed (closedBy endOfList (items (item room) bound true []))
  else wrongKind "a sequence"

/-! ## 2. Choices -/

def choiceName (known : List (Text × α)) : Reader α := placed do
  let t ← text "variant identifier"
  match known.find? (·.1 = t) with
  | some p => return p.2
  | none => refuse (.unknownVariant t (known.map (·.1)))

/-- One of the known choices, written by its name or as an object that gives null to its name. -/
def choice (room : Nat) (known : List (Text × α)) : Reader α := do
  let c ← firstOfValue
  if c = '"' then choiceName known
  else if c = '{' then
    nested room fun _ => do
      skip
      let a ← choiceName known
      colon
      unit
      match ← peekToken with
      | some '}' =>
        skip
        return a
      | some _ => failHere .expectedValue
      | none => failHere .eofObject
  else failNext .expectedValue

/-! ## 3. Records -/

/-- A field of a record: its name, whether it may be left out, and how its value is put into the
record that is being filled. -/
structure Field (σ : Type) where
  name : Text
  optional : Bool
  fill : Nat → σ → Reader σ

/-- What is known of the fields of a record; a record that is closed has no others. -/
structure Shape (σ : Type) where
  name : Text
  closed : Bool
  fields : List (Field σ)

namespace Shape

def names (s : Shape σ) : List Text := s.fields.map Field.name

-- Fills one named field of a record, of which some fields have been filled before.
def fillNamed (s : Shape σ) (room : Nat) (name : Text) (before : List Text × σ) :
    Reader (List Text × σ) := do
  match s.fields.find? (·.name = name) with
  | some f =>
    if before.1.contains name then refuse (.duplicateField name)
    else
      colon
      return (name :: before.1, ← f.fill room before.2)
  | none =>
    if s.closed then refuse (.unknownField name s.names)
    else
      colon
      passValue
      return before

-- A record from the fields of an object.
def ofObject (s : Shape σ) (room : Nat) (empty : σ) : Reader σ := do
  let bound := (← unread).length + 1
  let (given, filled) ← Reader.fields (s.fillNamed room) bound true ([], empty)
  match s.fields.find? fun f => !f.optional && !given.contains f.name with
  | some f => refuse (.missingField f.name)
  | none => return filled

-- A record from the items of an array; the count is of the fields filled before.
def ofItems (s : Shape σ) (room : Nat) : List (Field σ) → Nat → σ → Reader σ
  | [], _, filled => return filled
  | f :: fs, n, filled => do
    if ← hasItem (n = 0) then ofItems s room fs (n + 1) (← f.fill room filled)
    else if f.optional then ofItems s room fs n filled
    else
      refuse (.wrongLength n
        ("struct " ++ s.name ++ " with " ++ Text.ofNat s.fields.length ++ " elements"))

end Shape

def record (room : Nat) (s : Shape σ) (empty : σ) : Reader σ := do
  let c ← firstOfValue
  if c = '{' then
    nested room fun room => do
      skip
      placed (closedBy endOfObject (s.ofObject room empty))
  else if c = '[' then
    nested room fun room => do
      skip
      placed (closedBy endOfList (s.ofItems room s.fields 0 empty))
  else wrongKind ("struct " ++ s.name)

/-! ## 4. Whole texts -/

-- The number of values that may be nested in one another, and one more.
def deepest : Nat := 128

/-- The value that a whole text holds. -/
def all (r : Nat → Reader α) (source : Text) : Except Misread α :=
  let ended : Reader α := do
    let a ← r deepest
    if (← peekToken).isSome then failNext .trailingCharacters else return a
  (ended ⟨0, source⟩).1

end Baselines.Json.Reader
