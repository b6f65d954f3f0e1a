import Baselines.Json.Cause

/-!
# Values out of JSON values

Decoders from JSON values to the values they describe. A structure is described by an object with
its fields, or by an array of them in order; unknown fields are passed over, and a missing optional
field is the same as null.
-/

namespace Baselines.Json

/-- A decoder gives the described value, or the cause for refusing. -/
abbrev Decoder (α : Type) := Json → Except Cause α

namespace Decode

/-- A string. -/
def text : Decoder Text
  | str t => .ok t
  | j => .error (.wrongType (found j) "a string")

/-- A whole number that is not negative and lies below a bound; `kind` is the name of its type. -/
def natBelow (bound : Nat) (kind : Text) : Decoder Nat
  | int n => if 0 ≤ n ∧ n < bound then .ok n.toNat else .error (.wrongValue (foundInt n) kind)
  | j => .error (.wrongType (found j) kind)

/-- The value, unless it is null. -/
def option {α : Type} (d : Decoder α) : Decoder (Option α)
  | null => .ok none
  | j => (d j).map some

/-- The values of an array. -/
def list {α : Type} (d : Decoder α) : Decoder (List α)
  | arr items => items.mapM d
  | j => .error (.wrongType (found j) "a sequence")

/-- An array of two values. -/
def pair {α β : Type} (da : Decoder α) (db : Decoder β) : Decoder (α × β)
  | arr [] => .error (.wrongLength 0 "a tuple of size 2")
  | arr (x :: r) => do
    let a ← da x
    match r with
    | [] => .error (.wrongLength 1 "a tuple of size 2")
    | y :: r =>
      let b ← db y
      if r = [] then .ok (a, b)
      else .error (.wrongLength (2 + r.length) "fewer elements in array")
  | j => .error (.wrongType (found j) "a tuple of size 2")

/-- One of the named choices, written by its name or as an object that gives null to its name. -/
def choice {α : Type} (known : List (Text × α)) : Decoder α
  | str t => pick t
  | obj [(t, null)] => pick t
  | obj [(t, j)] => do
    let _ ← pick t
    .error (.wrongType (found j) "unit")
  | obj _ => .error (.wrongValue "map" "map with a single key")
  | j => .error (.wrongType (found j) "string or map")
where
  /-- The choice with a name. -/
  pick (t : Text) : Except Cause α :=
    match known.find? (·.1 = t) with
    | some p => .ok p.2
    | none => .error (.unknownVariant t (known.map (·.1)))

/-- A field of a structure: its name, whether it may be left out, and how its value is put into the
record that is being filled. -/
structure Field (σ : Type) where
  name : Text
  optional : Bool
  fill : Json → σ → Except Cause σ

-- Fills a record from the fields of an object, in the order of their names.
def fillFields {σ : Type} (fields : List (Field σ)) : List (Text × Json) → σ → Except Cause σ
  | [], s => .ok s
  | (name, j) :: r, s =>
    match fields.find? (·.name = name) with
    | some f => do fillFields fields r (← f.fill j s)
    | none => fillFields fields r s

-- Fills a record from the items of an array, in order. The count is of the items used before.
def fillItems {σ : Type} (whole : Text) : List (Field σ) → List Json → Nat → σ → Except Cause σ
  | [], [], _, s => .ok s
  | [], rest, n, _ => .error (.wrongLength (n + rest.length) "fewer elements in array")
  | _ :: _, [], n, _ => .error (.wrongLength n whole)
  | f :: fs, j :: js, n, s => do fillItems whole fs js (n + 1) (← f.fill j s)

-- The order of the fields of an object by their names.
def sortFields (fields : List (Text × Json)) : List (Text × Json) :=
  fields.mergeSort fun a b => Text.before a.1 b.1

/-- A structure called `name`, filled into `empty`. -/
def record {σ : Type} (name : Text) (fields : List (Field σ)) (empty : σ) : Decoder σ
  | obj given => do
    let s ← fillFields fields (sortFields given) empty
    match fields.find? fun f => !f.optional && !given.any fun g => g.1 = f.name with
    | some f => .error (.missingField f.name)
    | none => .ok s
  | arr items =>
    let whole : Text :=
      "struct " ++ name ++ " with " ++ Text.ofNat fields.length ++ " elements"
    fillItems whole fields items 0 empty
  | j => .error (.wrongType (found j) ("struct " ++ name))

end Decode

end Baselines.Json
