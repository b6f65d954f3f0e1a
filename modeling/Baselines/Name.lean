import Baselines.Fault
import Baselines.Target

/-!
# Names of baselines

A baseline is called `<test>[(<key>=<value>,...)][.<variant>][.<stage>].<extension>`. The name alone
pairs it with its test and the options it was compiled with.
-/

namespace Baselines

/-- The identity that the name of a baseline carries. -/
structure Name where
  test : Text
  /-- The options in the order they are written. -/
  options : List (Text × Text)
  variant : Option Nat
  /-- The stage as written; a name may leave it out. -/
  stage : Option Stage
  extension : Text
  deriving DecidableEq, Repr

namespace Name

def extensions : List Text := ["js", "mjs", "cjs", "jsx"]

/-- One more than the largest variant. -/
def variantBound : Nat := 4294967296

/-! ## 1. Reading -/

/-- The variant written by a piece of a name. -/
def variant? (piece : Text) : Option Nat := (Text.number? piece).filter (· < variantBound)

/-- The stage written by a piece of a name. -/
def stage? (piece : Text) : Option Stage := (Stage.parse piece).toOption

/-- The stem without its last piece, and what the piece says, when it says something. -/
def peel {α : Type} (read : Text → Option α) (stem : Text) : Text × Option α :=
  match Text.splitLast? '.' stem with
  | some (front, piece) =>
    match read piece with
    | some a => (front, some a)
    | none => (stem, none)
  | none => (stem, none)

/-- The options between the parentheses; blank ones are passed over. -/
def readOptions (name : Text) : List Text → Except Fault (List (Text × Text))
  | [] => .ok []
  | raw :: r =>
    let item := Text.trim raw
    if item = [] then readOptions name r
    else match Text.splitFirst? '=' item with
      | none => .error (.badOption name item)
      | some (key, value) =>
        (readOptions name r).map fun os => (Text.trim key, Text.trim value) :: os

/-- The test name and the options of a stem. -/
def splitStem (name stem : Text) : Except Fault (Text × List (Text × Text)) :=
  match Text.splitFirst? '(' stem with
  | none => if ')' ∈ stem then .error (.unbalanced name) else .ok (stem, [])
  | some (test, tail) =>
    match Text.dropTail? [')'] tail with
    | none => .error (.unbalanced name)
    | some inner =>
      if '(' ∈ inner ∨ ')' ∈ inner then .error (.unbalanced name)
      else (readOptions name (Text.splitOn ',' inner)).map fun os => (test, os)

/-- The identity that a file name carries. -/
def parse (name : Text) : Except Fault Name := do
  let (rest, extension) := (Text.splitLast? '.' name).getD (name, [])
  if !extensions.contains extension then .error (.badExtension name extension)
  else
    let (rest, stage) := peel stage? rest
    let (rest, variant) := peel variant? rest
    let (test, options) ← splitStem name rest
    if test = [] then .error (.emptyTest name)
    else .ok { test, options, variant, stage, extension }

/-! ## 2. Writing -/

/-- An option as it stands in a name. -/
def writeOption (o : Text × Text) : Text := o.1 ++ '=' :: o.2

/-- The name without its extension; the key of the baseline in reports. -/
def id (n : Name) : Text :=
  n.test ++
    (if n.options = [] then [] else '(' :: Text.join [','] (n.options.map writeOption) ++ [')']) ++
    (match n.variant with
      | some v => '.' :: Text.ofNat v
      | none => []) ++
    (match n.stage with
      | some s => '.' :: s.label
      | none => [])

/-- The file name that carries the identity. -/
def render (n : Name) : Text := n.id ++ '.' :: n.extension

/-! ## 3. Views -/

/-- The stage of the code; a name without one is of normal output. -/
def effectiveStage (n : Name) : Stage := n.stage.getD .normal

/-- The first value under a key, whatever the case of its ASCII letters. -/
def option? (n : Name) (key : Text) : Option Text :=
  (n.options.find? fun o => Text.sameAscii o.1 key).map (·.2)

/-- The target that the name declares, if it declares one. -/
def target (n : Name) : Except Fault (Option Target) :=
  match n.option? "target" with
  | none => .ok none
  | some value =>
    match Target.parse? value with
    | some t => .ok (some t)
    | none => .error (.unknownTarget value)

def sourceName (n : Name) : Text := n.test ++ ".ts"

end Name

end Baselines
