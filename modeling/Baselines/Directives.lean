import Baselines.Fault
import Baselines.Table
import Baselines.Target
import Baselines.Text.LetterCase
import Baselines.Text.Lines

/-!
# Directives

A test source declares options by comment lines `// @key: value`. A value may list several values
with commas between; each choice of one value per key is a configuration.
-/

namespace Baselines

/-- The declared options: raw values by key, the keys in lower case. -/
structure Directives where
  options : Table Text
  deriving DecidableEq, Repr

namespace Directives

/-! ## 1. Reading -/

/-- The key and value that a line declares, as written. -/
def ofLine? (line : Text) : Option (Text × Text) := do
  let rest ← Text.dropLead? "//" (Text.trimStart line)
  let rest ← Text.dropLead? ['@'] (Text.trimStart rest)
  let key := rest.takeWhile Text.isWordChar
  if key = [] then none
  else
    let rest ← Text.dropLead? [':'] (Text.trimStart (rest.dropWhile Text.isWordChar))
    some (key, (Text.trimStart rest).takeWhile fun c => c ≠ '\r' ∧ c ≠ '\n')

/-- The directives of the lines; the last of one key counts. -/
def ofLines (ls : List Text) : Directives :=
  ⟨ls.foldl (fun t line =>
    match ofLine? line with
    | some (key, value) => t.insert (Text.lower key) (Text.trim value)
    | none => t) []⟩

def parse (source : Text) : Directives := ofLines (Text.lines source)

/-! ## 2. Values -/

def listed (raw : Text) : List Text := ((Text.splitOn ',' raw).map Text.trim).filter (· ≠ [])

/-- The raw value under a key, in whatever case the key is given. -/
def get? (d : Directives) (key : Text) : Option Text := d.options.get? (Text.lower key)

def values (d : Directives) (key : Text) : List Text := ((d.get? key).map listed).getD []

def readTargets : List Text → Except Fault (List Target)
  | [] => .ok []
  | value :: r =>
    match Target.parse? value with
    | none => .error (.unknownTarget value)
    | some t => (readTargets r).map (t :: ·)

def targets (d : Directives) : Except Fault (List Target) :=
  match d.values "target" with
  | [] => .ok [.fallback]
  | vs => readTargets vs

/-! ## 3. Configurations -/

/-- The configurations extended by each value of one key; a key without values adds nothing. -/
def extend (configs : List (Table Text)) (entry : Text × Text) : List (Table Text) :=
  match listed entry.2 with
  | [] => configs
  | vs => configs.flatMap fun c => vs.map fun v => c.insert entry.1 v

/-- Every choice of one value per key, the last key varying fastest. -/
def configurations (d : Directives) : List (Table Text) := d.options.foldl extend [[]]

end Directives

end Baselines
