import Baselines.Text.Blank

/-!
# Targets and stages

The language level that code was emitted for, and whether it was minified.
-/

namespace Baselines

/-! ## 1. Targets -/

/-- A language level, oldest first. -/
inductive Target where
  | es3 | es5 | es2015 | es2016 | es2017 | es2018 | es2019 | es2020 | es2021 | es2022 | es2023
  | es2024 | esnext
  deriving DecidableEq, Repr

namespace Target

/-- Every target, oldest first. -/
def all : List Target :=
  [es3, es5, es2015, es2016, es2017, es2018, es2019, es2020, es2021, es2022, es2023, es2024, esnext]

/-- The spelling used in names and options. -/
def label : Target → Text
  | es3 => "es3"
  | es5 => "es5"
  | es2015 => "es2015"
  | es2016 => "es2016"
  | es2017 => "es2017"
  | es2018 => "es2018"
  | es2019 => "es2019"
  | es2020 => "es2020"
  | es2021 => "es2021"
  | es2022 => "es2022"
  | es2023 => "es2023"
  | es2024 => "es2024"
  | esnext => "esnext"

-- The place of a target in the order of levels.
def rank : Target → Nat
  | es3 => 0 | es5 => 1 | es2015 => 2 | es2016 => 3 | es2017 => 4 | es2018 => 5 | es2019 => 6
  | es2020 => 7 | es2021 => 8 | es2022 => 9 | es2023 => 10 | es2024 => 11 | esnext => 12

/-- The target of a test that declares none. -/
def fallback : Target := es5

def ofLabel? (t : Text) : Option Target := all.find? (·.label = t)

/-- The target that a text names: blanks around it, the case of ASCII letters and hyphens do not
count, and `es6` is `es2015`. -/
def parse? (t : Text) : Option Target :=
  let plain := (Text.lowerAscii (Text.trim t)).filter (· ≠ '-')
  if plain = ("es6" : Text) then some es2015 else ofLabel? plain

-- The targets, oldest first.
def sort (ts : List Target) : List Target := ts.mergeSort fun a b => a.rank ≤ b.rank

end Target

/-! ## 2. Stages -/

/-- The stage of the transformation that produced the code. -/
inductive Stage where
  | normal
  | minified
  deriving DecidableEq, Repr

namespace Stage

/-- The spelling used in names. -/
def label : Stage → Text
  | normal => "normal"
  | minified => "minified"

def isMinified : Stage → Bool
  | normal => false
  | minified => true

def ofLabel? (t : Text) : Option Stage := [normal, minified].find? (·.label = t)

/-- The stage that a text names, or the text as it was looked at: blanks around it and the case of
ASCII letters do not count. -/
def parse (t : Text) : Except Text Stage :=
  let plain := Text.lowerAscii (Text.trim t)
  match ofLabel? plain with
  | some s => .ok s
  | none => .error plain

/-- What to say of a text that names no stage. -/
def unknownMessage (plain : Text) : Text := "unknown stage '" ++ plain ++ "'"

end Stage

end Baselines
