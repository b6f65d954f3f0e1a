import Baselines.Diff.Hunk
import Baselines.MarkedFile
import Baselines.Script.Tokens

/-!
# Comparison of outputs

Both outputs are normalized alike before they are compared: a byte order mark and marker lines are
dropped, and so are empty lines at the end. Blanks within lines are kept. The exact mode asks for
the same text. The normalized mode asks for the same tokens of the script, which lets the layout and
the comments differ; an output that is no script is held to the exact mode. What counts as a script,
and what its tokens are, is for a parser to say.
-/

namespace Baselines

/-- How strictly two outputs are compared. -/
inductive Mode where
  | exact
  | normalized
  deriving DecidableEq, Repr

namespace Mode

def label : Mode → Text
  | exact => "exact"
  | normalized => "normalized"

def names : List (Text × Mode) :=
  [("exact", exact), ("normalized", normalized), ("ast", normalized), ("tokens", normalized)]

/-- The mode that a text names, or the text as it was looked at: blanks around it and the case of
ASCII letters do not count. -/
def parse (t : Text) : Except Text Mode :=
  let plain := Text.lowerAscii (Text.trim t)
  match names.find? (·.1 = plain) with
  | some p => .ok p.2
  | none => .error plain

/-- What to say of a text that names no mode. -/
def unknownMessage (plain : Text) : Text := "unknown compare mode '" ++ plain ++ "'"

end Mode

/-- How two outputs differ. -/
structure Mismatch where
  diff : Text
  stats : Diff.Stats
  /-- The first line that differs in the normalized texts, counted from one. -/
  firstLine : Option Nat
  deriving DecidableEq, Repr

/-- Two normalized outputs and how they differ, if they do. -/
structure Comparison where
  mode : Mode
  expected : Text
  actual : Text
  mismatch : Option Mismatch
  deriving DecidableEq, Repr

namespace Comparison

/-! ## 1. Any parser -/

/-- The text of an output without markers and without empty lines at its end. -/
def normalize (t : Text) : Text := Text.dropLineFeeds (MarkedFile.parse t).code

section Reader

-- What gives the tokens of a script, and refuses a text that is none.
variable (read : Text → Option (List Script.Token))

/-- Whether two texts have the same tokens; texts of which one is no script have to be the same. -/
def sameScriptBy (expected actual : Text) : Bool :=
  match read expected, read actual with
  | some ts, some us => ts = us
  | _, _ => expected = actual

/-- Whether two normalized texts are the same in a mode. -/
def agreeBy : Mode → Text → Text → Bool
  | .exact, expected, actual => expected = actual
  | .normalized, expected, actual => sameScriptBy read expected actual

end Reader

-- How two normalized texts differ.
def difference (expected actual : Text) : Mismatch :=
  let (diff, stats) := Diff.unified expected actual Diff.usualContext
  { diff, stats, firstLine := Diff.firstDifferingLine expected actual }

/-- The comparison of two outputs, where `read` gives the tokens of scripts. -/
def compareBy (read : Text → Option (List Script.Token)) (expected actual : Text) (mode : Mode) :
    Comparison :=
  let expected := normalize expected
  let actual := normalize actual
  { mode, expected, actual
    mismatch :=
      if agreeBy read mode expected actual then none else some (difference expected actual) }

/-! ## 2. The parser in use -/

def sameScript : Text → Text → Bool := sameScriptBy Script.tokens?

def agree : Mode → Text → Text → Bool := agreeBy Script.tokens?

/-- The comparison of two outputs. -/
def compare : Text → Text → Mode → Comparison := compareBy Script.tokens?

/-- Whether the outputs are the same in the mode of the comparison. -/
def isMatch (c : Comparison) : Bool := c.mismatch.isNone

end Comparison

end Baselines
