import Baselines.Text.Blank
import Baselines.Text.LetterCase

/-!
# Formats of the log

How events are written down while the program runs.
-/

namespace Baselines

/-- A format of the log. -/
inductive LogFormat where
  | text
  | tree
  | json
  deriving DecidableEq, Repr

/-- The format that a text names; blanks around it and the case of letters do not count, and a text
that names none stands for lines of text. -/
def LogFormat.parse (t : Text) : LogFormat :=
  let plain := Text.lower (Text.trim t)
  if plain = ("tree" : Text) then .tree
  else if plain = ("json" : Text) then .json
  else .text

end Baselines
