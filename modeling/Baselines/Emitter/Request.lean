import Baselines.Target

/-!
# Requests

What an emitter is asked for: the code of one test source for a target and a stage.
-/

namespace Baselines

/-- A request for the code of one source. -/
structure Request where
  /-- The name of the source, as it stands in the marker of a baseline. -/
  file : Text
  source : Text
  /-- Without a target the emitter takes its own. -/
  target : Option Target
  stage : Stage
  options : List (Text × Text)
  deriving DecidableEq, Repr

namespace Request

/-- The options on one line, as keys and values with commas between. -/
def optionLine (r : Request) : Text :=
  Text.join [','] (r.options.map fun o => o.1 ++ '=' :: o.2)

def targetLabel (r : Request) : Text := (r.target.map Target.label).getD []

end Request

end Baselines
