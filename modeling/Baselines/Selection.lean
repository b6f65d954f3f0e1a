import Baselines.Glob.Parse
import Baselines.Path

/-!
# Selections of baselines

Which baselines a run covers: a pattern for their paths, a stage and a target. A pattern with
wildcards is held against the whole path and against the name of the file; any other has to be part
of the path. What wildcards fit is for a reader of them to say.
-/

namespace Baselines

/-- What a baseline has to satisfy to be covered. -/
structure Selection where
  pattern : Option Text := none
  /-- The texts that the wildcards fit. -/
  wildcards : Option (Text → Bool) := none
  stage : Option Stage := none
  target : Option Target := none

namespace Selection

def hasWildcards (pattern : Text) : Bool :=
  pattern.any fun c => c == '*' || c == '?' || c == '[' || c == '{'

/-- The selection with a pattern, whose wildcards `read` reads. Wildcards stay in force until other
wildcards take their place. -/
def withPatternBy {ε : Type} (read : Text → Except ε (Text → Bool)) (s : Selection)
    (pattern : Text) : Except ε Selection := do
  if hasWildcards pattern then .ok { s with pattern, wildcards := some (← read pattern) }
  else .ok { s with pattern }

/-- The wildcards in use. -/
def wildcardsOf (pattern : Text) : Except Glob.Fault (Text → Bool) :=
  (Glob.parse pattern).map Glob.fits

def withPattern : Selection → Text → Except Glob.Fault Selection := withPatternBy wildcardsOf

def withStage (s : Selection) (stage : Stage) : Selection := { s with stage }

def withTarget (s : Selection) (target : Target) : Selection := { s with target }

def slashed (p : Path) : Path := p.map fun c => if c = '\\' then '/' else c

-- Whether the pattern allows a path.
def admitsPath (s : Selection) (relative : Path) : Bool :=
  match s.pattern, s.wildcards with
  | none, _ => true
  | some _, some fits => fits relative || (relative.fileName?).any fits
  | some p, none => Text.hasPart p (slashed relative)

-- Whether the stage is the one asked for.
def admitsStage (s : Selection) (name : Name) : Bool := s.stage.all (name.effectiveStage = ·)

-- Whether the target is the one asked for.
def admitsTarget (s : Selection) (name : Name) : Bool :=
  s.target.all fun t =>
    match name.target with
    | .ok found => found = some t
    | .error _ => false

/-- Whether a baseline at a path below the root is covered. -/
def admits (s : Selection) (relative : Path) (name : Name) : Bool :=
  s.admitsPath relative && s.admitsStage name && s.admitsTarget name

/-- The sentence that reports a fault of a pattern. -/
def faultMessage (pattern : Text) (f : Glob.Fault) : Text :=
  "invalid filter pattern '" ++ pattern ++ "': " ++ f.message pattern

end Selection

end Baselines
