import Baselines.Comparison
import Baselines.Emitter.Command
import Baselines.Json.Shape
import Baselines.Text.LetterCase

/-!
# Settings

What a file of settings says: where baselines and sources are, how to compare, and how to run the
emitter. Every setting is optional, a setting by another name is refused, and relative folders are
taken from the folder that holds the file.
-/

namespace Baselines

/-- The settings of a project. -/
structure Settings where
  fixtures : Option Path := none
  sources : Option Path := none
  mode : Option Mode := none
  runs : Option Nat := none
  jobs : Option Nat := none
  pattern : Option Text := none
  update : Option Bool := none
  emitter : Option Command := none
  deriving DecidableEq, Repr

namespace Settings

def fileName : Text := "tsz-golden.json"

/-- The variable of the environment that asks for an update. -/
def updateVariable : Text := "TSZ_GOLDEN_UPDATE"

-- One more than the largest number that counts runs or jobs.
def countBound : Nat := Nat.pow 2 64

/-! ## 1. Truth values -/

def truthWords : List (Text × Bool) :=
  [("true", true), ("1", true), ("yes", true), ("on", true),
    ("false", false), ("0", false), ("no", false), ("off", false), ("", false)]

-- The truth value that a text names; blanks around it and the case of letters do not count.
def truth? (t : Text) : Option Bool :=
  let plain := Text.lower (Text.trim t)
  (truthWords.find? (·.1 = plain)).map (·.2)

def updateAsked (value : Option Text) : Bool := (value.bind truth?).getD false

/-! ## 2. The file of settings -/

open Json (Reader)
open Json.Reader (Field Shape)

def path : Reader Path := Reader.text "path string"

/-- A number of runs or jobs. -/
def count : Reader Nat := Reader.natBelow countBound "usize"

-- A truth value, written as such or as a word.
def truth (room : Nat) : Reader Bool := do
  match ← Reader.value room with
  | .bool b => return b
  | .str t =>
    match truth? t with
    | some b => return b
    | none => Reader.refuse (.other ("invalid boolean value: '" ++ t ++ "'"))
  | _ => Reader.refuse (.other "data did not match any variant of untagged enum BoolOrString")

/-- The modes by the names they have in a file of settings. -/
def modes : List (Text × Mode) := [.exact, .normalized].map fun m => (Mode.label m, m)

-- The fields of a command, of which others may be added.
def commandShape : Shape Command where
  name := "EmitterConfig"
  closed := false
  fields :=
    [{ name := "command", optional := false
       fill := fun _ c => return { c with program := ← Reader.text "a string" } },
     { name := "args", optional := true
       fill := fun room c =>
        return { c with args := ← Reader.list room fun _ => Reader.text "a string" } }]

def command (room : Nat) : Reader Command := Reader.record room commandShape ⟨[], []⟩

/-- The fields of a file of settings. -/
def shape : Shape Settings where
  name := "HarnessConfig"
  closed := true
  fields :=
    [{ name := "fixturesDir", optional := true
       fill := fun _ s => return { s with fixtures := ← Reader.option path } },
     { name := "sourcesDir", optional := true
       fill := fun _ s => return { s with sources := ← Reader.option path } },
     { name := "mode", optional := true
       fill := fun room s => return { s with mode := ← Reader.option (Reader.choice room modes) } },
     { name := "determinismRuns", optional := true
       fill := fun _ s => return { s with runs := ← Reader.option count } },
     { name := "jobs", optional := true
       fill := fun _ s => return { s with jobs := ← Reader.option count } },
     { name := "filter", optional := true
       fill := fun _ s => return { s with pattern := ← Reader.option (Reader.text "a string") } },
     { name := "update", optional := true
       fill := fun room s => return { s with update := ← Reader.option (truth room) } },
     { name := "emitter", optional := true
       fill := fun room s => return { s with emitter := ← Reader.option (command room) } }]

def parse (source : Text) : Except Json.Misread Settings :=
  Reader.all (fun room => Reader.record room shape {}) source

/-- The sentence that reports a file of settings that cannot be read; `reason` says why. -/
def faultMessage (file : Path) (reason : Text) : Text :=
  "invalid configuration '" ++ file ++ "': " ++ reason

/-- The settings with relative folders taken from a folder. -/
def resolve (base : Path) (s : Settings) : Settings :=
  { s with
    fixtures := s.fixtures.map (Path.append base)
    sources := s.sources.map (Path.append base) }

end Settings

end Baselines
