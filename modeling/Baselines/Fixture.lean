import Baselines.Directives
import Baselines.Discovery
import Baselines.Emitter.Request
import Baselines.MarkedFile

/-!
# Fixtures

A baseline together with the test source that it was emitted from, and the request that should give
its code again.
-/

namespace Baselines

/-! ## 1. Sources -/

/-- A test source. -/
structure Source where
  path : Path
  text : Text
  directives : Directives
  deriving DecidableEq, Repr

namespace Source

def load (d : Disk) (path : Path) : Except Trouble Source :=
  (d.readText path).map fun text => { path, text, directives := Directives.parse text }

end Source

/-! ## 2. Options -/

namespace Request

/-- The keys that choose targets and files, and are not options of an emitter. -/
def otherKeys : List Text := ["target".toList, "filename".toList]

/-- The options that pairs of keys and values give, in the order of their keys: keys are in lower
case, and of two pairs with one key the later counts. -/
def optionsOf (pairs : List (Text × Text)) : List (Text × Text) :=
  Table.ofPairs
    ((pairs.map fun p => (Text.lowerAscii p.1, p.2)).filter fun p => !otherKeys.contains p.1)

end Request

/-- The directives that have a single value. -/
def Directives.settled (d : Directives) : List (Text × Text) :=
  d.options.keys.filterMap fun key =>
    match d.values key with
    | [value] => some (key, value)
    | _ => none

/-! ## 3. Fixtures -/

/-- A baseline with its source, if that was found. -/
structure Fixture where
  name : Name
  path : Path
  file : MarkedFile
  source : Option Source
  deriving DecidableEq, Repr

namespace Fixture

/-- The path of the source of a test: the one in the index, or without an index the one beside the
baseline. -/
def sourcePath? (d : Disk) (index : Option SourceIndex) (path : Path) (name : Name) : Option Path :=
  match index with
  | some index => index.get? name.test
  | none => (path.parent?.map fun folder => Path.append folder name.sourceName).filter d.hasFile

/-- The baseline in a file, with its source. -/
def load (d : Disk) (index : Option SourceIndex) (path : Path) : Except Trouble Fixture := do
  let name ← match Name.ofPath path with
    | .ok name => .ok name
    | .error fault => .error (.badFile path fault)
  let text ← d.readText path
  let source ← match sourcePath? d index path name with
    | some p => (Source.load d p).map some
    | none => .ok none
  return { name, path, file := MarkedFile.parse text, source }

def expected (f : Fixture) : Text := f.file.code

/-- The request that should give the code of a baseline with a source. Directives with one value
always count, and the name chooses among the values of the others. -/
def requestFor (f : Fixture) (source : Source) : Except Fault Request := do
  let target ← f.name.target
  return {
    file := f.file.primary?.getD f.name.sourceName
    source := source.text
    target
    stage := f.name.effectiveStage
    -- the name comes last, so that it wins over the directives
    options := Request.optionsOf (source.directives.settled ++ f.name.options) }

/-- The request that should give the code of the baseline, if its source is known. -/
def request (f : Fixture) : Except Trouble (Option Request) :=
  match f.source with
  | none => .ok none
  | some source =>
    match f.requestFor source with
    | .ok r => .ok (some r)
    | .error fault => .error (.badFile f.path fault)

end Fixture

end Baselines
