import Baselines.Console

/-!
# The program

The outer layer: the folder where the program is run and the paths that it is told of are taken into
a disk, the command line is carried out on that disk, and files that have changed are written back.
-/

namespace Baselines.Main

open Arguments (Invocation Misuse)

/-! ## 1. What is told -/

-- The paths that a command line names.
def pathsOf : Invocation → List Path
  | .check a => [a.config, a.fixtures, a.sources, a.json].filterMap id
  | .compare a => [a.fixture, a.actual]
  | .inspect a => [a.fixture]
  | .generate a => [a.sources, a.out]

-- The paths that the settings of a check name.
def settingsPathsOf (d : Disk) : Invocation → List Path
  | .check a =>
    match Console.settings d a.config with
    | .ok s => [s.fixtures, s.sources].filterMap id
    | .error _ => []
  | _ => []

-- What to say of a command line that is not carried out.
def misuseText : Misuse → Text
  | .unknownArgument => "error: unexpected argument found"
  | .invalidValue => "error: a value is missing or is none of those that are known"
  | .malformedValue => "error: a value is not of the right form"
  | .repeated => "error: an argument cannot be used multiple times"
  | .unwantedValue => "error: a value was given where none is taken"
  | .missingArgument => "error: required arguments were not provided"
  | .unknownCommand => "error: unrecognized subcommand"
  | .versionAsked => "tsz-golden 0.1.0"
  | .missingCommand | .nothingAsked | .helpAsked =>
    "Check tsz emit output against golden baselines\n\n" ++
      "Usage: tsz-golden [--color <auto|always|never>] <check|compare|inspect|generate|help>"

/-! ## 2. The disk -/

-- The text of a path that the system gives.
def textOf (path : String) : Path := path.toList

/-- The disk with a file or folder of the system, and all that is in it, at its own place. Links and
whatever cannot be read are passed over. -/
partial def take (path : String) (d : Disk) : IO Disk := do
  let entry : IO.FS.DirEntry := ⟨path, ""⟩
  let kind : Option IO.FS.FileType ←
    (entry.root.symlinkMetadata.map fun m => some m.type).catchExceptions fun _ => pure none
  match kind with
  | some .dir =>
    let d := (d.makeFolders (textOf path)).toOption.getD d
    let items : Array IO.FS.DirEntry ← entry.root.readDir.catchExceptions fun _ => pure #[]
    items.foldlM (fun d item => take item.path.toString d) d
  | some .file =>
    let bytes : Option ByteArray ←
      ((IO.FS.readBinFile path).map some).catchExceptions fun _ => pure none
    match bytes with
    | none => return d
    | some bytes =>
      let above := (Path.parent? (textOf path)).getD []
      let d := (d.makeFolders above).toOption.getD d
      return (d.write (textOf path) bytes.toList).toOption.getD d
  | _ => return d

-- The disk with what a path leads to, unless it is there already or leads nowhere.
def takePath (d : Disk) (path : Path) : IO Disk := do
  if d.has path then return d
  else
    let real ← ((IO.FS.realPath (String.ofList path)).map some).catchExceptions fun _ => pure none
    match real with
    | some real => take real.toString d
    | none => return d

-- Writes what a run has changed.
def giveBack (earlier later : Disk) : IO Unit := do
  for (p, node) in later.nodes do
    if node = .folder ∧ earlier.node? p = none then
      IO.FS.createDirAll (String.ofList ('/' :: Disk.relativePath p))
  for (path, bytes) in Disk.changedFiles earlier later [] do
    IO.FS.writeBinFile (String.ofList ('/' :: path)) ⟨bytes.toArray⟩

/-! ## 3. Runs -/

-- Carries out a command line.
def runWords (words : List Text) : IO UInt32 := do
  let here := (← IO.currentDir).toString
  let empty ← take here {}
  let start := (empty.locate (textOf here)).toOption.getD []
  let mut d : Disk := { empty with start }
  if let .ok (_, i) := Arguments.parse words then
    for path in pathsOf i do
      d ← takePath d path
    for path in settingsPathsOf d i do
      d ← takePath d path
  let asked := (← IO.getEnv (String.ofList Settings.updateVariable)).map String.toList
  let output ← IO.getStdout
  let (r, later) := Console.run words asked (← output.isTty) d
  giveBack d later
  output.putStr (String.ofList r.output)
  match r with
  | .misused m => IO.eprintln (String.ofList (misuseText m))
  | .failed c => IO.eprintln (String.ofList ("error: " ++ c.message))
  | .done _ _ => pure ()
  return UInt32.ofNat r.exitCode

end Baselines.Main

def main (words : List String) : IO UInt32 := Baselines.Main.runWords (words.map String.toList)
