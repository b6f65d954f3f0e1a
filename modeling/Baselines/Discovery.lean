import Baselines.Table
import Baselines.Trouble

/-!
# Discovery

The baselines below a folder, in the order of their paths, and the test sources below a folder by
the names of their tests. Files whose names say nothing of the kind are passed over.
-/

namespace Baselines

/-! ## 1. Baselines -/

/-- A baseline that was found. -/
structure Found where
  path : Path
  /-- The path below the folder that was searched, with slashes only. -/
  relative : Path
  name : Name
  deriving DecidableEq, Repr

namespace Discovery

/-- The files below the folder that a path leads to, each with the path that leads to it from
there. -/
def filesOf (d : Disk) (root : Path) : Except Trouble (List (Place × Bytes)) :=
  match d.find root with
  | .ok (p, .folder) => .ok (d.filesBelow p)
  | _ => .error (.noFolder root)

/-- The baseline at a place below the root, if it is one and is covered. -/
def found? (root : Path) (selection : Selection) (p : Place) : Option Found :=
  let relative := Disk.relativePath p
  match p.getLast?.map Name.parse with
  | some (.ok name) =>
    if selection.admits relative name then
      some { path := Path.append root relative, relative := Selection.slashed relative, name }
    else none
  | _ => none

/-- The baselines below a folder that a selection covers. -/
def baselines (d : Disk) (root : Path) (selection : Selection) : Except Trouble (List Found) := do
  let files ← filesOf d root
  let found := files.filterMap fun f => found? root selection f.1
  return found.mergeSort fun a b => Text.before a.relative b.relative

end Discovery

/-! ## 2. Sources -/

/-- The paths of test sources by the names of their tests. -/
abbrev SourceIndex := Table Path

namespace SourceIndex

/-- The extensions of test sources. -/
def extensions : List Text := (["ts", "tsx", "mts", "cts"] : List String).map String.toList

/-- The name of the test whose source has a file name. Files that only declare are no sources. -/
def testOf? (fileName : Text) : Option Text :=
  if Text.endsWith fileName ".d.ts" then none
  else match Text.splitLast? '.' fileName with
    | some (test, extension) => if extensions.contains extension then some test else none
    | none => none

/-- The index with one more file, unless its test has a source already. -/
def addFile (root : Path) (index : SourceIndex) (p : Place) : SourceIndex :=
  match p.getLast?.bind testOf? with
  | none => index
  | some test =>
    if (index.get? test).isSome then index
    else index.insert test (Path.append root (Disk.relativePath p))

/-- The index of the sources below a folder. -/
def build (d : Disk) (root : Path) : Except Trouble SourceIndex := do
  let files ← Discovery.filesOf d root
  return files.foldl (fun index f => addFile root index f.1) []

end SourceIndex

end Baselines
