import Baselines.Disk.Basic
import Baselines.Fault
import Baselines.Selection
import Baselines.Settings

/-!
# Troubles

What can keep a run from being carried out, and the sentences that report it.
-/

namespace Baselines

/-- What keeps a run, or the loading of a file, from being carried out. -/
inductive Trouble where
  | noFolder (path : Path)
  | unreadable (path : Path) (fault : DiskFault)
  | unwritable (path : Path) (fault : DiskFault)
  | badFile (path : Path) (fault : Fault)
  | badPattern (pattern : Text) (fault : Glob.Fault)
  | badSettings (path : Path) (reason : Text)
  deriving DecidableEq, Repr

namespace Trouble

/-- The sentence that reports a trouble. -/
def message : Trouble → Text
  | noFolder path => "fixtures directory '" ++ path ++ "' does not exist"
  | unreadable path fault => "failed to read '" ++ path ++ "': " ++ fault.message
  | unwritable path fault => "failed to write '" ++ path ++ "': " ++ fault.message
  | badFile path fault => path ++ ": " ++ fault.message
  | badPattern pattern fault => Selection.faultMessage pattern fault
  | badSettings path reason => Settings.faultMessage path reason

-- The sentence of what lies behind a trouble.
def cause? : Trouble → Option Text
  | noFolder _ => none
  | unreadable _ fault | unwritable _ fault => some fault.message
  | badFile _ fault => some fault.message
  | badPattern pattern fault => some (fault.message pattern)
  | badSettings _ reason => some reason

/-- The sentence with what lies behind it. -/
def chain (t : Trouble) : Text :=
  match t.cause? with
  | none => t.message
  | some cause => t.message ++ ": " ++ cause

end Trouble

/-! ## Reading -/

/-- The text of a file. -/
def Disk.readText (d : Disk) (path : Path) : Except Trouble Text :=
  match d.read path with
  | .error e => .error (.unreadable path e)
  | .ok bytes =>
    match Encoding.read bytes with
    | .ok t => .ok t
    | .error e => .error (.badFile path (.undecodable e))

namespace Settings

/-- The path of the file of settings in a folder, if there is one. -/
def find? (d : Disk) (folder : Path) : Option Path :=
  let path := Path.append folder fileName
  if d.hasFile path then some path else none

/-- The settings in a file; relative folders are taken from the folder of the file. -/
def load (d : Disk) (path : Path) : Except Trouble Settings :=
  match d.read path with
  | .error e => .error (.unreadable path e)
  | .ok bytes =>
    match Encoding.utf8Decode? bytes with
    | none => .error (.unreadable path .notUtf8)
    | some source =>
      match parse source with
      | .error m => .error (.badSettings path (m.message source))
      | .ok s => .ok ((path.parent?.map fun base => s.resolve base).getD s)

end Settings

end Baselines
