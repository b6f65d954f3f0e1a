import Baselines.Disk.Basic
import Baselines.MarkedFile
import Baselines.Name.Json

/-!
# Inspection

What the name and the contents of one baseline say.
-/

namespace Baselines

/-- What a baseline says of itself. -/
structure Inspection where
  name : Name
  target : Option Target
  file : MarkedFile
  deriving DecidableEq, Repr

namespace Inspection

/-! ## 1. Looking -/

/-- Why a baseline cannot be inspected. -/
inductive Failure where
  | noBaseline (path : Path) (fault : Fault)
  | unreadable (path : Path) (fault : DiskFault)
  | undecodable (path : Path) (fault : Fault)
  | badTarget (fault : Fault)
  deriving DecidableEq, Repr

/-- The sentence that reports a failure, with what lies behind it. -/
def Failure.message : Failure → Text
  | noBaseline path fault => path ++ " is not a baseline name: " ++ fault.message
  | unreadable path fault => "failed to read " ++ path ++ ": " ++ fault.message
  | undecodable path fault => "failed to decode " ++ path ++ ": " ++ fault.message
  | badTarget fault => fault.message

/-- What the baseline in a file says of itself. -/
def ofFile (d : Disk) (path : Path) : Except Failure Inspection :=
  match Name.ofPath path with
  | .error fault => .error (.noBaseline path fault)
  | .ok name =>
    match d.read path with
    | .error fault => .error (.unreadable path fault)
    | .ok bytes =>
      match Encoding.read bytes with
      | .error e => .error (.undecodable path (.undecodable e))
      | .ok text =>
        match name.target with
        | .error fault => .error (.badTarget fault)
        | .ok target => .ok { name, target, file := MarkedFile.parse text }

/-! ## 2. As text and as JSON -/

def line (label value : Text) : Text := label ++ value ++ "\n"

-- The lines of one section: its name and how many lines it has.
def sectionLine (s : Section) : Text :=
  let size := Text.ofNat (Text.lines s.body).length
  line "section:  " ((s.file.getD "<unmarked>") ++ " (" ++ size ++ " lines)")

def text (i : Inspection) : Text :=
  line "test:     " i.name.test ++
    i.name.options.flatMap (fun o => line "option:   " (o.1 ++ '=' :: o.2)) ++
    (i.name.variant.map fun n => line "variant:  " (Text.ofNat n)).getD [] ++
    line "stage:    " i.name.effectiveStage.label ++
    (i.target.map fun t => line "target:   " t.label).getD [] ++
    line "source:   " i.name.sourceName ++
    i.file.sections.flatMap sectionLine

def sectionJson (s : Section) : Json :=
  .obj [("file_name", .ofOption .str s.file), ("body", .str s.body)]

def toJson (i : Inspection) : Json :=
  .obj [("name", i.name.toJson), ("id", .str i.name.id),
    ("stage", .str i.name.effectiveStage.label),
    ("target", .ofOption (fun t => .str t.label) i.target),
    ("source_file_name", .str i.name.sourceName),
    ("file", .obj [("sections", .arr (i.file.sections.map sectionJson))])]

end Inspection

end Baselines
