import Baselines.Disk.Basic
import Baselines.Emitter.Request
import Baselines.Table

/-!
# Emitters

An emitter answers requests with code, or says why it cannot. It may remember what it was asked
before, and it may change the disk.
-/

namespace Baselines

/-! ## 1. Answers -/

/-- Why an emitter gives no code. -/
inductive EmitFault where
  | spawn (program : Text) (fault : DiskFault)
  | failed (ending complaint : Text)
  | notUtf8
  | input (fault : DiskFault)
  | said (sentence : Text)
  deriving DecidableEq, Repr

/-- The sentence that reports a fault of an emitter. -/
def EmitFault.message : EmitFault → Text
  | spawn program fault => "failed to spawn emitter '" ++ program ++ "': " ++ fault.message
  | failed ending complaint => "emitter exited with " ++ ending ++ ": " ++ complaint
  | notUtf8 => "emitter output is not valid UTF-8"
  | input fault => "failed to prepare emitter input: " ++ fault.message
  | said sentence => sentence

/-- What an emitter gives for a request. -/
abbrev Answer := Except EmitFault Text

/-- An emitter, with its name and its memory `σ`. -/
structure Emitter (σ : Type) where
  name : Text
  emit : Request → σ × Disk → Answer × (σ × Disk)

namespace Emitter

/-- An emitter that answers each request alike and leaves the disk as it is. -/
def ofFunction (name : Text) (f : Request → Answer) : Emitter Unit where
  name
  emit := fun r s => (f r, s)

-- The emitter together with the requests that it has got, first one first.
def recording {σ : Type} (e : Emitter σ) : Emitter (σ × List Request) where
  name := e.name
  emit := fun r ((s, seen), d) =>
    let (a, (s, d)) := e.emit r (s, d)
    (a, ((s, seen ++ [r]), d))

/-! ## 2. Stand-ins -/

/-- An emitter that gives the source back. -/
def echo (name : Text) : Emitter Unit := ofFunction name fun r => .ok r.source

/-- The parts of a request that tell it from others of a project. -/
def key (r : Request) : Text := r.file ++ '|' :: r.targetLabel ++ '|' :: r.stage.label

-- An emitter that gives a comment on the request.
def describe (name : Text) : Emitter Unit :=
  ofFunction name fun r => .ok ("// " ++ key r ++ " [" ++ r.optionLine ++ "]\n")

/-- One answer of a scripted emitter, and the file that a folder takes the place of first. -/
structure Line where
  answer : Answer
  replaced : Option Path := none

-- The disk with a folder in the place of a file.
def replaceFile (d : Disk) (path : Path) : Disk :=
  match d.find path with
  | .ok (p, .file _) => (d.remove p).put p .folder
  | _ => (d.makeFolder path).toOption.getD d

-- The lines for a key; a star stands for every key that has none.
def linesFor (script : List (Text × List Line)) (k : Text) : List Line :=
  match script.find? (·.1 = k) with
  | some p => p.2
  | none => ((script.find? (·.1 = ['*'])).map (·.2)).getD []

-- An emitter that answers by a script. Requests with one key get the answers of its lines in turn,
-- and then the last one again.
def scripted (name : Text) (script : List (Text × List Line)) : Emitter (Table Nat) where
  name
  emit := fun r (calls, d) =>
    let k := key r
    let n := (calls.get? k).getD 0
    let lines := linesFor script k
    let calls := calls.insert k (n + 1)
    match lines[min n (lines.length - 1)]? with
    | none => (.error (.said []), (calls, d))
    | some line => (line.answer, (calls, (line.replaced.map (replaceFile d)).getD d))

end Emitter

end Baselines
