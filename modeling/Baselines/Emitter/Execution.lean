import Baselines.Emitter.Basic
import Baselines.Emitter.Command
import Baselines.Emitter.Shell

/-!
# Execution of commands

A command answers a request like this: the source is written into a folder made for it, the program
is run there, and what it writes is the code. The programs known are the utilities and command
scripts; any other is not found. Nothing of what is done there stays on the disk.
-/

namespace Baselines

namespace Command

/-! ## 1. Programs -/

-- The folders whose programs are known by their names.
def programFolders : List Text := ["/bin/".toList, "/usr/bin/".toList]

def plainName (program : Text) : Text :=
  (programFolders.findSome? fun f => Text.dropLead? f program).getD program

def runKnown? (d : Disk) (name : Text) (args : List Text) : Option Outcome :=
  if name = ("sh" : Text) then some (Shell.run d args) else Utility.run? d name args []

/-- Why a program that is not known cannot be run. -/
def missing (d : Disk) (program : Text) : DiskFault :=
  if program.contains '/' then
    match d.find program with
    | .ok _ => .denied
    | .error e => e
  else if Disk.longestName < Encoding.utf8Length program then .nameTooLong
  else .noEntry

def run (d : Disk) (program : Text) (args : List Text) : Except DiskFault Outcome :=
  if (program :: args).any (·.contains '\x00') then .error .nulInArgument
  else match runKnown? d (plainName program) args with
    | some o => .ok o
    | none => .error (missing d program)

/-! ## 2. Answers -/

-- The folder where sources are written for a command.
def workFolder : Path := "/tmp/emitter"

-- The path of the file that holds the source.
def inputFile (r : Request) : Path := Path.append (workFolder ++ ['/']) (inputPath r)

/-- The disk with the source of a request, which starts in the folder made for it. -/
def prepare (d : Disk) (r : Request) : Except DiskFault Disk := do
  let d ← d.makeFolders workFolder
  let d ← d.makeFolders ((Path.parent? (inputFile r)).getD [])
  let d ← d.write (inputFile r) (Encoding.utf8Encode r.source)
  .ok { d with start := ← d.locate workFolder }

-- The code that a process wrote, unless it failed.
def answerOf (o : Outcome) : Answer :=
  if o.succeeded then
    match Encoding.utf8Decode? o.output with
    | some t => .ok t
    | none => .error .notUtf8
  else .error (.failed o.ending.text (Text.trim (Encoding.utf8Lossy o.complaint)))

def answer (c : Command) (d : Disk) (r : Request) : Answer :=
  match prepare d r with
  | .error e => .error (.input e)
  | .ok d =>
    match run d c.program (c.arguments r (inputFile r)) with
    | .error e => .error (.spawn c.program e)
    | .ok o => answerOf o

def emitter (c : Command) : Emitter Unit where
  name := c.program
  emit := fun r (s, d) => (c.answer d r, (s, d))

end Command

end Baselines
