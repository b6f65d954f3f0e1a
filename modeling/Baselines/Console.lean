import Baselines.Arguments.Invocation
import Baselines.Authoring
import Baselines.Emitter.Execution
import Baselines.Inspection
import Baselines.Presentation
import Baselines.Suite

/-!
# Console

The program as it is met on a console: a command line is read and carried out on a disk, and leaves
a text, a code and a disk. Which emitter a command stands for is told from outside: any emitters will
do, with a memory and with changes to the disk of their own.
-/

namespace Baselines

namespace Arguments.Misuse

/-- The code of a command line that is not carried out; help that was asked for is no failure. -/
def exitCode : Misuse → Nat
  | helpAsked | versionAsked => 0
  | _ => 2

end Arguments.Misuse

namespace Console

open Arguments (Check Compare Inspect Generate Invocation ColourChoice Misuse)

/-! ## 1. Outcomes -/

/-- Why a command is not carried out to its end. -/
inductive Complaint where
  | trouble (t : Trouble)
  | noFixtures
  | noEmitter
  | noCommand
  | unreported (path : Path) (t : Trouble)
  | inspection (f : Inspection.Failure)
  deriving DecidableEq, Repr

/-- The sentence that reports a complaint, with what lies behind it. -/
def Complaint.message : Complaint → Text
  | trouble t => t.chain
  | noFixtures => "no fixtures directory; pass --fixtures or set fixturesDir in tsz-golden.json"
  | noEmitter => "no emitter; pass a command after \x60--\x60 or set emitter in tsz-golden.json"
  | noCommand => "no emitter; pass a command after \x60--\x60"
  | unreported path t => "failed to write report to " ++ path ++ ": " ++ t.chain
  | inspection f => f.message

/-- What a command leaves: a code and a text, or a complaint. -/
inductive Result where
  | done (code : Nat) (output : Text)
  | misused (m : Misuse)
  | failed (c : Complaint)
  deriving DecidableEq, Repr

/-- The code of a run of the program. -/
def Result.exitCode : Result → Nat
  | done code _ => code
  | misused m => m.exitCode
  | failed _ => 2

/-- What a run of the program prints. -/
def Result.output : Result → Text
  | done _ output => output
  | _ => []

-- The code of a run that found failures or none.
def codeFor (failed : Bool) : Nat := if failed then 1 else 0

/-! ## 2. Checks -/

/-- The settings of a check: those of the file that it names, or else those of the folder where the
program is run, if there are any. -/
def settings (d : Disk) (file : Option Path) : Except Trouble Settings :=
  let here : Path := '/' :: Disk.relativePath d.start
  match file.orElse fun _ => Settings.find? d here with
  | some path => Settings.load d path
  | none => .ok {}

-- The suite that a check asks for. What its switches say counts before the settings.
def suiteOf (a : Check) (s : Settings) (updateAsked : Bool) : Except Complaint Suite :=
  match a.fixtures.orElse fun _ => s.fixtures with
  | none => .error .noFixtures
  | some root => do
    let selection ← match a.pattern.orElse fun _ => s.pattern with
      | none => .ok {}
      | some pattern =>
        match Selection.withPattern {} pattern with
        | .ok selection => .ok selection
        | .error fault => .error (.trouble (.badPattern pattern fault))
    return {
      root
      sources := a.sources.orElse fun _ => s.sources
      selection := { selection with stage := a.stage, target := a.target }
      mode := (a.mode.orElse fun _ => s.mode).getD .exact
      runs := (a.runs.orElse fun _ => s.runs).getD 1
      jobs := a.jobs.orElse fun _ => s.jobs
      update := a.update || s.update.getD false || updateAsked }

def writeReport (r : Report) (file : Option Path) (d : Disk) : Except Complaint Disk :=
  match file with
  | none => .ok d
  | some path =>
    match d.write path (Encoding.utf8Encode r.toJson.render) with
    | .ok d => .ok d
    | .error e => .error (.unreported path (.unwritable path e))

def prepared (a : Check) (updateAsked : Bool) (d : Disk) : Except Complaint (Suite × Command) := do
  let s ← match settings d a.config with
    | .ok s => .ok s
    | .error t => .error (.trouble t)
  let suite ← suiteOf a s updateAsked
  match (Command.ofWords? a.emitter).orElse fun _ => s.emitter with
  | some command => .ok (suite, command)
  | none => .error .noEmitter

section Emitters

-- The emitter that a command stands for.
variable {σ : Type} (emitterOf : Command → Emitter σ)

/-- Checks baselines, and leaves a memory of the emitters and a disk. -/
def check (a : Check) (colour updateAsked : Bool) (s : σ × Disk) : Result × (σ × Disk) :=
  match prepared a updateAsked s.2 with
  | .error c => (.failed c, s)
  | .ok (suite, command) =>
    match suite.run (emitterOf command) s with
    | (.error t, s) => (.failed (.trouble t), s)
    | (.ok report, (memory, d)) =>
      match writeReport report a.json d with
      | .error c => (.failed c, (memory, d))
      | .ok d =>
        (.done (codeFor report.tally.hasFailures)
          ((Presentation.report a.verbose report).text colour ++ "\n"), (memory, d))

/-! ## 3. Authoring -/

-- What an authoring command asks for; without stages all are meant.
def authoringOf (a : Generate) : Authoring :=
  { sources := a.sources
    out := a.out
    stages := if a.stages = [] then [.normal, .minified] else a.stages
    skipExisting := a.skipExisting }

def generate (a : Generate) (colour : Bool) (s : σ × Disk) : Result × (σ × Disk) :=
  match Command.ofWords? a.emitter with
  | none => (.failed .noCommand, s)
  | some command =>
    match (authoringOf a).run (emitterOf command) s with
    | (.error t, s) => (.failed (.trouble t), s)
    | (.ok t, s) =>
      (.done (codeFor (t.failed ≠ []))
        ((Presentation.authored t.written.length t.skipped t.failed).text colour ++ "\n"), s)

end Emitters

/-! ## 4. Other commands -/

def compare (a : Compare) (colour : Bool) (d : Disk) : Result :=
  match Comparison.ofFiles d a.fixture a.actual a.mode with
  | .error t => .failed (.trouble t)
  | .ok c => .done (codeFor !c.isMatch) ((Presentation.comparison c).text colour ++ "\n")

def inspect (a : Inspect) (d : Disk) : Result :=
  match Inspection.ofFile d a.fixture with
  | .error f => .failed (.inspection f)
  | .ok i => .done 0 (if a.json then i.toJson.render ++ "\n" else i.text)

/-! ## 5. The program -/

/-- Whether to colour the output, on a terminal that can or cannot show it. -/
def colours (choice : ColourChoice) (terminal : Bool) : Bool :=
  match choice with
  | .automatic => terminal
  | .always => true
  | .never => false

def carryOut {σ : Type} (emitterOf : Command → Emitter σ) (i : Invocation)
    (colour updateAsked : Bool) (s : σ × Disk) : Result × (σ × Disk) :=
  match i with
  | .check a => check emitterOf a colour updateAsked s
  | .compare a => (compare a colour s.2, s)
  | .inspect a => (inspect a s.2, s)
  | .generate a => generate emitterOf a colour s

/-- Runs the program on the words of a command line. `updateVariable` is the value of the variable
of the environment that asks for an update. -/
def runWith {σ : Type} (emitterOf : Command → Emitter σ) (words : List Text)
    (updateVariable : Option Text) (terminal : Bool) (s : σ × Disk) : Result × (σ × Disk) :=
  match Arguments.parse words with
  | .error m => (.misused m, s)
  | .ok (choice, i) =>
    carryOut emitterOf i (colours choice terminal) (Settings.updateAsked updateVariable) s

/-- Runs the program where commands are what they are on a console. -/
def run (words : List Text) (updateVariable : Option Text) (terminal : Bool) (d : Disk) :
    Result × Disk :=
  let (r, s) := runWith Command.emitter words updateVariable terminal ((), d)
  (r, s.2)

end Console

end Baselines
