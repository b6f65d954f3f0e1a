import Baselines.Arguments.Grammar
import Baselines.Comparison
import Baselines.Target

/-!
# Invocations

What the program can be asked for on its command line.
-/

namespace Baselines.Arguments

/-! ## 1. What is asked -/

/-- When to colour the output. -/
inductive ColourChoice where
  | automatic
  | always
  | never
  deriving DecidableEq, Repr

namespace ColourChoice

def label : ColourChoice → Text
  | automatic => "auto"
  | always => "always"
  | never => "never"

end ColourChoice

/-- A check of baselines against their emitter. -/
structure Check where
  config : Option Text := none
  fixtures : Option Text := none
  sources : Option Text := none
  pattern : Option Text := none
  stage : Option Stage := none
  target : Option Target := none
  mode : Option Mode := none
  runs : Option Nat := none
  jobs : Option Nat := none
  update : Bool := false
  json : Option Text := none
  verbose : Bool := false
  emitter : List Text := []
  deriving DecidableEq, Repr

/-- A comparison of a file with a baseline. -/
structure Compare where
  fixture : Text
  actual : Text
  mode : Mode
  deriving DecidableEq, Repr

/-- A look at what a baseline says of itself. -/
structure Inspect where
  fixture : Text
  json : Bool
  deriving DecidableEq, Repr

/-- The authoring of baselines for all sources. -/
structure Generate where
  sources : Text
  out : Text
  stages : List Stage
  skipExisting : Bool
  emitter : List Text
  deriving DecidableEq, Repr

/-- One of the commands, with what it is told. -/
inductive Invocation where
  | check (a : Check)
  | compare (a : Compare)
  | inspect (a : Inspect)
  | generate (a : Generate)
  deriving DecidableEq, Repr

/-! ## 2. Switches -/

def colours : List (Text × ColourChoice) :=
  [.automatic, .always, .never].map fun c => (c.label, c)

def stages : List (Text × Stage) := [.normal, .minified].map fun s => (s.label, s)

def modes : List (Text × Mode) :=
  [("exact", .exact), ("normalized", .normalized), ("ast", .normalized)]

def targets : List (Text × Target) :=
  Target.all.map (fun t => (t.label, t)) ++
    ([("es6", .es2015), ("es-next", .esnext)] : List (Text × Target))

def helpSwitch {σ : Type} : Switch σ := { name := "help", letter := some 'h', action := .help }

def colourSwitch {σ : Type} (put : ColourChoice → σ → σ) : Switch σ :=
  { name := "color", letter := none
    action := .value fun v a => return put (← readChoice colours v) a }

def valueSwitch {σ : Type} (name : Text) (letter : Option Char) (put : Put σ) : Switch σ :=
  { name, letter, action := .value put }

def flagSwitch {σ : Type} (name : Text) (letter : Option Char) (set : σ → σ) : Switch σ :=
  { name, letter, action := .flag set }

/-! ## 3. Commands -/

/-- What is read for a command: the choice of colour, if it is made there, and the rest. -/
structure Form (σ : Type) where
  colour : Option ColourChoice := none
  rest : σ

-- A record under way, with its choice of colour.
def Form.putRest {σ : Type} (f : Form σ) (rest : Except Misuse σ) : Except Misuse (Form σ) :=
  rest.map fun rest => { f with rest }

def commonSwitches {σ : Type} : List (Switch (Form σ)) :=
  [helpSwitch, colourSwitch fun c f => { f with colour := some c }]

/-- A value of a field of the record under way. -/
def field {σ α : Type} (readValue : Text → Except Misuse α) (put : α → σ → σ) : Put (Form σ) :=
  fun v f => f.putRest ((readValue v).map fun a => put a f.rest)

/-- Any text. -/
def readText (v : Text) : Except Misuse Text := .ok v

def checkGrammar : Grammar (Form Check) where
  switches := commonSwitches ++
    [valueSwitch "config" (some 'c') (field readPath fun v a => { a with config := some v }),
      valueSwitch "fixtures" (some 'f') (field readPath fun v a => { a with fixtures := some v }),
      valueSwitch "sources" (some 's') (field readPath fun v a => { a with sources := some v }),
      valueSwitch "filter" none (field readText fun v a => { a with pattern := some v }),
      valueSwitch "stage" none (field (readChoice stages) fun v a => { a with stage := some v }),
      valueSwitch "target" (some 't')
        (field (fun v => readChoice targets (Text.lowerAscii v)) fun v a =>
          { a with target := some v }),
      valueSwitch "mode" (some 'm') (field (readChoice modes) fun v a => { a with mode := some v }),
      valueSwitch "runs" none (field readCount fun v a => { a with runs := some v }),
      valueSwitch "jobs" (some 'j') (field readCount fun v a => { a with jobs := some v }),
      flagSwitch "update" (some 'u') fun f => { f with rest := { f.rest with update := true } },
      valueSwitch "json" none (field readPath fun v a => { a with json := some v }),
      flagSwitch "verbose" (some 'v') fun f => { f with rest := { f.rest with verbose := true } }]
  trailing := some fun v f => { f with rest := { f.rest with emitter := f.rest.emitter ++ [v] } }

def readCheck (words : List Text) : Except Misuse (Form Check) :=
  checkGrammar.fill { rest := {} } words

/-- A comparison under way. -/
structure CompareDraft where
  fixture : Option Text := none
  actual : Option Text := none
  mode : Option Mode := none

def compareGrammar : Grammar (Form CompareDraft) where
  switches := commonSwitches ++
    [valueSwitch "mode" (some 'm') (field (readChoice modes) fun v a => { a with mode := some v })]
  places :=
    [field readPath fun v a => { a with fixture := some v },
      field readPath fun v a => { a with actual := some v }]

def readCompare (words : List Text) : Except Misuse (Form Compare) := do
  let f ← compareGrammar.fill { rest := {} } words
  match f.rest.fixture, f.rest.actual with
  | some fixture, some actual =>
    return { colour := f.colour, rest := { fixture, actual, mode := f.rest.mode.getD .exact } }
  | _, _ => .error .missingArgument

/-- An inspection under way. -/
structure InspectDraft where
  fixture : Option Text := none
  json : Bool := false

def inspectGrammar : Grammar (Form InspectDraft) where
  switches := commonSwitches ++
    [flagSwitch "json" none fun f => { f with rest := { f.rest with json := true } }]
  places := [field readPath fun v a => { a with fixture := some v }]

def readInspect (words : List Text) : Except Misuse (Form Inspect) := do
  let f ← inspectGrammar.fill { rest := {} } words
  match f.rest.fixture with
  | some fixture => return { colour := f.colour, rest := { fixture, json := f.rest.json } }
  | none => .error .missingArgument

/-- An authoring under way. -/
structure GenerateDraft where
  sources : Option Text := none
  out : Option Text := none
  stages : List Stage := []
  skipExisting : Bool := false
  emitter : List Text := []

-- The words of an authoring.
def generateGrammar : Grammar (Form GenerateDraft) where
  switches := commonSwitches ++
    [valueSwitch "sources" (some 's') (field readPath fun v a => { a with sources := some v }),
      valueSwitch "out" (some 'o') (field readPath fun v a => { a with out := some v }),
      { name := "stage", letter := none
        action := .values (field (readChoice stages) fun v a =>
          { a with stages := a.stages ++ [v] }) },
      flagSwitch "skip-existing" none fun f =>
        { f with rest := { f.rest with skipExisting := true } }]
  trailing := some fun v f => { f with rest := { f.rest with emitter := f.rest.emitter ++ [v] } }

def readGenerate (words : List Text) : Except Misuse (Form Generate) := do
  let f ← generateGrammar.fill { rest := {} } words
  match f.rest.sources, f.rest.out with
  | some sources, some out =>
    if f.rest.emitter = [] then .error .missingArgument
    else
      return { colour := f.colour
               rest := { sources, out, stages := f.rest.stages
                         skipExisting := f.rest.skipExisting, emitter := f.rest.emitter } }
  | _, _ => .error .missingArgument

/-! ## 4. Command lines -/

-- The words that choose a command.
def commandNames : List Text :=
  (["check", "compare", "inspect", "generate", "help"] : List String).map String.toList

-- The words before the command.
def outerGrammar : Grammar (Option ColourChoice) where
  switches := [helpSwitch, { name := "version", letter := some 'V', action := .version },
    colourSwitch fun c _ => some c]
  commands := commandNames

def readCommand (name : Text) (words : List Text) : Except Misuse (Form Invocation) :=
  let under {σ : Type} (make : σ → Invocation) (f : Form σ) : Form Invocation :=
    { colour := f.colour, rest := make f.rest }
  if name = ("check" : Text) then (readCheck words).map (under .check)
  else if name = ("compare" : Text) then (readCompare words).map (under .compare)
  else if name = ("inspect" : Text) then (readInspect words).map (under .inspect)
  else (readGenerate words).map (under .generate)

/-- What a command line asks for, and when to colour. -/
def parse (words : List Text) : Except Misuse (ColourChoice × Invocation) := do
  let (d, command) ← outerGrammar.read { filled := none } words
  match command with
  | none =>
    let d ← d.settle
    .error (if d.filled.isNone then .nothingAsked else .missingCommand)
  | some (name, words) =>
    let form ← readCommand name words
    let d ← d.settle
    return ((form.colour.orElse fun _ => d.filled).getD .automatic, form.rest)

end Baselines.Arguments
