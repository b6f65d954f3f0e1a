import Baselines.Emitter.Utility
import Baselines.Text.Blank

/-!
# Command scripts

A small command language: utilities with their arguments, in sequence, in pipelines, or one
depending on the other; quotes, parameters, and outputs that are sent elsewhere.
-/

namespace Baselines.Shell

/-! ## 1. Words -/

/-- A part of a word. -/
inductive Bit where
  | char (c : Char)
  | param (name : Text) (quoted : Bool)
  deriving DecidableEq, Repr

/-- A word, and whether any part of it stood in quotes. -/
structure Word where
  bits : List Bit := []
  quoted : Bool := false
  deriving DecidableEq, Repr

/-- A word or mark of a script. -/
inductive Token where
  | word (w : Word)
  | next
  | ifGood
  | ifBad
  | pipe
  /-- Sends one output where another goes. -/
  | join (source target : Nat)
  /-- Sends one output to the file named by the next word. -/
  | send (source : Nat)
  /-- Takes the input from the file named by the next word. -/
  | take
  deriving DecidableEq, Repr

-- Whether a character may stand in the name of a parameter.
def isNameChar (c : Char) : Bool := c.isAlphanum || c = '_'

-- The character that a part of a word is, if it may stand in a name.
def Bit.nameChar? : Bit → Option Char
  | .char c => if isNameChar c then some c else none
  | .param .. => none

-- The parameter after a dollar sign, and what follows.
def readParam (quoted : Bool) (t : Text) : Bit × Text :=
  match t with
  | '{' :: r => (.param (r.takeWhile (· ≠ '}')) quoted, (r.dropWhile (· ≠ '}')).tail)
  | c :: r =>
    if c.isDigit ∨ c = '$' ∨ c = '?' ∨ c = '#' ∨ c = '@' ∨ c = '*' then (.param [c] quoted, r)
    else if isNameChar c then (.param (t.takeWhile isNameChar) quoted, t.dropWhile isNameChar)
    else (.char '$', t)
  | [] => (.char '$', [])

-- Puts characters after the parts of a word.
def Word.addText (w : Word) (t : Text) : Word := { w with bits := w.bits ++ t.map .char }

-- Puts a part after the parts of a word.
def Word.add (w : Word) (b : Bit) : Word := { w with bits := w.bits ++ [b] }

-- A part of a word in double quotes, up to the closing one. The first argument bounds its
-- length.
def readQuoted : Nat → Word → Text → Option (Word × Text)
  | 0, _, _ | _, _, [] => none
  | n + 1, w, c :: r =>
    if c = '"' then some (w, r)
    else if c = '$' then
      let (b, r) := readParam true r
      readQuoted n (w.add b) r
    else if c = '\\' then
      match r with
      | e :: r =>
        if e = '"' ∨ e = '\\' ∨ e = '$' ∨ e = '\x60' then readQuoted n (w.addText [e]) r
        else readQuoted n (w.addText [c, e]) r
      | [] => none
    else readQuoted n (w.addText [c]) r

/-- A word up to the blank or mark after it, or nothing if a quote is not closed. The first argument
bounds its length. -/
def readWord : Nat → Word → Text → Option (Word × Text)
  | 0, w, t => some (w, t)
  | _, w, [] => some (w, [])
  | n + 1, w, c :: r =>
    if c = '\'' then
      match Text.splitFirst? '\'' r with
      | some (inner, r) => readWord n { w.addText inner with quoted := true } r
      | none => none
    else if c = '"' then
      match readQuoted n { w with quoted := true } r with
      | some (w, r) => readWord n w r
      | none => none
    else if c = '\\' then
      match r with
      | e :: r => readWord n { w.addText [e] with quoted := true } r
      | [] => some (w.addText [c], [])
    else if c = '$' then
      let (b, r) := readParam false r
      readWord n (w.add b) r
    else if c = ' ' ∨ c = '\t' ∨ c = '\n' ∨ c = ';' ∨ c = '&' ∨ c = '|' ∨ c = '<' ∨ c = '>' then
      some (w, c :: r)
    else readWord n (w.addText [c]) r

-- What follows a sign that sends an output elsewhere, for the output with a number.
def readSend (source : Nat) (t : Text) : Token × Text :=
  match t with
  | '&' :: c :: r =>
    if c.isDigit then (.join source (Text.digitValue c), r) else (.send source, c :: r)
  | '>' :: r => (.send source, r)
  | _ => (.send source, t)

/-- The words and marks of a script, or nothing if a quote is not closed. The first argument bounds
their number. -/
def tokens : Nat → Text → Option (List Token)
  | 0, _ | _, [] => some []
  | n + 1, c :: r =>
    if c = ' ' ∨ c = '\t' then tokens n r
    else if c = ';' ∨ c = '\n' then (tokens n r).map (.next :: ·)
    else if c = '#' then tokens n (r.dropWhile (· ≠ '\n'))
    else if c = '<' then (tokens n r).map (.take :: ·)
    else if c = '>' then
      let (t, r) := readSend 1 r
      (tokens n r).map (t :: ·)
    else match c, r with
      | '&', '&' :: r => (tokens n r).map (.ifGood :: ·)
      | '|', '|' :: r => (tokens n r).map (.ifBad :: ·)
      | '|', r => (tokens n r).map (.pipe :: ·)
      | '&', r => (tokens n r).map (.next :: ·)
      | '1', '>' :: r | '2', '>' :: r =>
        let (t, r) := readSend (Text.digitValue c) r
        (tokens n r).map (t :: ·)
      | _, _ => do
        let (w, r) ← readWord (r.length + 1) {} (c :: r)
        return .word w :: (← tokens n r)

/-! ## 2. Commands -/

/-- When a pipeline is run, by how the one before it ended. -/
inductive Link where
  | always
  | ifGood
  | ifBad
  deriving DecidableEq, Repr

/-- A way that an output or the input is sent. -/
inductive Route where
  | join (source target : Nat)
  | send (source : Nat)
  | take (file : Word)
  deriving DecidableEq, Repr

/-- A utility with its arguments, and where its outputs go. -/
structure Command where
  words : List Word := []
  routes : List Route := []
  deriving DecidableEq, Repr

def Command.addWord (c : Command) (w : Word) : Command := { c with words := c.words ++ [w] }

-- A command with one more way that an output or the input is sent.
def Command.addRoute (c : Command) (r : Route) : Command := { c with routes := c.routes ++ [r] }

/-- A script that is being read: the pipelines before, last first, the commands before in the
current one, last first, and the current command. -/
structure Draft where
  before : List (Link × List Command) := []
  link : Link := .always
  stages : List Command := []
  command : Command := {}
  /-- What is done with the next word, unless it is an argument. -/
  awaited : Option Token := none

namespace Draft

-- Ends the current pipeline.
def finish (d : Draft) (link : Link) : Draft :=
  if d.command.words = [] ∧ d.command.routes = [] ∧ d.stages = [] then { d with link }
  else { before := (d.link, (d.command :: d.stages).reverse) :: d.before, link }

-- Adds a word or mark.
def add (d : Draft) : Token → Draft
  | .next => d.finish .always
  | .ifGood => d.finish .ifGood
  | .ifBad => d.finish .ifBad
  | .pipe => { d with stages := d.command :: d.stages, command := {} }
  | .join a b => { d with command := d.command.addRoute (.join a b) }
  | .send a => { d with awaited := some (.send a) }
  | .take => { d with awaited := some .take }
  | .word w =>
    match d.awaited with
    | some (.send a) =>
      { d with awaited := none, command := d.command.addRoute (.send a) }
    | some .take =>
      { d with awaited := none, command := d.command.addRoute (.take w) }
    | _ => { d with command := d.command.addWord w }

end Draft

def pipelines (ts : List Token) : List (Link × List Command) :=
  ((ts.foldl Draft.add {}).finish .always).before.reverse

/-! ## 3. Sessions -/

/-- A script under way. -/
structure Session where
  disk : Disk
  name : Text
  args : List Text
  values : List (Text × Text) := [("LC_ALL", ['C'])]
  last : Nat := 0
  output : Bytes := []
  complaint : Bytes := []
  ended : Option Ending := none

namespace Session

/-- The value of a parameter. The number of the process is not a value that a script can tell from
another, so it is given as a word. -/
def value (s : Session) (param : Text) : Text :=
  match Text.number? param with
  | some 0 => s.name
  | some (n + 1) => (s.args[n]?).getD []
  | none =>
    if param = ['?'] then Text.ofNat s.last
    else if param = ['#'] then Text.ofNat s.args.length
    else if param = ['$'] then "self"
    else if param = ['@'] ∨ param = ['*'] then Text.join [' '] s.args
    else ((s.values.find? (·.1 = param)).map (·.2)).getD []

/-- The fields of a text between blanks. -/
def fields (t : Text) : List Text :=
  (Text.splitOn ' ' (t.map fun c => if c = '\t' ∨ c = '\n' then ' ' else c)).filter (· ≠ [])

-- Puts fields after those before: the first one is joined to the last.
def joinFields : List Text → List Text → List Text
  | before, [] => before
  | [], more => more
  | before, a :: more => before.dropLast ++ (before.getLast?.getD [] ++ a) :: more

def expand (s : Session) (w : Word) : List Text :=
  let step := fun (found : List Text) (b : Bit) =>
    match b with
    | .char c => joinFields found [[c]]
    | .param name quoted =>
      if quoted then
        if name = ['@'] then joinFields found s.args else joinFields found [s.value name]
      else joinFields found (fields (s.value name))
  w.bits.foldl step (if w.quoted ∧ w.bits ≠ [.param ['@'] true] then [[]] else [])

-- A value that a word gives to a name.
def assignment? (s : Session) (w : Word) : Option (Text × Text) :=
  let name := w.bits.takeWhile fun b => b ≠ .char '='
  match name.mapM Bit.nameChar?, w.bits.drop name.length with
  | some (c :: cs), _ :: rest =>
    if c.isDigit then none
    else some (c :: cs, Text.join [' '] (s.expand { bits := rest, quoted := true }))
  | _, _ => none

-- The signal that a word names.
def signal? (t : Text) : Option Nat :=
  match Text.number? t with
  | some n => some n
  | none => (Ending.signals.find? (·.2 = (Text.dropLead? "SIG" t).getD t)).map (·.1)

-- The ending that comes of sending a signal to the script itself.
def killed? : List Text → Option Ending
  | [['-', 's'], t, _] => (signal? t).map .signal
  | [a, _] => (Text.dropLead? ['-'] a).bind fun t => (signal? t).map .signal
  | [_] => some (.signal 15)
  | _ => none

-- A command by its fields, with its standard input; the ending, if there is one, is that of the
-- script.
def runFields (s : Session) (input : Bytes) (words : List Text) : Outcome × Option Ending :=
  match words with
  | [] => ({}, none)
  | name :: args =>
    let ran := fun (name : Text) (args : List Text) =>
      if name = ("echo" : Text) then Utility.echo true args
      else if name = [':'] then {}
      else (Utility.run? s.disk name args input).getD
        (.failed 127 (s.name ++ ": 1: " ++ name ++ ": not found\n"))
    if name = ("exit" : Text) then
      ({}, some (.exit (((args.head?.bind Text.number?).getD s.last) % 256)))
    else if name = ("kill" : Text) then ({}, killed? args)
    else if name = ("exec" : Text) then
      match args with
      | [] => ({}, none)
      | name :: args =>
        let o := ran name args
        (o, some o.ending)
    else (ran name args, none)

/-- Where the two outputs go: to the output, to the complaints, or nowhere. -/
abbrev Targets := Nat × Nat

-- The targets after one more way.
def reroute : Targets → Route → Targets
  | (out, err), .join source target =>
    let there := if target = 1 then out else if target = 2 then err else 0
    if source = 1 then (there, err) else if source = 2 then (out, there) else (out, err)
  | (out, err), .send source =>
    if source = 1 then (0, err) else if source = 2 then (out, 0) else (out, err)
  | t, .take _ => t

-- The input of a command, where a file is named for it.
def inputOf (s : Session) (input : Bytes) : List Route → Bytes
  | [] => input
  | .take w :: r =>
    s.inputOf (((s.disk.read (Text.join [' '] (s.expand w))).toOption).getD []) r
  | _ :: r => s.inputOf input r

-- One command with its standard input: what goes on to the output, the session after, and the
-- ending of the script if the command ends it.
def runCommand (s : Session) (input : Bytes) (c : Command) : Bytes × Session × Option Ending :=
  -- the words before the utility that give values to names
  let given := c.words.takeWhile fun w => (s.assignment? w).isSome
  let s := { s with values := (given.filterMap s.assignment?).reverse ++ s.values }
  let words := (c.words.drop given.length).flatMap s.expand
  let (o, ended) := s.runFields (s.inputOf input c.routes) words
  let (out, err) := c.routes.foldl reroute (1, 2)
  let part := fun (target : Nat) =>
    (if out = target then o.output else []) ++ (if err = target then o.complaint else [])
  let last := match ended.getD o.ending with
    | .exit n => n
    | .signal n => 128 + n
  (part 1, { s with complaint := s.complaint ++ part 2, last }, ended)

-- A pipeline: each command reads what the one before wrote. A command ends the script only if it
-- stands alone.
def runStages (s : Session) (alone : Bool) (input : Bytes) : List Command → Session
  | [] => { s with output := s.output ++ input }
  | c :: r =>
    let (out, s, ended) := s.runCommand input c
    runStages { s with ended := if alone then ended else none } alone out r

def runPipeline (s : Session) (p : Link × List Command) : Session :=
  let due := match p.1 with
    | .always => true
    | .ifGood => s.last = 0
    | .ifBad => s.last ≠ 0
  if s.ended.isSome ∨ !due then s else s.runStages (p.2.length = 1) [] p.2

-- What a script leaves behind when it has been run to its end.
def outcome (s : Session) : Outcome :=
  { output := s.output, complaint := s.complaint, ending := s.ended.getD (.exit s.last) }

end Session

def runScript (d : Disk) (script name : Text) (args : List Text) : Outcome :=
  match tokens (script.length + 1) script with
  | none => .failed 2 (name ++ ": 1: Syntax error: Unterminated quoted string\n")
  | some ts => ((pipelines ts).foldl Session.runPipeline { disk := d, name, args }).outcome

/-- Runs the script that the arguments hold or name. -/
def run (d : Disk) (args : List Text) : Outcome :=
  match args with
  | [] => {}
  | ['-', 'c'] :: script :: name :: args => runScript d script name args
  | ['-', 'c'] :: script :: _ => runScript d script "sh" []
  | file :: args =>
    match d.read file with
    | .ok b => runScript d (Encoding.utf8Lossy b) file args
    | .error e => .failed 2 ("sh: 0: cannot open " ++ file ++ ": " ++ e.reason ++ "\n")

end Baselines.Shell
