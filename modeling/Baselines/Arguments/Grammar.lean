import Baselines.Text.Basic

/-!
# Grammars of command lines

A command line is read word by word into a record. A word with two hyphens is a switch by its name,
one with a single hyphen holds switches by their letters, and other words are values: of the switch
before, or of the next open place. After two hyphens alone all words are values. A value is looked
at only when the next switch or place is reached, so that a word that means nothing is reported
before a bad value.
-/

namespace Baselines.Arguments

/-! ## 1. Grammars -/

/-- Why a command line is not carried out. -/
inductive Misuse where
  | unknownArgument
  | invalidValue
  | malformedValue
  | repeated
  | unwantedValue
  | missingArgument
  | unknownCommand
  | missingCommand
  | nothingAsked
  | helpAsked
  | versionAsked
  deriving DecidableEq, Repr

/-- Puts the text of a value into a record. -/
abbrev Put (σ : Type) := Text → σ → Except Misuse σ

/-- What a switch does. -/
inductive Action (σ : Type) where
  | help
  | version
  /-- Sets a flag, and may be given once. -/
  | flag (set : σ → σ)
  /-- Takes a value, and may be given once. -/
  | value (put : Put σ)
  /-- Takes values with commas between, and may be given again. -/
  | values (put : Put σ)

/-- A switch, with its name and perhaps a letter. -/
structure Switch (σ : Type) where
  name : Text
  letter : Option Char
  action : Action σ

/-- What the words of a command line may be. -/
structure Grammar (σ : Type) where
  switches : List (Switch σ)
  /-- The places of values, in order. -/
  places : List (Put σ) := []
  /-- What takes the values after two hyphens alone, if they have a place of their own. -/
  trailing : Option (Text → σ → σ) := none
  /-- The words that end the reading and hand on what follows. -/
  commands : List Text := []

/-! ## 2. Drafts -/

/-- A value that has not been looked at yet. -/
inductive Pending (σ : Type) where
  | switch (s : Switch σ) (value : Option Text)
  | place (put : Put σ) (value : Text)

/-- What has been read. -/
structure Draft (σ : Type) where
  filled : σ
  /-- The names of the switches that may not be given again. -/
  given : List Text := []
  pending : Option (Pending σ) := none
  /-- Whether the next value belongs to the pending switch. -/
  awaiting : Bool := false
  /-- The number of places that have their value. -/
  placed : Nat := 0
  /-- Whether only values follow. -/
  valuesOnly : Bool := false

variable {σ : Type}

namespace Draft

def perform (d : Draft σ) (s : Switch σ) (value : Option Text) : Except Misuse (Draft σ) :=
  match s.action, value with
  | .help, _ => .error .helpAsked
  | .version, _ => .error .versionAsked
  | .flag set, _ =>
    if d.given.contains s.name then .error .repeated
    else .ok { d with given := s.name :: d.given, filled := set d.filled }
  | .value _, none | .values _, none => .error .invalidValue
  | .value put, some v => do
    if d.given.contains s.name then .error .repeated
    else .ok { d with given := s.name :: d.given, filled := ← put v d.filled }
  | .values put, some v => do
    .ok { d with filled := ← (Text.splitOn ',' v).foldlM (fun filled v => put v filled) d.filled }

/-- Looks at the pending value. -/
def settle (d : Draft σ) : Except Misuse (Draft σ) :=
  let free := { d with pending := none, awaiting := false }
  match d.pending with
  | none => .ok free
  | some (.switch s value) => free.perform s value
  | some (.place put value) => do .ok { free with filled := ← put value d.filled }

-- A switch that is met, with the value that stands in the same word.
def meet (d : Draft σ) (s : Switch σ) (attached : Option Text) : Except Misuse (Draft σ) :=
  match s.action, attached with
  | .value _, none | .values _, none => do
    let d ← d.settle
    .ok { d with pending := some (.switch s none), awaiting := true }
  | _, _ => do (← d.settle).perform s attached

end Draft

/-! ## 3. Words -/

namespace Action

def takesValue : Action σ → Bool
  | .value _ | .values _ => true
  | _ => false

end Action

namespace Grammar

-- A word that names a switch, without its hyphens.
def readName (g : Grammar σ) (d : Draft σ) (word : Text) : Except Misuse (Draft σ) :=
  let (name, attached) := match Text.splitFirst? '=' word with
    | some (name, v) => (name, some v)
    | none => (word, none)
  match g.switches.find? (·.name = name) with
  | none => .error .unknownArgument
  | some s =>
    if attached.isSome ∧ !s.action.takesValue then .error .unwantedValue else d.meet s attached

-- A word of letters that are switches, without its hyphen. What follows a letter that takes a
-- value is the value.
def readLetters (g : Grammar σ) : Draft σ → Text → Except Misuse (Draft σ)
  | d, [] => .ok d
  | d, c :: r =>
    match g.switches.find? (·.letter = some c) with
    | none => .error .unknownArgument
    | some s =>
      if s.action.takesValue then
        if r = [] then d.meet s none else d.meet s (some ((Text.dropLead? ['='] r).getD r))
      else do g.readLetters (← d.meet s none) r

def readPlace (g : Grammar σ) (d : Draft σ) (word : Text) : Except Misuse (Draft σ) :=
  match g.trailing with
  | some put =>
    if d.valuesOnly then do
      let d ← d.settle
      .ok { d with filled := put word d.filled }
    else .error .unknownArgument
  | none =>
    match g.places[d.placed]? with
    | some put => do
      let d ← d.settle
      .ok { d with pending := some (.place put word), placed := d.placed + 1 }
    | none =>
      if g.commands = [] ∨ d.valuesOnly ∧ g.commands.contains word then .error .unknownArgument
      else .error .unknownCommand

-- The words after a question for help.
def readHelp (g : Grammar σ) : List Text → Misuse
  | [] => .helpAsked
  | [c] => if g.commands.contains c then .helpAsked else .unknownCommand
  | _ => .unknownCommand

def readWord (g : Grammar σ) (d : Draft σ) (word : Text) : Except Misuse (Draft σ) :=
  let value : Unit → Except Misuse (Draft σ) := fun _ =>
    match d.awaiting, d.pending with
    | true, some (.switch s _) =>
      .ok { d with pending := some (.switch s (some word)), awaiting := false }
    | _, _ => g.readPlace d word
  if d.valuesOnly then g.readPlace d word
  else match word with
    | ['-', '-'] => .ok { d with valuesOnly := true }
    | '-' :: '-' :: name => g.readName d name
    | '-' :: c :: letters => g.readLetters d (c :: letters)
    | _ => value ()

/-- Words up to a command, which is given with the words after it. -/
def read (g : Grammar σ) : Draft σ → List Text →
    Except Misuse (Draft σ × Option (Text × List Text))
  | d, [] => .ok (d, none)
  | d, word :: r =>
    if !d.valuesOnly && !d.awaiting && g.commands.contains word then
      if word = ("help" : Text) then .error (g.readHelp r) else .ok (d, some (word, r))
    else do g.read (← g.readWord d word) r

/-- A record filled from words, none of which is a command. -/
def fill (g : Grammar σ) (empty : σ) (words : List Text) : Except Misuse σ := do
  let (d, _) ← g.read { filled := empty } words
  return (← d.settle).filled

end Grammar

/-! ## 4. Values -/

/-- A path, which may not be empty. -/
def readPath (v : Text) : Except Misuse Text := if v = [] then .error .invalidValue else .ok v

/-- A number of at most 64 bits, perhaps with a plus sign. -/
def readCount (v : Text) : Except Misuse Nat :=
  match (Text.number? ((Text.dropLead? ['+'] v).getD v)).filter (· < Nat.pow 2 64) with
  | some n => .ok n
  | none => .error .malformedValue

def readChoice {α : Type} (known : List (Text × α)) (v : Text) : Except Misuse α :=
  match known.find? (·.1 = v) with
  | some p => .ok p.2
  | none => .error .invalidValue

end Baselines.Arguments
