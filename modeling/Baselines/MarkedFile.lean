import Baselines.Text.Blank
import Baselines.Text.Lines

/-!
# Marked files

A baseline holds code in sections. A line `//// [file]` begins a section and names the source that
its code was emitted from; the lines are no part of the code. Text before the first such line is a
section without a name.
-/

namespace Baselines

/-- A part of a baseline, and the source that it came from. -/
structure Section where
  file : Option Text
  /-- The lines, joined by line feeds. -/
  body : Text
  deriving DecidableEq, Repr

/-- The contents of a baseline. -/
structure MarkedFile where
  sections : List Section
  deriving DecidableEq, Repr

namespace MarkedFile

/-! ## 1. Reading -/

/-- What a marker line begins with. -/
def opening : Text := "//// ["

def marker? (line : Text) : Option Text := do
  let rest ← Text.dropLead? opening line
  let (file, tail) ← Text.splitFirst? ']' rest
  if file ≠ [] ∧ tail.all Text.isBlank then some file else none

/-- The lines before the first marker line, and after each marker line the lines up to the next. -/
def blocks : List Text → List Text × List (Text × List Text)
  | [] => ([], [])
  | line :: r =>
    let (front, named) := blocks r
    match marker? line with
    | some file => ([], (file, front) :: named)
    | none => (line :: front, named)

/-- The sections of the lines; without a line before the first marker there is no unnamed
section. -/
def ofLines (ls : List Text) : MarkedFile :=
  let (front, named) := blocks ls
  let unnamed := if front = [] then [] else [{ file := none, body := Text.unlines front : Section }]
  ⟨unnamed ++ named.map fun b => { file := some b.1, body := Text.unlines b.2 }⟩

/-- The sections of a text; a byte order mark before it is dropped. -/
def parse (t : Text) : MarkedFile := ofLines (Text.lines (Text.dropMark t))

/-! ## 2. Writing -/

/-- A file with one named section. -/
def single (file code : Text) : MarkedFile := ⟨[{ file := some file, body := code }]⟩

def markerLine (file : Text) : Text := opening ++ file ++ [']']

/-- The pieces of a section that stand on lines of their own. An empty body writes nothing below its
marker; without a marker it writes an empty line. -/
def Section.pieces (s : Section) : List Text :=
  match s.file with
  | some file => if s.body = [] then [markerLine file] else [markerLine file, s.body]
  | none => [s.body]

def render (f : MarkedFile) : Text :=
  Text.join ['\n'] (f.sections.flatMap Section.pieces) ++ ['\n']

/-! ## 3. Code -/

def code (f : MarkedFile) : Text := Text.join ['\n'] (f.sections.map (·.body))

/-- The source that the first marker names. -/
def primary? (f : MarkedFile) : Option Text := f.sections.findSome? (·.file)

/-- The file with all of its code replaced, under the first marker that it had. -/
def withCode (f : MarkedFile) (code : Text) : MarkedFile :=
  ⟨[{ file := f.primary?, body := Text.dropLineEnds code }]⟩

end MarkedFile

end Baselines
