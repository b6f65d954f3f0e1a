import Baselines.Emitter.Request
import Baselines.Path

/-!
# Command lines of emitters

A program and templates of its arguments. A template may name parts of a request in braces; the
names are replaced one after the other, each over what the replacements before it have left.
-/

namespace Baselines

/-- A program and the templates of its arguments. -/
structure Command where
  program : Text
  args : List Text
  deriving DecidableEq, Repr

namespace Command

def slot (name : Text) : Text := '{' :: name ++ ['}']

def ofWords? : List Text → Option Command
  | [] => none
  | program :: args => some { program, args }

-- The templates of the arguments; a command without any is given the input.
def templates (c : Command) : List Text := if c.args = [] then [slot "input"] else c.args

-- What the names in braces stand for, in the order in which they are replaced.
def slots (r : Request) (input : Path) : List (Text × Text) :=
  [(slot "input", input), (slot "file", r.file), (slot "target", r.targetLabel),
    (slot "stage", r.stage.label), (slot "minify", if r.stage.isMinified then "true" else "false"),
    (slot "options", r.optionLine)]

def fill (r : Request) (input : Path) (template : Text) : Text :=
  (slots r input).foldl (fun t s => Text.replace s.1 s.2 t) template

/-- The arguments for a request whose source stands in the file `input`. -/
def arguments (c : Command) (r : Request) (input : Path) : List Text :=
  c.templates.map (fill r input)

/-- The path, within the folder made for it, of the file that holds the source: two dots become an
underscore, and slashes at the start are dropped. -/
def inputPath (r : Request) : Path := (Text.replace ".." ['_'] r.file).dropWhile (· = '/')

end Command

end Baselines
