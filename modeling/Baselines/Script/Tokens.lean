import Baselines.Script.Parse

/-!
# Tokens of a script

The leaves of a tree in order, each with its text. Comments are passed over, and strings, regular
expressions and numbers count as wholes. The literal parts of a template keep every character
between its substitutions, blanks included.
-/

namespace Baselines.Script

/-- A token: the name of its kind, and its text. -/
structure Token where
  kind : Text
  text : Text
  deriving DecidableEq, Repr

-- The characters of a text from one place up to another.
def slice (source : Text) (start stop : Nat) : Text := (source.drop start).take (stop - start)

-- The token over a part of a text; an empty part has none.
def tokenOf (source : Text) (kind : Text) (start stop : Nat) : List Token :=
  if start = stop then [] else [⟨kind, slice source start stop⟩]

-- The kind of the literal parts of a template.
def chunkKind : Text := "template_chunk"

namespace Node

-- Whether a tree counts as one token, whatever its parts.
def isWhole (n : Node) : Bool :=
  n.children.isEmpty || n.is .string || n.is .regex || n.is .number

mutual

/-- The tokens of a tree over a text. -/
def tokens (source : Text) : Node → List Token
  | node k i j cs =>
    if (node k i j cs).isComment then []
    else if k = .named .templateString then chunks source i j cs
    else if (node k i j cs).isWhole then tokenOf source k.label i j
    else allTokens source cs

-- The tokens of trees, one tree after the other.
def allTokens (source : Text) : List Node → List Token
  | [] => []
  | n :: r => tokens source n ++ allTokens source r

-- The tokens of a template whose next literal part begins at `start`.
def chunks (source : Text) (start stop : Nat) : List Node → List Token
  | [] => tokenOf source chunkKind start stop
  | n :: r =>
    if n.is .templateSubstitution then
      tokenOf source chunkKind start n.start ++ (tokens source n ++ chunks source n.stop stop r)
    else chunks source start stop r

end

end Node

/-- The tokens of a script by what parses it; none if the text is no script. -/
def tokensBy (parse : Text → Option Node) (source : Text) : Option (List Token) :=
  (parse source).map (·.tokens source)

/-- The tokens of a script by the parser in use. -/
def tokens? : Text → Option (List Token) := tokensBy parse?

end Baselines.Script
