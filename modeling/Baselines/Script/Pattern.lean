import Baselines.Script.Rule

/-!
# Patterns

What is assigned to, and what parameters are made of, is first read as an expression, and is then
turned into the pattern that the expression describes.
-/

namespace Baselines.Script

/-- Where a pattern stands. -/
inductive Role where
  /-- What is assigned to as a whole. -/
  | target
  /-- An item of an array, of parameters, or the value of a pair. -/
  | element
  /-- A member of an object. -/
  | member
  deriving DecidableEq

-- The marks that stand between the parts of an array, an object or parameters.
def isPunctuation (n : Node) : Bool :=
  [['['], [']'], ['{'], ['}'], ['('], [')'], [','], ['.', '.', '.']].any n.isMark

-- Whether the left side of an assignment may be the left side of a default.
def takesDefault : List Node → Bool
  | n :: _ => !n.is .parenthesized
  | [] => false

namespace Node

mutual

/-- The pattern that an expression describes. -/
def pattern? : Role → Node → Option Node
  | role, node (.mark t) i j cs =>
    if t = "undefined" ∧ role ≠ .member then some (node (.mark t) i j cs) else none
  | role, node (.named s) i j cs =>
    match s, role with
    | _, .member =>
      match s with
      | .shorthand => some (node (.named .shorthandPattern) i j cs)
      | .objectAssignmentPattern => some (node (.named s) i j cs)
      | .pair => (lastPattern? cs).map (node (.named .pairPattern) i j)
      | .spreadElement => (patterns? .target cs).map (node (.named .restPattern) i j)
      | _ => none
    | .identifier, _ | .member, _ | .subscript, _ | .arrayPattern, _ | .objectPattern, _ =>
      some (node (.named s) i j cs)
    | .array, _ => (patterns? .element cs).map (node (.named .arrayPattern) i j)
    | .object, _ => (patterns? .member cs).map (node (.named .objectPattern) i j)
    | .spreadElement, .element => (patterns? .target cs).map (node (.named .restPattern) i j)
    | .assignment, .element =>
      if takesDefault cs then some (node (.named .assignmentPattern) i j cs) else none
    | _, _ => none

/-- The patterns that expressions describe; punctuation and comments stay. -/
def patterns? : Role → List Node → Option (List Node)
  | _, [] => some []
  | role, n :: r =>
    if isPunctuation n || n.isComment then (patterns? role r).map (n :: ·)
    else match pattern? role n, patterns? role r with
      | some n, some r => some (n :: r)
      | _, _ => none

-- The trees with the last one turned into a pattern.
def lastPattern? : List Node → Option (List Node)
  | [] => none
  | [n] => (pattern? .element n).map fun n => [n]
  | n :: m :: r => (lastPattern? (m :: r)).map (n :: ·)

end

mutual

-- Whether an object that is no pattern gives a default to a member.
def isStray : Node → Bool
  | node k _ _ cs => (k = .named .object && cs.any (·.is .objectAssignmentPattern)) || anyStray cs

def anyStray : List Node → Bool
  | [] => false
  | n :: r => isStray n || anyStray r

end

end Node

-- Whether trees are items with single commas between.
def isListed : List Node → Bool
  | [] => false
  | [n] => !n.isMark [',']
  | n :: comma :: r => !n.isMark [','] && comma.isMark [','] && isListed r

-- The trees between brackets, comments left out.
def inBrackets (ns : List Node) : List Node :=
  ((ns.filter fun n => !n.isComment).drop 1).dropLast

/-- Whether trees in brackets can be an expression, or several with commas between. -/
def isExpressionList (ns : List Node) : Bool :=
  isListed (inBrackets ns) && !(inBrackets ns).any (·.is .spreadElement)

/-- Whether trees in brackets can be parameters; a comma may follow the last of them. -/
def isParameterList (ns : List Node) : Bool :=
  match inBrackets ns with
  | [] => true
  | items => isListed items || (isListed items.dropLast && items.getLast?.any (·.isMark [',']))

/-- What an expression that stands before an equals sign assigns to. -/
def assignee? (n : Node) : Option Node := if n.is .parenthesized then some n else n.pattern? .target

/-- Whether an expression may stand before an operator that also assigns. -/
def isUpdatable (n : Node) : Bool :=
  n.is .member || n.is .subscript || n.is .identifier || n.is .parenthesized

end Baselines.Script
