import Baselines.Script.Statement

/-!
# Reading a script

The rules of all parts put together, and the tree of a whole script.
-/

namespace Baselines.Script

/-! ## 1. Rules -/

/-- The rule of a goal, by the rules of its parts. -/
def step (rules : Rules) : Rules
  | .statement => statement rules
  | .block => block rules
  | .expression w => joined rules 0 w
  | .joined level w => joined rules level w
  | .operand w => operand rules w
  | .constructed w => constructed rules w
  | .object => object rules
  | .array => array rules
  | .element => element rules

-- The rule of a goal, for parts that are nested up to a depth.
def rulesUpTo : Nat → Rules
  | 0, _ => Rule.fail
  | n + 1, goal => step (rulesUpTo n) goal

-- A depth that no text of a length can exceed.
def depthFor (length : Nat) : Nat := 16 * length + 64

/-! ## 2. Scripts -/

/-- The first line of a script that is for the system. -/
def hashBang : Rule :=
  lexeme .hashBang fun t =>
    if Text.startsWith t "#!" then some (t.takeWhile (· ≠ '\n')).length else none

/-- The statements of a script, as far as they can be read, and where they end. -/
def statements (source : Text) : Option (List Node × Cursor) :=
  let rules := rulesUpTo (depthFor source.length)
  Rule.both (Rule.maybe hashBang) (Rule.many (rules .statement)) (.start source)

/-- The tree of a script. -/
def parse? (source : Text) : Option Node :=
  if '\x00' ∈ source then none
  else
    match statements source with
    | none => none
    | some (xs, c) =>
      match approach .fresh c with
      | none => none
      | some a =>
        let whole := xs ++ a.comments
        if a.token.rest = [] ∧ !Node.anyStray whole then
          some (.node (.named .program) (beginning a.token.pos whole) a.token.pos whole)
        else none

end Baselines.Script
