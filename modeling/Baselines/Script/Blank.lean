import Baselines.Script.Node

/-!
# Blanks, comments and automatic semicolons

What may stand between the tokens of a script: blanks, comments, and where a statement ends without
a semicolon, the place of an automatic semicolon.
-/

namespace Baselines.Script

/-! ## 1. Characters -/

/-- Whether a character may stand between tokens: tabs, line ends, spaces, separators, and the
characters without width. -/
def isBlank (c : Char) : Bool :=
  let n := c.toNat
  (9 ≤ n && n ≤ 13) || n == 32 || n == 0xA0 || n == 0x1680 || (0x2000 ≤ n && n ≤ 0x200B) ||
    n == 0x2028 || n == 0x2029 || n == 0x202F || n == 0x205F || n == 0x2060 || n == 0x3000 ||
    n == 0xFEFF

/-- Whether a character is ASCII white space. -/
def isSpace (c : Char) : Bool := c == ' ' || ('\t' ≤ c && c ≤ '\r')

/-- Whether a character ends a line as far as automatic semicolons go. -/
def isLineEnd (c : Char) : Bool := c == '\n' || c == '\u2028' || c == '\u2029'

/-! ## 2. Comments -/

-- The length of the rest of a block comment with its end; none if it does not end.
def blockLength? : Text → Option Nat
  | [] => none
  | '*' :: '/' :: _ => some 2
  | _ :: r => (blockLength? r).map (· + 1)

def commentLength? : Text → Option Nat
  | '/' :: '/' :: r => some (2 + (r.takeWhile fun c => !(isLineEnd c || c == '\r')).length)
  | '/' :: '*' :: r => (blockLength? r).map (· + 2)
  | _ => none

/-- The length of the comment in the manner of HTML that a text begins with. -/
def htmlCommentLength? (t : Text) : Option Nat :=
  if Text.startsWith t "<!--" || Text.startsWith t "-->" then
    some (t.takeWhile fun c => !isLineEnd c).length
  else none

/-! ## 3. Automatic semicolons -/

/-- What comes of passing white space and comments. -/
inductive Passage where
  /-- A slash that begins no comment. -/
  | barred
  /-- A block comment within a line. -/
  | within (rest : Text)
  /-- Anything else. -/
  | past (rest : Text)

-- Whether a block comment holds a line end, and what follows it; none if it does not end.
def passBlock? : Text → Option (Bool × Text)
  | [] => none
  | '*' :: '/' :: r => some (false, r)
  | c :: r => (passBlock? r).map fun p => (isLineEnd c || p.1, p.2)

/-- Passes white space and comments; unless `through`, not beyond a block comment that no slash
follows. The first argument bounds the number of comments. -/
def pass (through : Bool) : Nat → Bool → Text → Passage
  | 0, _, t => .past t
  | n + 1, lineEnd, t =>
    match t.dropWhile isSpace with
    | '/' :: '/' :: r => pass through n lineEnd (r.dropWhile fun c => !isLineEnd c)
    | '/' :: '*' :: r =>
      match passBlock? r with
      | none => .past []
      | some (l, r) =>
        if r.head? ≠ some '/' && !through then
          if lineEnd || l then .past r else .within r
        else pass through n (lineEnd || l) r
    | '/' :: _ => .barred
    | r => .past r

-- Whether a letter of ASCII comes first.
def letterFirst : Text → Bool
  | c :: _ => c.isAlpha
  | [] => false

-- Whether what comes on a new line cannot go on with the statement before it.
def beginsAnew : Text → Bool
  | [] => true
  | '.' :: r => match r with
    | c :: _ => c.isDigit
    | [] => false
  | '+' :: r => r.head? = some '+'
  | '-' :: r => r.head? = some '-'
  | '!' :: r => r.head? ≠ some '='
  | 'i' :: 'n' :: r =>
    match letterFirst r, Text.dropLead? "stanceof" r with
    | false, _ => false
    | true, none => true
    | true, some r => letterFirst r
  | c :: _ => c ∉ ("\x60,:;*%><=[(?^|&/" : Text)

-- Whether an automatic semicolon stands before a text. `operator` says that the statement could go
-- on with an operator; if it could not, a comment with a line end is enough. The first argument bounds
-- the number of characters passed.
def endsWithin (operator : Bool) : Nat → Text → Bool
  | 0, _ => false
  | n + 1, t =>
    let go : Text → Bool
      | [] => false
      | c :: r =>
        if c == '}' then true
        else if isLineEnd c then
          match pass true (r.length + 1) false r with
          | .past r => beginsAnew r
          | _ => false
        else isSpace c && endsWithin operator n r
    match t with
    | [] => true
    | '/' :: _ =>
      match pass false (t.length + 1) false t with
      | .barred => false
      | .within r => go r
      | .past r => if !operator && r.head? ≠ some ',' && r.head? ≠ some '=' then true else go r
    | t => go t

/-- Whether an automatic semicolon stands before a text. -/
def endsHere (operator : Bool) (t : Text) : Bool := endsWithin operator (t.length + 1) t

end Baselines.Script
