import Baselines.Script.Lexeme

/-!
# Rules

A rule reads a part of a script from a place on and gives the trees it is made of, or fails. Rules
are put together from rules for words and marks. A rule that gives a tree gives the comments before
it too.
-/

namespace Baselines.Script

/-! ## 1. Places in a script -/

/-- A place in a script, and what comes after it. -/
structure Cursor where
  pos : Nat
  rest : Text

namespace Cursor

def start (source : Text) : Cursor := ⟨0, source⟩

/-- The place so many characters on. -/
def skip (c : Cursor) (n : Nat) : Cursor := ⟨c.pos + n, c.rest.drop n⟩

-- The place after the blanks that come next.
def skipBlanks (c : Cursor) : Cursor := c.skip (c.rest.takeWhile isBlank).length

end Cursor

/-! ## 2. Between tokens -/

/-- What may stand before the next token. -/
inductive Seam where
  /-- The start of an operand or statement: a comment in the manner of HTML is a comment. -/
  | fresh
  /-- After an operand, where a statement cannot end. -/
  | inner
  /-- Where a statement may end, and whether an operator could come instead. -/
  | ending (operator : Bool)
  deriving DecidableEq

/-- What stands before a token: the comments, the place after the last of them, and the token's
place. -/
structure Approach where
  comments : List Node
  seam : Cursor
  token : Cursor

-- A comment before the next token, and the place after it.
def comment? (seam : Seam) (c : Cursor) : Option (Node × Cursor) :=
  let at_ := c.skipBlanks
  match commentLength? at_.rest with
  | some n => some (.leaf (.named .comment) at_.pos (at_.pos + n), at_.skip n)
  | none =>
    let gap := c.rest.takeWhile isBlank
    if seam = .fresh ∧ gap.all fun x => isSpace x || isLineEnd x then
      (htmlCommentLength? at_.rest).map fun n =>
        (.leaf (.named .htmlComment) at_.pos (at_.pos + n), at_.skip n)
    else none

-- What stands before the next token; none if an automatic semicolon stands there. The first
-- argument bounds the number of comments, which are gathered last first.
def approachFrom (seam : Seam) : Nat → List Node → Cursor → Option Approach
  | 0, _, _ => none
  | n + 1, found, c =>
    let ends :=
      match seam with
      | .ending operator => endsHere operator c.rest
      | _ => false
    if ends then none
    else match comment? seam c with
      | some (node, c) => approachFrom seam n (node :: found) c
      | none => some ⟨found.reverse, c, c.skipBlanks⟩

/-- What stands before the next token; none if an automatic semicolon stands there. -/
def approach (seam : Seam) (c : Cursor) : Option Approach :=
  approachFrom seam (c.rest.length + 1) [] c

/-! ## 3. Rules -/

/-- A rule reads trees. -/
abbrev Rule := Cursor → Option (List Node × Cursor)

namespace Rule

def nothing : Rule := fun c => some ([], c)

def fail : Rule := fun _ => none

def both (a b : Rule) : Rule := fun c =>
  match a c with
  | none => none
  | some (xs, c) =>
    match b c with
    | none => none
    | some (ys, c) => some (xs ++ ys, c)

def all : List Rule → Rule
  | [] => nothing
  | r :: rs => both r (all rs)

def or (a b : Rule) : Rule := fun c =>
  match a c with
  | none => b c
  | some p => some p

/-- The first rule that does not fail. -/
def any : List Rule → Rule
  | [] => fail
  | r :: rs => or r (any rs)

def maybe (r : Rule) : Rule := or r nothing

-- A rule as often as it reads something; the first argument bounds how often.
def manyUpTo (r : Rule) : Nat → List (List Node) → Cursor → List (List Node) × Cursor
  | 0, found, c => (found, c)
  | n + 1, found, c =>
    match r c with
    | some (xs, c') => if c'.pos = c.pos then (found, c) else manyUpTo r n (xs :: found) c'
    | none => (found, c)

/-- A rule as often as it reads something. -/
def many (r : Rule) : Rule := fun c =>
  let (found, c) := manyUpTo r (c.rest.length + 1) [] c
  some (found.reverse.flatten, c)

/-- A rule where the trees it gives satisfy a test. -/
def when (p : List Node → Bool) (r : Rule) : Rule := fun c =>
  match r c with
  | some (xs, c) => if p xs then some (xs, c) else none
  | none => none

def change (f : List Node → Option (List Node)) (r : Rule) : Rule := fun c =>
  match r c with
  | some (xs, c) => (f xs).map fun ys => (ys, c)
  | none => none

/-- A rule that fails where another would not. -/
def barring (stop r : Rule) : Rule := fun c =>
  match stop c with
  | none => r c
  | some _ => none

/-- Nothing, where a rule would not fail. -/
def ahead (r : Rule) : Rule := fun c =>
  match r c with
  | none => none
  | some _ => some ([], c)

end Rule

/-! ## 4. Tokens -/

/-- A leaf over so many characters from the next token on. -/
def leafAt (seam : Seam) (kind : Text → Option (Kind × Nat)) : Rule := fun c =>
  match approach seam c with
  | none => none
  | some a =>
    match kind a.token.rest with
    | none => none
    | some (k, n) =>
      some (a.comments ++ [.leaf k a.token.pos (a.token.pos + n)], a.token.skip n)

/-- A leaf with a name, as long as a function says. -/
def lexeme (shape : Shape) (length? : Text → Option Nat) : Rule :=
  leafAt .fresh fun t => (length? t).map fun n => (.named shape, n)

def markAfter (seam : Seam) (m : Text) : Rule :=
  leafAt seam fun t => if Text.startsWith t m then some (.mark m, m.length) else none

def mark (m : Text) : Rule := markAfter .fresh m

def wordOf? (t : Text) : Option Text := (wordLength? t).map t.take

/-- A word that stands for itself, after what may stand at a seam. -/
def wordAfter (seam : Seam) (w : Text) : Rule :=
  leafAt seam fun t => if wordOf? t = some w then some (.mark w, w.length) else none

/-- A word that stands for itself. -/
def word (w : Text) : Rule := wordAfter .fresh w

/-- One of some words that stand for themselves. -/
def oneWord (ws : List Text) : Rule := Rule.any (ws.map word)

/-- A word that satisfies a test, as a leaf with a name. -/
def wordLike (shape : Shape) (p : Text → Bool) : Rule :=
  leafAt .fresh fun t =>
    match wordOf? t with
    | some w => if p w then some (.named shape, w.length) else none
    | none => none

def nameAs (shape : Shape) : Rule := wordLike shape fun w => w ∉ reserved

/-- A word after a hash. -/
def privateName : Rule :=
  lexeme .privateIdentifier fun t =>
    match t with
    | '#' :: r => (wordLength? r).map (· + 1)
    | _ => none

/-- The end of a statement: a semicolon, written or automatic. -/
def semicolon (operator : Bool) : Rule := fun c =>
  let rec go : Nat → List Node → Cursor → Option (List Node × Cursor)
    | 0, _, _ => none
    | n + 1, found, c =>
      if endsHere operator c.rest then
        some (found.reverse ++ [.leaf (.named .automaticSemicolon) c.pos c.pos], c)
      else match comment? .inner c with
        | some (node, c) => go n (node :: found) c
        | none =>
          match mark ";" c.skipBlanks with
          | some (xs, c) => some (found.reverse ++ xs, c)
          | none => none
  go (c.rest.length + 1) [] c

/-! ## 5. Trees -/

/-- The place before the first of the trees that is no comment, or else the place after them. -/
def beginning (pos : Nat) : List Node → Nat
  | [] => pos
  | n :: r => if n.isComment then beginning n.stop r else n.start

/-- A tree over what a rule reads; the comments before it stay outside. -/
def tree (shape : Shape) (r : Rule) : Rule := fun c =>
  match r c with
  | none => none
  | some (xs, c') =>
    let lead := xs.takeWhile Node.isComment
    let parts := xs.drop lead.length
    some (lead ++ [.node (.named shape) (beginning c'.pos xs) c'.pos parts], c')

/-- The last of the trees that a rule gave, with more parts after it, as one tree that ends at
`pos`. -/
def graft (shape : Shape) (xs more : List Node) (pos : Nat) : List Node :=
  match xs.getLast? with
  | none => xs ++ more
  | some x => xs.dropLast ++ [.node (.named shape) x.start pos (x :: more)]

/-- Rules with separators between neighbours. -/
def separated (separator r : Rule) : Rule := Rule.both r (Rule.many (Rule.both separator r))

/-- Items with commas between, any of which may be left out. -/
def commaList (item : Rule) : Rule :=
  Rule.both (Rule.maybe item) (Rule.many (Rule.both (mark ",") (Rule.maybe item)))

end Baselines.Script
