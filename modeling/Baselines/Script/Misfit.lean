import Baselines.Script.Parse
import Baselines.Text.Encoding

/-!
# Where a text is no script

A text that is no script is repaired by leaving out as little as possible: a single token, or else
the statement that cannot be read. Where only the end of a block is wanting, it is wanting after the
last token. The place of the repair is where the text goes wrong.
-/

namespace Baselines.Script

/-- A place in a text: its line, and the byte of the line, both counted from one. -/
structure Place where
  line : Nat
  column : Nat
  deriving DecidableEq, Repr

/-- The sentence that reports a place. -/
def Place.message (p : Place) : Text :=
  "syntax error at line " ++ Text.ofNat p.line ++ ", column " ++ Text.ofNat p.column

/-! ## 1. Tokens of a text that is no script -/

-- The length of the token that a text begins with; a string that does not end goes on to the
-- end.
def tokenLength (t : Text) : Nat :=
  let quoted := t.head? = some '"' ∨ t.head? = some '\''
  match wordLength? t, numberLength? t, stringLength? t, follower? t with
  | some n, _, _, _ => n
  | none, some n, _, _ => n
  | none, none, some n, _ => n
  | none, none, none, some m => m.length
  | none, none, none, none => if quoted then t.length else 1

-- Where the tokens from a place on stand, and how long they are; the first argument bounds their
-- number.
def tokenSpans : Nat → Cursor → List (Nat × Nat)
  | 0, _ => []
  | n + 1, c =>
    match approach .fresh c with
    | none => []
    | some a =>
      if a.token.rest = [] then []
      else
        let k := tokenLength a.token.rest
        (a.token.pos, k) :: tokenSpans n (a.token.skip k)

/-! ## 2. Repairs -/

-- The text with blanks over some of its characters.
def blanked (source : Text) (start length : Nat) : Text :=
  source.take start ++ List.replicate length ' ' ++ source.drop (start + length)

-- The tokens without any one of which the text is a script.
def omissible (source : Text) (spans : List (Nat × Nat)) : List (Nat × Nat) :=
  spans.filter fun s => (parse? (blanked source s.1 s.2)).isSome

-- The shortest of the spans, the first of those.
def shortestSpan? : List (Nat × Nat) → Option (Nat × Nat)
  | [] => none
  | s :: r =>
    match shortestSpan? r with
    | none => some s
    | some z => if s.2 ≤ z.2 then some s else some z

-- Whether a tree, or a part of it, is a block of statements or a class that ends at a place.
def closesAt (stop : Nat) : Nat → Node → Bool
  | 0, _ => false
  | n + 1, t =>
    (t.stop = stop && (t.is .statementBlock || t.is .classBody || t.is .switchBody)) ||
      t.children.any (closesAt stop n)

-- Whether the text is a script once a block at its end is closed.
def wantsBrace (source : Text) : Bool :=
  match parse? (source ++ [' ', '}']) with
  | some t => closesAt (source.length + 2) (source.length + 2) t
  | none => false

-- The length below which leaving out a token is less than closing a block.
def shortToken : Nat := 10

-- The position at which a text that is no script goes wrong.
def misfitAt (source : Text) : Nat :=
  match statements source with
  | none => 0
  | some (_, c) =>
    let spans := tokenSpans (c.rest.length + 1) c
    -- `c` is the end of the last statement that can be read
    let start := (spans.head?.map (·.1)).getD c.pos
    let last := (spans.getLast?.map fun s => s.1 + s.2).getD start
    match shortestSpan? (omissible source spans) with
    | some s => if s.2 < shortToken then s.1 else if wantsBrace source then last else s.1
    | none => if wantsBrace source then last else start

-- The line and byte of a position in a text.
def placeOf (source : Text) (pos : Nat) : Place :=
  let before := source.take pos
  { line := before.count '\n' + 1
    column := Encoding.utf8Length (before.reverse.takeWhile (· ≠ '\n')) + 1 }

-- The place at which a text that is no script goes wrong.
def misfit (source : Text) : Place := placeOf source (misfitAt source)

end Baselines.Script
