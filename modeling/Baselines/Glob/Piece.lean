import Baselines.Text.Encoding

/-!
# Pieces of wildcard patterns

What a wildcard pattern is made of, and which texts it fits. A pattern fits bytes: an open place
takes one byte, so a character of several bytes needs as many open places.
-/

namespace Baselines.Glob

/-- A piece of a pattern. -/
inductive Piece where
  | literal (c : Char)
  /-- Any one byte. -/
  | anyByte
  /-- Any bytes. -/
  | anyRun
  /-- Nothing, or folders from the start up to a slash. -/
  | leadingFolders
  /-- A slash, and more folders up to another slash. -/
  | innerFolders
  /-- A slash and all that follows. -/
  | trailingFolders
  /-- One byte of a class, or one outside of it. -/
  | oneOf (negated : Bool) (ranges : List (Char × Char))
  /-- One of several patterns. -/
  | choice (branches : List (List Piece))

/-! ## 1. Classes -/

/-- The bytes between two bytes, both included. -/
abbrev ByteRange := UInt8 × UInt8

def single (b : UInt8) : ByteRange := (b, b)

-- The bytes in a range of characters. The bytes of a character that is written by several are
-- members on their own, but for the last of the first character and the first of the last, which bound
-- the range.
def byteRanges (r : Char × Char) : List ByteRange :=
  let first := Encoding.utf8Char r.1
  let last := Encoding.utf8Char r.2
  if r.1 = r.2 then first.map single
  else match first.getLast?, last.head? with
    | some a, some b => first.dropLast.map single ++ (a, b) :: last.tail.map single
    | _, _ => []

def inClass (ranges : List (Char × Char)) (b : UInt8) : Bool :=
  (ranges.flatMap byteRanges).any fun r => r.1 ≤ b && b ≤ r.2

/-! ## 2. What is left after a piece -/

-- A text and its shorter ends.
def tails : Bytes → List Bytes
  | [] => [[]]
  | b :: r => (b :: r) :: tails r

def afterSlashes : Bytes → List Bytes
  | [] => []
  | b :: r => if b = 0x2F then r :: afterSlashes r else afterSlashes r

-- What follows a slash at the start.
def afterSlash? : Bytes → Option Bytes
  | [] => none
  | b :: r => if b = 0x2F then some r else none

-- What is left after the bytes of `p`.
def dropBytes? : Bytes → Bytes → Option Bytes
  | [], t => some t
  | _ :: _, [] => none
  | a :: p, b :: t => if a = b then dropBytes? p t else none

mutual

-- Whether a piece is a choice between nothing at all.
def Piece.isVoid : Piece → Bool
  | .choice branches => allVoid branches
  | _ => false

-- Whether a pattern has no piece that stands for anything.
def isVoid : List Piece → Bool
  | [] => true
  | p :: ps => p.isVoid && isVoid ps

-- Whether no branch stands for anything.
def allVoid : List (List Piece) → Bool
  | [] => true
  | b :: bs => isVoid b && allVoid bs

end

mutual

-- What can be left of a text after a piece.
def Piece.rests : Piece → Bytes → List Bytes
  | .literal c, t => (dropBytes? (Encoding.utf8Char c) t).toList
  | .anyByte, t => (t.tail?).toList
  | .anyRun, t => tails t
  | .leadingFolders, t => t :: afterSlashes t
  | .innerFolders, t => ((afterSlash? t).map fun r => r :: afterSlashes r).getD []
  | .trailingFolders, t => ((afterSlash? t).map tails).getD []
  | .oneOf negated ranges, t =>
    match t with
    | [] => []
    | b :: r => if inClass ranges b != negated then [r] else []
  | .choice branches, t => if allVoid branches then [t] else restsOfAny branches t

-- What can be left of texts after a pattern.
def rests : List Piece → List Bytes → List Bytes
  | [], ts => ts
  | p :: ps, ts => rests ps (ts.flatMap (Piece.rests p)).eraseDups

-- What can be left of a text after one of the branches that stand for something.
def restsOfAny : List (List Piece) → Bytes → List Bytes
  | [], _ => []
  | b :: bs, t => (if isVoid b then [] else rests b [t]) ++ restsOfAny bs t

end

/-- Whether a pattern fits the whole of a text. Two stars alone fit everything. -/
def fits (pattern : List Piece) (t : Text) : Bool :=
  match pattern with
  | [.leadingFolders] => true
  | ps => (rests ps [Encoding.utf8Encode t]).contains []

end Baselines.Glob
