import Baselines.Diff.Settle
import Baselines.Text.Lines

/-!
# Unified diffs

The difference of two lists of lines as hunks: the changed lines with some kept lines around them,
under a header that says where they stand.
-/

namespace Baselines.Diff

/-! ## 1. Blocks -/

/-- A part of a script: kept lines, or lines deleted and lines put in their place. -/
inductive Block where
  | same (lines : List Text) (oldAt newAt : Nat)
  | change (deleted inserted : List Text) (oldAt newAt : Nat)
  deriving DecidableEq, Repr

namespace Block

/-- Where the block begins in the list before. -/
def oldAt : Block → Nat
  | same _ i _ => i
  | change _ _ i _ => i

/-- Where the block begins in the list after. -/
def newAt : Block → Nat
  | same _ _ j => j
  | change _ _ _ j => j

-- Where the block ends in the list before.
def oldEnd : Block → Nat
  | same ls i _ => i + ls.length
  | change ds _ i _ => i + ds.length

-- Where the block ends in the list after.
def newEnd : Block → Nat
  | same ls _ j => j + ls.length
  | change _ is _ j => j + is.length

/-- The lines of a block, each under its sign. -/
def text : Block → Text
  | same ls _ _ => ls.flatMap fun l => ' ' :: l
  | change ds is _ _ => (ds.flatMap fun l => '-' :: l) ++ is.flatMap fun l => '+' :: l

def isChange : Block → Bool
  | same _ _ _ => false
  | change _ _ _ _ => true

end Block

-- A block with one more run put before it, or the run as a block of its own. A change is reported
-- where its first deletion stands before, and where its first insertion stands after.
def addRun (e : Edit) (blocks : List Block) : List Block :=
  match e.action, blocks with
  | .keep, .same ls _ _ :: r => .same (e.lines ++ ls) e.oldAt e.newAt :: r
  | .keep, r => .same e.lines e.oldAt e.newAt :: r
  | .delete, .change ds is _ j :: r =>
    .change (e.lines ++ ds) is e.oldAt (if is = [] then e.newAt else j) :: r
  | .delete, r => .change e.lines [] e.oldAt e.newAt :: r
  | .insert, .change ds is i _ :: r =>
    .change ds (e.lines ++ is) (if ds = [] then e.oldAt else i) e.newAt :: r
  | .insert, r => .change [] e.lines e.oldAt e.newAt :: r

def blocks (s : Script) : List Block := s.foldr addRun []

/-! ## 2. Hunks -/

-- A first block with at most the last `n` of its kept lines.
def trimFirst (n : Nat) : List Block → List Block
  | .same ls i j :: r =>
    let k := ls.length - n
    .same (ls.drop k) (i + k) (j + k) :: r
  | r => r

-- A last block with at most the first `n` of its kept lines.
def trimLast (n : Nat) : List Block → List Block
  | [] => []
  | [.same ls i j] => [.same (ls.take n) i j]
  | b :: r => b :: trimLast n r

/-- The blocks cut within kept lines that are more than twice the context; `opened` is the hunk that
is being filled, last block first. -/
def cut (n : Nat) : List Block → List Block → List (List Block)
  | opened, [] =>
    match opened with
    | [] => []
    | [.same _ _ _] => []
    | _ => [opened.reverse]
  | opened, .same ls i j :: r =>
    if 2 * n < ls.length then
      let k := ls.length - n
      (Block.same (ls.take n) i j :: opened).reverse :: cut n [.same (ls.drop k) (i + k) (j + k)] r
    else cut n (.same ls i j :: opened) r
  | opened, b :: r => cut n (b :: opened) r

def hunks (n : Nat) (s : Script) : List (List Block) :=
  cut n [] (trimLast n (trimFirst n (blocks s)))

-- A range of lines in a header: its first line, and its length unless that is one. An empty range
-- is placed at the line before it.
def rangeText (first last : Nat) : Text :=
  let n := last - first
  if n = 1 then Text.ofNat (first + 1)
  else Text.ofNat (if n = 0 then first else first + 1) ++ ',' :: Text.ofNat n

def header (hunk : List Block) : Text :=
  match hunk, hunk.getLast? with
  | b :: _, some z =>
    "@@ -" ++ rangeText b.oldAt z.oldEnd ++ " +" ++ rangeText b.newAt z.newEnd ++ " @@\n"
  | _, _ => []

def hunkText (hunk : List Block) : Text := header hunk ++ hunk.flatMap Block.text

/-! ## 3. Texts -/

-- The lines of a text with their ends. A line ends at a line feed, at a carriage return, or at
-- both in that order.
def cutLines : Text → List Text
  | [] => []
  | '\r' :: '\n' :: r => ['\r', '\n'] :: cutLines r
  | c :: r =>
    if c = '\n' ∨ c = '\r' then [c] :: cutLines r
    else match cutLines r with
      | [] => [[c]]
      | l :: ls => (c :: l) :: ls

-- The text with a line feed at its end, unless it is empty.
def terminated (t : Text) : Text :=
  if t = [] ∨ t.getLast? = some '\n' then t else t ++ ['\n']

/-- The settled script from one text to another. -/
def script (expected actual : Text) : Script :=
  settle (shortest (cutLines (terminated expected)) (cutLines (terminated actual)))

/-- How many lines were inserted and deleted. -/
structure Stats where
  inserted : Nat
  deleted : Nat
  deriving DecidableEq, Repr

def stats (s : Script) : Stats :=
  { inserted := ((s.filter fun e => e.action = .insert).flatMap (·.lines)).length
    deleted := ((s.filter fun e => e.action = .delete).flatMap (·.lines)).length }

-- The two lines above the hunks.
def fileHeader : Text := "--- expected\n+++ actual\n"

-- The unified diff of a script; empty when nothing changed.
def unifiedText (context : Nat) (s : Script) : Text :=
  match hunks context s with
  | [] => []
  | hs => fileHeader ++ hs.flatMap hunkText

/-- The unified diff from one text to another, and its counts. -/
def unified (expected actual : Text) (context : Nat) : Text × Stats :=
  let s := script expected actual
  (unifiedText context s, stats s)

/-- The usual number of lines around each change. -/
def usualContext : Nat := 3

-- The number of the first line at which two lists differ, counted from `n`.
def firstDifference (n : Nat) : List Text → List Text → Option Nat
  | [], [] => none
  | x :: s, y :: t => if x = y then firstDifference (n + 1) s t else some n
  | _, _ => some n

/-- The number of the first line at which two texts differ, counted from one. -/
def firstDifferingLine (expected actual : Text) : Option Nat :=
  firstDifference 1 (Text.lines expected) (Text.lines actual)

end Baselines.Diff
