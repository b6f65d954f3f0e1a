import Baselines.Glob.Piece

/-!
# Reading wildcard patterns

A star stands for any text, two stars between slashes for any folders, a question mark for one byte,
a class in brackets for one of its members, a list in braces for one of its parts, and a reverse
solidus takes the special sense from the next character.
-/

namespace Baselines.Glob

/-! ## 1. Faults -/

/-- What can be wrong with a pattern. -/
inductive Fault where
  | unclosedClass
  | badRange (first last : Char)
  | unopenedGroup
  | unclosedGroup
  | dangling
  deriving DecidableEq, Repr

/-- The sentence that reports a fault. -/
def Fault.reason : Fault → Text
  | unclosedClass => "unclosed character class; missing ']'"
  | badRange a b => "invalid range; '" ++ a :: "' > '" ++ b :: "'"
  | unopenedGroup => "unopened alternate group; missing '\x7b' (maybe escape '\x7d' with '[\x7d]'?)"
  | unclosedGroup => "unclosed alternate group; missing '\x7d' (maybe escape '\x7b' with '[\x7b]'?)"
  | dangling => "dangling '\\'"

/-- The sentence that reports a fault of a pattern. -/
def Fault.message (pattern : Text) (f : Fault) : Text :=
  "error parsing glob '" ++ pattern ++ "': " ++ f.reason

/-! ## 2. Drafts -/

/-- A pattern that is being read: the pieces of the current branch, last first, the branches before
it in its group, last first, and the same of the groups around it, innermost first. -/
structure Draft where
  branch : List Piece := []
  before : List (List Piece) := []
  outer : List (List Piece × List (List Piece)) := []

namespace Draft

def push (d : Draft) (p : Piece) : Draft := { d with branch := p :: d.branch }

def inGroup (d : Draft) : Bool := !d.outer.isEmpty

def openGroup (d : Draft) : Draft := { outer := (d.branch, d.before) :: d.outer }

/-- Ends a branch, where a group is open. -/
def comma (d : Draft) : Draft :=
  if d.inGroup then { d with branch := [], before := d.branch.reverse :: d.before }
  else d.push (.literal ',')

def closeGroup (d : Draft) : Except Fault Draft :=
  match d.outer with
  | [] => .error .unopenedGroup
  | (branch, before) :: outer =>
    .ok { branch := .choice (d.branch.reverse :: d.before).reverse :: branch, before, outer }

/-- Puts folders in the place of the last piece, which is the slash before the stars, unless it
stands for folders already. -/
def folders (d : Draft) (atEnd : Bool) : Draft :=
  match d.branch with
  | .leadingFolders :: _ | .trailingFolders :: _ => d
  | _ => { d with branch := (if atEnd then .trailingFolders else .innerFolders) :: d.branch.tail }

end Draft

/-! ## 3. Classes -/

def endRange (c : Char) : List (Char × Char) → Except Fault (List (Char × Char))
  | [] => .ok []
  | (a, _) :: r => if c < a then .error (.badRange a c) else .ok ((a, c) :: r)

-- The members of a class, last first, up to its closing bracket, and what follows. A bracket that
-- comes first is a member, and so is a hyphen that comes first or last.
def readMembers : Text → Bool → Bool → List (Char × Char) →
    Except Fault (List (Char × Char) × Text)
  | [], _, _, _ => .error .unclosedClass
  | c :: r, first, inRange, found =>
    -- a range that is still open was no range: its hyphen is a member
    if c = ']' ∧ !first then .ok (if inRange then ('-', '-') :: found else found, r)
    else if inRange then do readMembers r false false (← endRange c found)
    else if c = '-' ∧ !first then readMembers r false true found
    else readMembers r false false ((c, c) :: found)

-- A class after its opening bracket, and what follows.
def readClass (t : Text) : Except Fault (Piece × Text) :=
  let negated := t.head? = some '!' ∨ t.head? = some '^'
  do
    let (found, rest) ← readMembers (if negated then t.tail else t) true false []
    .ok (.oneOf negated found.reverse, rest)

/-! ## 4. Stars -/

def endsStep (c : Option Char) : Bool := c.all (· = '/')

-- A draft after two stars, of which `last` is the character before and `rest` the text after, and
-- the text that is then left.
def twoStars (d : Draft) (last : Option Char) (rest : Text) : Draft × Text :=
  let plain := ((d.push .anyRun).push .anyRun, rest)
  let next := rest.head?
  if d.branch.isEmpty then
    if endsStep next then (d.push .leadingFolders, rest.tail) else plain
  -- stars beside anything but a slash stand for a run of bytes
  else if last ≠ some '/' ∧ !(d.inGroup && (last = some ',' || last = some '{')) then plain
  else if next = none then (d.folders true, rest)
  else if d.inGroup ∧ (next = some ',' ∨ next = some '}') then (d.folders true, rest)
  else if next = some '/' then (d.folders false, rest.tail)
  else plain

/-! ## 5. Patterns -/

/-- A draft after one more character and what belongs to it, the last character that was read, and
the text that is then left. -/
def step (d : Draft) (last : Option Char) (c : Char) (rest : Text) :
    Except Fault (Draft × Char × Text) :=
  if c = '?' then .ok (d.push .anyByte, c, rest)
  else if c = '*' then
    match rest with
    | '*' :: rest =>
      let (d, left) := twoStars d last rest
      -- a slash that the stars have taken is the last character read
      .ok (d, if left.length < rest.length then '/' else c, left)
    | _ => .ok (d.push .anyRun, c, rest)
  else if c = '[' then do
    let (p, rest) ← readClass rest
    .ok (d.push p, ']', rest)
  else if c = '{' then .ok (d.openGroup, c, rest)
  else if c = '}' then do .ok (← d.closeGroup, c, rest)
  else if c = ',' then .ok (d.comma, c, rest)
  else if c = '\\' then
    match rest with
    | [] => .error .dangling
    | e :: rest => .ok (d.push (.literal e), e, rest)
  else .ok (d.push (.literal c), c, rest)

-- Reads on until nothing is left; the first argument bounds the number of characters.
def readFrom : Nat → Draft → Option Char → Text → Except Fault Draft
  | 0, d, _, _ => .ok d
  | _, d, _, [] => .ok d
  | n + 1, d, last, c :: rest => do
    let (d, last, rest) ← step d last c rest
    readFrom n d (some last) rest

/-- The pattern that a text holds. -/
def parse (t : Text) : Except Fault (List Piece) := do
  let d ← readFrom t.length {} none t
  if d.inGroup then .error .unclosedGroup else .ok d.branch.reverse

end Baselines.Glob
