import Baselines.Emitter.Process

/-!
# Utilities

The small programs that may serve as emitters: those that copy files, write their arguments, or do
nothing.
-/

namespace Baselines.Utility

/-! ## 1. Copying -/

-- The contents of a file, or what is complained of. A hyphen stands for the standard input.
def contents (d : Disk) (input : Bytes) (name : Text) : Except Text Bytes :=
  if name = ['-'] then .ok input
  else match d.read name with
    | .ok b => .ok b
    | .error e => .error ("cat: " ++ name ++ ": " ++ e.reason ++ "\n")

-- The contents of files one after the other.
def copyAll (d : Disk) (input : Bytes) : List Text → Outcome
  | [] => {}
  | name :: r =>
    let rest := copyAll d input r
    match contents d input name with
    | .ok b => { rest with output := b ++ rest.output }
    | .error t =>
      { rest with complaint := Encoding.utf8Encode t ++ rest.complaint, ending := .exit 1 }

-- The names among the arguments, or an option that is not known.
def namesOf : List Text → Except Text (List Text)
  | [] => .ok []
  | ['-', '-'] :: r => .ok r
  | ('-' :: c :: more) :: r => if c = 'u' ∧ more = [] then namesOf r else .error [c]
  | a :: r => (namesOf r).map (a :: ·)

-- Copies files, or the standard input, to the output.
def cat (d : Disk) (args : List Text) (input : Bytes) : Outcome :=
  match namesOf args with
  | .error c =>
    .failed 1 ("cat: invalid option -- '" ++ c ++ "'\nTry 'cat --help' for more information.\n")
  | .ok [] => .wrote input
  | .ok names => copyAll d input names

/-! ## 2. Escapes -/

-- The byte of a letter after a reverse solidus.
def escapeByte? (c : Char) : Option UInt8 :=
  if c = 'n' then some 10
  else if c = 't' then some 9
  else if c = 'r' then some 13
  else if c = 'a' then some 7
  else if c = 'b' then some 8
  else if c = 'f' then some 12
  else if c = 'v' then some 11
  else if c = '\\' then some 92
  else if c = '"' then some 34
  else none

def isOctal (c : Char) : Bool := '0' ≤ c && c ≤ '7'

-- The bytes that an escape stands for, and what follows it; the text begins after the reverse
-- solidus.
def readEscape (t : Text) : Bytes × Text :=
  match t with
  | [] => ([92], [])
  | c :: r =>
    if isOctal c then
      let digits := (t.take 3).takeWhile isOctal
      ([UInt8.ofNat (digits.foldl (fun n d => 8 * n + Text.digitValue d) 0)], t.drop digits.length)
    else match escapeByte? c with
      | some b => ([b], r)
      | none => (92 :: Encoding.utf8Char c, r)

-- The bytes of a text with escapes; the first argument bounds its length.
def unescape : Nat → Text → Bytes
  | 0, _ | _, [] => []
  | n + 1, '\\' :: r =>
    let (b, r) := readEscape r
    b ++ unescape n r
  | n + 1, c :: r => Encoding.utf8Char c ++ unescape n r

/-! ## 3. Writing arguments -/

/-- Writes its arguments with blanks between; escapes count if asked. -/
def echo (escapes : Bool) (args : List Text) : Outcome :=
  let (ended, args) := match args with
    | ['-', 'n'] :: r => (false, r)
    | _ => (true, args)
  let line := Text.join [' '] args
  .wrote ((if escapes then unescape line.length line else Encoding.utf8Encode line) ++
    if ended then [10] else [])

-- The bytes of a template up to the end, the arguments that are left, and whether any was used.
-- The first argument bounds the length of the template.
def printOnce : Nat → Text → List Text → Bool → Bytes × List Text × Bool
  | 0, _, args, used => ([], args, used)
  | _, [], args, used => ([], args, used)
  | n + 1, '\\' :: r, args, used =>
    let (b, r) := readEscape r
    let (rest, args, used) := printOnce n r args used
    (b ++ rest, args, used)
  | n + 1, '%' :: '%' :: r, args, used =>
    let (rest, args, used) := printOnce n r args used
    (37 :: rest, args, used)
  | n + 1, '%' :: c :: r, args, _ =>
    let a := args.headD []
    let b := if c = 's' then Encoding.utf8Encode a
      else if c = 'b' then unescape a.length a
      else if c = 'c' then (Encoding.utf8Encode a).take 1
      else if a = [] then [48]
      else Encoding.utf8Encode a
    let (rest, args, used) := printOnce n r args.tail true
    (b ++ rest, args, used)
  | n + 1, c :: r, args, used =>
    let (rest, args, used) := printOnce n r args used
    (Encoding.utf8Char c ++ rest, args, used)

-- The bytes of a template, used again while arguments are left. The first argument bounds how
-- often.
def printAll : Nat → Text → List Text → Bytes
  | 0, _, _ => []
  | n + 1, template, args =>
    let (b, rest, used) := printOnce template.length template args false
    if used ∧ rest ≠ [] then b ++ printAll n template rest else b

-- Writes its arguments by a template.
def printf (args : List Text) : Outcome :=
  match args with
  | [] => .failed 1 "printf: missing operand\nTry 'printf --help' for more information.\n"
  | ['-', '-'] :: template :: args => .wrote (printAll (args.length + 1) template args)
  | template :: args => .wrote (printAll (args.length + 1) template args)

/-- The utility of a name, run with arguments and a standard input. -/
def run? (d : Disk) (name : Text) (args : List Text) (input : Bytes) : Option Outcome :=
  if name = ("cat" : Text) then some (cat d args input)
  else if name = ("echo" : Text) then some (echo false args)
  else if name = ("printf" : Text) then some (printf args)
  else if name = ("true" : Text) then some {}
  else if name = ("false" : Text) then some { ending := .exit 1 }
  else none

end Baselines.Utility
