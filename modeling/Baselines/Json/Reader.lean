import Baselines.Json.Cause
import Baselines.Text.Encoding

/-!
# Reading values out of JSON text

A reader takes a value from the start of a text and goes on from the end of the value. What cannot
be read is refused with a cause and the place where it was found; a cause that says what is wrong
with a whole value gets its place when the value has been passed.
-/

namespace Baselines.Json

/-! ## 1. Places -/

/-- The unread part of a text, and the number of bytes before it. -/
structure Input where
  pos : Nat
  rest : Text

/-- Why a text was refused, and after how many bytes, if that is known. -/
structure Misread where
  cause : Cause
  place : Option Nat
  deriving DecidableEq, Repr

-- The line of a byte of a text, counted from one, and the bytes of the line up to it.
def lineAndColumn (source : Text) (bytes : Nat) : Nat × Nat :=
  let before := (Encoding.utf8Encode source).take bytes
  (before.count 10 + 1, (before.reverse.takeWhile (· ≠ 10)).length)

/-- The sentence that reports why a text was refused. -/
def Misread.message (m : Misread) (source : Text) : Text :=
  match m.place with
  | none => m.cause.message
  | some n =>
    let (line, column) := lineAndColumn source n
    m.cause.message ++ " at line " ++ Text.ofNat line ++ " column " ++ Text.ofNat column

/-! ## 2. Readers -/

/-- A reader gives a value or a misreading; either way some of the text has been passed. -/
abbrev Reader (α : Type) := Input → Except Misread α × Input

namespace Reader

variable {α β : Type}

/-- Passes nothing. -/
def pure (a : α) : Reader α := fun i => (.ok a, i)

/-- One reader, and then another that depends on its value. -/
def bind (r : Reader α) (f : α → Reader β) : Reader β := fun i =>
  match r i with
  | (.ok a, i) => f a i
  | (.error e, i) => (.error e, i)

instance : Monad Reader where
  pure := pure
  bind := bind

/-- A refusal without a place. -/
def refuse (cause : Cause) : Reader α := fun i => (.error ⟨cause, none⟩, i)

/-- A refusal at the place that has been reached. -/
def failHere (cause : Cause) : Reader α := fun i => (.error ⟨cause, some i.pos⟩, i)

/-- A refusal of the byte that comes next, or of the end of the text. -/
def failNext (cause : Cause) : Reader α := fun i =>
  (.error ⟨cause, some (if i.rest = [] then i.pos else i.pos + 1)⟩, i)

/-- The next character, which is not passed. -/
def peek : Reader (Option Char) := fun i => (.ok i.rest.head?, i)

/-- Passes a character. -/
def skip : Reader Unit := fun i =>
  match i.rest with
  | [] => (.ok (), i)
  | c :: r => (.ok (), ⟨i.pos + (Encoding.utf8Char c).length, r⟩)

def unread : Reader Text := fun i => (.ok i.rest, i)

/-- Passes blanks, and gives the character after them. -/
def peekToken : Reader (Option Char) := fun i =>
  let isBlank := fun (c : Char) => c == ' ' || c == '\n' || c == '\t' || c == '\r'
  let blanks := (i.rest.takeWhile isBlank).length
  let rest := i.rest.drop blanks
  (.ok rest.head?, ⟨i.pos + blanks, rest⟩)

/-- A reader whose refusals have a place: that which has been reached, if they have none. -/
def placed (r : Reader α) : Reader α := fun i =>
  match r i with
  | (.error ⟨cause, none⟩, i) => (.error ⟨cause, some i.pos⟩, i)
  | p => p

/-- A reader and the end of what it reads from; the end is passed even after a refusal. -/
def closedBy (close : Reader Unit) (r : Reader α) : Reader α := fun i =>
  match r i with
  | (.ok a, i) =>
    match close i with
    | (.ok _, i) => (.ok a, i)
    | (.error e, i) => (.error e, i)
  | (.error e, i) => (.error e, (close i).2)

/-- A reader for a value in brackets, where so many more may be nested. -/
def nested (room : Nat) (r : Nat → Reader α) : Reader α :=
  match room with
  | 0 | 1 => failNext .tooDeep
  | n + 1 => r n

def takeWhile (p : Char → Bool) : Reader Text := fun i =>
  let taken := i.rest.takeWhile p
  (.ok taken, ⟨i.pos + Encoding.utf8Length taken, i.rest.drop taken.length⟩)

/-- The rest of a word. -/
def ident : Text → Reader Unit
  | [] => pure ()
  | c :: r => do
    match ← peek with
    | none => failHere .eofValue
    | some d =>
      if d = c then
        skip
        ident r
      else failNext .expectedIdent

/-! ## 3. Numbers -/

/-- A number: a whole one, or a real one. -/
inductive Number where
  | whole (n : Int)
  | real (x : Binary64)

-- One more than the largest number of 64 bits.
def wordBound : Nat := Nat.pow 2 64

-- One more than the largest exponent that is looked at.
def exponentBound : Nat := Nat.pow 2 31

-- A number as long as more digits fit, with the number of those that were taken.
def fitting (n : Nat) (taken : Nat) : Text → Nat × Nat
  | [] => (n, taken)
  | c :: r =>
    let m := 10 * n + Text.digitValue c
    if m < wordBound then fitting m (taken + 1) r else (n, taken)

def realOf (negative : Bool) (significand : Nat) (exponent : Int) : Reader Number :=
  match Binary64.ofParts? negative significand exponent with
  | some x => pure (.real x)
  | none => failHere .outOfRange

def exponent (negative : Bool) (significand : Nat) (start : Int) : Reader Number := do
  skip
  let sign ← peek
  if sign = some '+' ∨ sign = some '-' then skip
  match ← peek with
  | none => failHere .eofValue
  | some c =>
    if !c.isDigit then failNext .badNumber
    else
      skip
      let all ← unread
      let digits := all.takeWhile Char.isDigit
      let step := fun (p : Nat × Nat) (d : Char) =>
        let m := 10 * p.1 + Text.digitValue d
        if p.2 = 0 ∧ m < exponentBound then (m, 0) else (p.1, p.2 + 1)
      let (e, beyond) := digits.foldl step (Text.digitValue c, 0)
      if beyond = 0 then
        let _ ← takeWhile Char.isDigit
        let e : Int := e
        realOf negative significand (if sign = some '-' then start - e else start + e)
      else if significand ≠ 0 ∧ sign ≠ some '-' then do
        let _ ← takeUpTo (digits.length - beyond + 1)
        failHere .outOfRange
      else
        let _ ← takeWhile Char.isDigit
        pure (.real ⟨negative, 0, 0⟩)
where
  /-- Passes so many characters. -/
  takeUpTo : Nat → Reader Unit
    | 0 => pure ()
    | n + 1 => do skip; takeUpTo n

-- A fraction, from its point on; `before` is the power of ten of the digits before it.
def fraction (negative : Bool) (significand : Nat) (before : Int) : Reader Number := do
  skip
  let digits ← takeWhile Char.isDigit
  if digits = [] then
    match ← peek with
    | some _ => failNext .badNumber
    | none => failNext .eofValue
  else
    let (n, taken) := fitting significand 0 digits
    let e := before - taken
    let c ← peek
    if c = some 'e' ∨ c = some 'E' then exponent negative n e else realOf negative n e

-- What follows the digits before a point, of which `dropped` did not fit.
def afterDigits (negative : Bool) (significand dropped : Nat) : Reader Number := do
  let c ← peek
  if c = some '.' then fraction negative significand dropped
  else if c = some 'e' ∨ c = some 'E' then exponent negative significand dropped
  else if dropped ≠ 0 then realOf negative significand dropped
  else if !negative then pure (.whole significand)
  else if significand = 0 ∨ Nat.pow 2 63 < significand then realOf true significand 0
  else pure (.whole (-(significand : Int)))

/-- A number after its sign. -/
def number (negative : Bool) : Reader Number := do
  match ← peek with
  | none => failHere .eofValue
  | some c =>
    if c = '0' then
      skip
      if (← peek).any Char.isDigit then failNext .badNumber else afterDigits negative 0 0
    else if c.isDigit then
      skip
      let digits ← takeWhile Char.isDigit
      let (n, taken) := fitting (Text.digitValue c) 0 digits
      afterDigits negative n (digits.length - taken)
    else failNext .badNumber

def signedNumber : Reader Number := do
  if (← peek) = some '-' then
    skip
    number true
  else number false

/-! ## 4. Strings -/

-- A character of a string that comes after a reverse solidus and is not a number.
def simpleEscape? (c : Char) : Option Char :=
  if c = '"' ∨ c = '\\' ∨ c = '/' then some c
  else if c = 'b' then some '\x08'
  else if c = 'f' then some '\x0c'
  else if c = 'n' then some '\n'
  else if c = 'r' then some '\r'
  else if c = 't' then some '\t'
  else none

-- The number of four hexadecimal digits.
def hexEscape : Reader Nat := fun i =>
  if Encoding.utf8Length i.rest < 4 then
    let stop := i.pos + Encoding.utf8Length i.rest
    (.error ⟨.eofString, some stop⟩, ⟨stop, []⟩)
  else
    match (i.rest.take 4).mapM Text.hexValue? with
    | some ds => (.ok (ds.foldl (fun n d => 16 * n + d) 0), ⟨i.pos + 4, i.rest.drop 4⟩)
    | none => (.error ⟨.badEscape, some (i.pos + 4)⟩, i)

-- The next character of a string that may not end here.
def peekInString : Reader Char := do
  match ← peek with
  | some c => return c
  | none => failHere .eofString

-- A mark that has to come between the two halves of a pair of surrogates.
def pairMark (m : Char) : Reader Unit := do
  if (← peekInString) = m then skip else failNext .hexEscapeEnd

-- The character of a hexadecimal escape, or of two that are a pair of surrogates.
def hexCharacter : Reader Char := do
  let n ← hexEscape
  if 0xDC00 ≤ n ∧ n < 0xE000 then failHere .loneSurrogate
  else if n < 0xD800 ∨ 0xE000 ≤ n then return Char.ofNat n
  else
    -- the first half of a pair: the second has to follow
    pairMark '\\'
    pairMark 'u'
    let m ← hexEscape
    if m < 0xDC00 ∨ 0xE000 ≤ m then failHere .loneSurrogate
    else return Char.ofNat (0x10000 + (n - 0xD800) * 1024 + (m - 0xDC00))

/-- The rest of a string after its opening quote. A string that is kept has to be made of
characters, which is not asked of one that is passed over. The first argument bounds the number of
characters, which are gathered last first. -/
def stringTail (kept : Bool) : Nat → Text → Reader Text
  | 0, _ => failHere .eofString
  | n + 1, found => do
    let c ← peekInString
    if c = '"' then
      skip
      return found.reverse
    else if c = '\\' then
      skip
      let e ← peekInString
      if e = 'u' then
        skip
        if kept then stringTail kept n ((← hexCharacter) :: found)
        else
          let _ ← hexEscape
          stringTail kept n found
      else match simpleEscape? e with
        | some x =>
          skip
          stringTail kept n (x :: found)
        | none => failNext .badEscape
    else if c.toNat < 32 then
      -- the place of the fault is behind the character in a kept string, and before it in another
      if kept then skip
      failHere .controlCharacter
    else
      skip
      stringTail kept n (c :: found)

/-- A string, from its opening quote on. -/
def string (kept : Bool) : Reader Text := do
  skip
  stringTail kept ((← unread).length + 1) []

/-! ## 5. Lists and objects -/

def endOfList : Reader Unit := do
  match ← peekToken with
  | some ']' => skip
  | some ',' =>
    skip
    if (← peekToken) = some ']' then failNext .trailingComma else failNext .trailingCharacters
  | some _ => failNext .trailingCharacters
  | none => failNext .eofList

def endOfObject : Reader Unit := do
  match ← peekToken with
  | some '}' => skip
  | some ',' => failNext .trailingComma
  | some _ => failNext .trailingCharacters
  | none => failNext .eofObject

/-- Whether another item of an array follows. -/
def hasItem (first : Bool) : Reader Bool := do
  match ← peekToken with
  | none => failNext .eofList
  | some c =>
    if c = ']' then return false
    else if first then return true
    else if c = ',' then
      skip
      match ← peekToken with
      | some ']' => failNext .trailingComma
      | some _ => return true
      | none => failNext .eofValue
    else failNext .expectedListEnd

-- Whether another field of an object follows.
def hasField (first : Bool) : Reader Bool := do
  match ← peekToken with
  | none => failNext .eofObject
  | some c =>
    if c = '}' then return false
    else if first then
      if c = '"' then return true else failNext .keyNotString
    else if c = ',' then
      skip
      match ← peekToken with
      | some '"' => return true
      | some '}' => failNext .trailingComma
      | some _ => failNext .keyNotString
      | none => failNext .eofValue
    else failNext .expectedObjectEnd

/-- The colon after the name of a field. -/
def colon : Reader Unit := do
  match ← peekToken with
  | some ':' => skip
  | some _ => failNext .expectedColon
  | none => failNext .eofObject

/-- The items of an array; the first argument bounds their number. -/
def items (item : Reader α) : Nat → Bool → List α → Reader (List α)
  | 0, _, _ => failNext .eofList
  | n + 1, first, found => do
    if ← hasItem first then items item n false ((← item) :: found) else return found.reverse

/-- The fields of an object, each by the reader for its name, which is given what was found before;
the first argument bounds their number. -/
def fields (field : Text → α → Reader α) : Nat → Bool → α → Reader α
  | 0, _, _ => failNext .eofObject
  | n + 1, first, found => do
    if ← hasField first then
      let name ← string true
      fields field n false (← field name found)
    else return found

/-! ## 6. Values -/

/-- Any value; as many values may be nested as the first argument says. -/
def value : Nat → Reader Json
  | 0 => failNext .tooDeep
  | room + 1 => do
    match ← peekToken with
    | none => failNext .eofValue
    | some c =>
      if c = 'n' then do
        skip
        ident "ull"
        return .null
      else if c = 't' then do
        skip
        ident "rue"
        return .bool true
      else if c = 'f' then do
        skip
        ident "alse"
        return .bool false
      else if c = '-' ∨ c.isDigit then
        match ← signedNumber with
        | .whole n => return .int n
        | .real x => return .real x
      else if c = '"' then return .str (← string true)
      else if c = '[' then
        if room = 0 then failNext .tooDeep
        else
          skip
          let bound := (← unread).length + 1
          let xs ← placed (closedBy endOfList (items (value room) bound true []))
          return .arr xs
      else if c = '{' then
        if room = 0 then failNext .tooDeep
        else
          skip
          let bound := (← unread).length + 1
          let field := fun name found => do
            colon
            return (name, ← value room) :: found
          let fs ← placed (closedBy endOfObject (fields field bound true []))
          return .obj fs.reverse
      else failNext .expectedValue

-- Passes digits, of which there has to be one.
def someDigits (missing : Reader Unit) : Reader Unit := do
  if (← takeWhile Char.isDigit) = [] then missing

-- Passes the digits of a number before its point.
def passWhole : Reader Unit := do
  match ← peek with
  | none => failHere .badNumber
  | some c =>
    if c = '0' then
      skip
      if (← peek).any Char.isDigit then failNext .badNumber
    else if c.isDigit then
      let _ ← takeWhile Char.isDigit
    else failNext .badNumber

-- Passes a fraction, if there is one.
def passFraction : Reader Unit := do
  if (← peek) = some '.' then
    skip
    someDigits (failNext .badNumber)

-- Passes the digits of an exponent.
def passExponentDigits : Reader Unit := do
  match ← peek with
  | none => failHere .badNumber
  | some d =>
    if d.isDigit then
      let _ ← takeWhile Char.isDigit
    else failNext .badNumber

-- Passes an exponent, if there is one.
def passExponent : Reader Unit := do
  let e ← peek
  if e = some 'e' ∨ e = some 'E' then
    skip
    let sign ← peek
    if sign = some '+' ∨ sign = some '-' then skip
    passExponentDigits

-- Passes a number after its sign without looking at its size.
def passNumber : Reader Unit := do
  passWhole
  passFraction
  passExponent

-- Passes the name of a field and the colon after it.
def passName : Reader Unit := do
  match ← peekToken with
  | some '"' => do
    let _ ← string false
    colon
  | some _ => failNext .keyNotString
  | none => failNext .eofObject

-- What stands for the end of an open value, and what is missing without it.
def endMark (isObject : Bool) : Char × Cause × Cause :=
  if isObject then ('}', .eofObject, .expectedObjectEnd) else (']', .eofList, .expectedListEnd)

-- Passes a word or number that begins with a character.
def passPlain (c : Char) : Reader Unit := do
  if c = 'n' then
    skip
    ident "ull"
  else if c = 't' then
    skip
    ident "rue"
  else if c = 'f' then
    skip
    ident "alse"
  else if c = '-' then
    skip
    passNumber
  else if c.isDigit then passNumber
  else if c = '"' then
    let _ ← string false
  else failNext .expectedValue

-- Passes values and the marks around them until nothing is open, without an end to how many are
-- nested. `opened` says for each open value whether it is an object, innermost first, and `done`
-- whether a value has just been passed. The first argument bounds the number of values and marks.
def passOpen : Nat → Bool → List Bool → Reader Unit
  | 0, _, _ => failNext .eofValue
  | n + 1, true, opened =>
    match opened with
    | [] => pure ()
    | isObject :: outer => do
      let (mark, eof, other) := endMark isObject
      match ← peekToken with
      | none => failNext eof
      | some c =>
        if c = ',' then
          skip
          if isObject then passName
          passOpen n false opened
        else if c = mark then
          skip
          passOpen n true outer
        else failNext other
  | n + 1, false, opened => do
    match ← peekToken with
    | none => failNext .eofValue
    | some c =>
      if c = '[' ∨ c = '{' then
        skip
        let isObject := decide (c = '{')
        let (mark, eof, _) := endMark isObject
        match ← peekToken with
        | none => failNext eof
        | some d =>
          if d = mark then
            skip
            passOpen n true opened
          else
            if isObject then passName
            passOpen n false (isObject :: opened)
      else
        passPlain c
        passOpen n true opened

def passValue : Reader Unit := do passOpen (2 * (← unread).length + 2) false []

end Reader

end Baselines.Json
