import Baselines.Text.Basic

/-!
# Encodings

Texts as bytes. A byte order mark at the start names the encoding, and is no part of the text; bytes
without one are UTF-8. Reading is strict: bytes that are not the encoding of a text are refused.
-/

namespace Baselines

/-- The contents of a file. -/
abbrev Bytes := List UInt8

/-- The encodings that a byte order mark can name. -/
inductive Encoding where
  | utf8
  | utf16le
  | utf16be
  deriving DecidableEq, Repr

namespace Encoding

def label : Encoding → Text
  | utf8 => "UTF-8"
  | utf16le => "UTF-16LE"
  | utf16be => "UTF-16BE"

def mark : Encoding → Bytes
  | utf8 => [0xEF, 0xBB, 0xBF]
  | utf16le => [0xFF, 0xFE]
  | utf16be => [0xFE, 0xFF]

/-! ## 1. UTF-8 -/

def utf8Char (c : Char) : Bytes :=
  let n := c.toNat
  if n < 0x80 then [UInt8.ofNat n]
  else if n < 0x800 then [UInt8.ofNat (0xC0 + n / 64), UInt8.ofNat (0x80 + n % 64)]
  else if n < 0x10000 then
    [UInt8.ofNat (0xE0 + n / 4096), UInt8.ofNat (0x80 + n / 64 % 64), UInt8.ofNat (0x80 + n % 64)]
  else
    [UInt8.ofNat (0xF0 + n / 262144), UInt8.ofNat (0x80 + n / 4096 % 64),
      UInt8.ofNat (0x80 + n / 64 % 64), UInt8.ofNat (0x80 + n % 64)]

def utf8Encode (t : Text) : Bytes := t.flatMap utf8Char

/-- The number of bytes of a text. -/
def utf8Length (t : Text) : Nat := (utf8Encode t).length

/-- Whether a byte can only follow another one of the same character. -/
def continues (b : UInt8) : Bool := 0x80 ≤ b.toNat && b.toNat < 0xC0

/-- How many bytes follow a first byte, and between which values the second one lies. -/
structure Follow where
  count : Nat
  least : Nat
  most : Nat

/-- What may follow a first byte; nothing follows a byte that begins no character. -/
def follow? (b : UInt8) : Option Follow :=
  let n := b.toNat
  if n < 0x80 then some ⟨0, 0, 0⟩
  else if n < 0xC2 then none
  else if n < 0xE0 then some ⟨1, 0x80, 0xBF⟩
  else if n = 0xE0 then some ⟨2, 0xA0, 0xBF⟩
  else if n = 0xED then some ⟨2, 0x80, 0x9F⟩
  else if n < 0xF0 then some ⟨2, 0x80, 0xBF⟩
  else if n = 0xF0 then some ⟨3, 0x90, 0xBF⟩
  else if n < 0xF4 then some ⟨3, 0x80, 0xBF⟩
  else if n = 0xF4 then some ⟨3, 0x80, 0x8F⟩
  else none

def Follow.admits (f : Follow) (b : UInt8) : Bool := f.least ≤ b.toNat && b.toNat ≤ f.most

def utf8Decode? : Bytes → Option Text
  | [] => some []
  | b :: r =>
    match follow? b with
    | none => none
    | some ⟨0, _, _⟩ => (utf8Decode? r).map (Char.ofNat b.toNat :: ·)
    | some ⟨1, lo, hi⟩ =>
      match r with
      | b1 :: r =>
        if Follow.admits ⟨1, lo, hi⟩ b1 then
          (utf8Decode? r).map (Char.ofNat ((b.toNat - 0xC0) * 64 + (b1.toNat - 0x80)) :: ·)
        else none
      | [] => none
    | some ⟨2, lo, hi⟩ =>
      match r with
      | b1 :: b2 :: r =>
        if Follow.admits ⟨2, lo, hi⟩ b1 && continues b2 then
          (utf8Decode? r).map
            (Char.ofNat ((b.toNat - 0xE0) * 4096 + (b1.toNat - 0x80) * 64 + (b2.toNat - 0x80)) :: ·)
        else none
      | _ => none
    | some ⟨_, lo, hi⟩ =>
      match r with
      | b1 :: b2 :: b3 :: r =>
        if Follow.admits ⟨3, lo, hi⟩ b1 && continues b2 && continues b3 then
          (utf8Decode? r).map
            (Char.ofNat ((b.toNat - 0xF0) * 262144 + (b1.toNat - 0x80) * 4096 +
              (b2.toNat - 0x80) * 64 + (b3.toNat - 0x80)) :: ·)
        else none
      | _ => none

/-- How many of the following bytes belong to the character that `f` began. -/
def matched (f : Follow) : Bytes → Nat
  | [] => 0
  | b :: r =>
    if f.count = 0 then 0
    else if f.admits b then 1 + ((r.take (f.count - 1)).takeWhile continues).length else 0

-- The text that the bytes encode, with a replacement character for each longest run of bytes that
-- begins a character and does not end it, and for each byte that begins none. The first argument
-- bounds the number of characters.
def utf8LossyUpTo : Nat → Bytes → Text
  | 0, _ => []
  | _, [] => []
  | n + 1, b :: r =>
    match follow? b with
    | none => '\uFFFD' :: utf8LossyUpTo n r
    | some f =>
      let k := matched f r
      if k = f.count then
        (utf8Decode? (b :: r.take k)).getD ['\uFFFD'] ++ utf8LossyUpTo n (r.drop k)
      else '\uFFFD' :: utf8LossyUpTo n (r.drop k)

/-- The text that the bytes encode, with replacement characters where they encode none. -/
def utf8Lossy (b : Bytes) : Text := utf8LossyUpTo b.length b

/-! ## 2. UTF-16 -/

def unitBytes (e : Encoding) (n : Nat) : Bytes :=
  let high := UInt8.ofNat (n / 256)
  let low := UInt8.ofNat (n % 256)
  if e = utf16le then [low, high] else [high, low]

def units (c : Char) : List Nat :=
  let n := c.toNat
  if n < 0x10000 then [n] else [0xD800 + (n - 0x10000) / 1024, 0xDC00 + (n - 0x10000) % 1024]

def utf16Encode (e : Encoding) (t : Text) : Bytes := (t.flatMap units).flatMap (unitBytes e)

def units? (e : Encoding) : Bytes → Option (List Nat)
  | [] => some []
  | [_] => none
  | a :: b :: r =>
    let n := if e = utf16le then b.toNat * 256 + a.toNat else a.toNat * 256 + b.toNat
    (units? e r).map (n :: ·)

-- The text that the units encode; surrogates stand in pairs only.
def ofUnits? : List Nat → Option Text
  | [] => some []
  | n :: r =>
    if n < 0xD800 || 0xE000 ≤ n then (ofUnits? r).map (Char.ofNat n :: ·)
    else if n < 0xDC00 then
      match r with
      | m :: r =>
        if 0xDC00 ≤ m && m < 0xE000 then
          (ofUnits? r).map (Char.ofNat (0x10000 + (n - 0xD800) * 1024 + (m - 0xDC00)) :: ·)
        else none
      | [] => none
    else none

/-! ## 3. Files -/

/-- The encoding that the start of a file names, and the bytes after the mark. -/
def named (b : Bytes) : Encoding × Bytes :=
  match b with
  | 0xEF :: 0xBB :: 0xBF :: r => (utf8, r)
  | 0xFF :: 0xFE :: r => (utf16le, r)
  | 0xFE :: 0xFF :: r => (utf16be, r)
  | _ => (utf8, b)

/-- The text that bytes without a mark hold in an encoding. -/
def decode? : Encoding → Bytes → Option Text
  | utf8, b => utf8Decode? b
  | e, b => (units? e b).bind ofUnits?

/-- The text of a file, or the encoding that it fails to be in. -/
def read (b : Bytes) : Except Encoding Text :=
  let (e, r) := named b
  match decode? e r with
  | some t => .ok t
  | none => .error e

end Encoding

end Baselines
