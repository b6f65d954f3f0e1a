import Baselines.Text.Basic

/-!
# Binary floating point numbers

The 64-bit floating point numbers as whole multiples of powers of two, computed with whole numbers
only. A number is written with the fewest digits that read back.
-/

namespace Baselines

/-- The number `(-1)^negative * m * 2^e`. Not zero, it has `m < 2^53`, and `2^52 ≤ m` unless `e` is
least. -/
structure Binary64 where
  negative : Bool
  m : Nat
  e : Int
  deriving DecidableEq, Repr

namespace Binary64

-- `2` to a whole power, as a fraction.
def pow2 (e : Int) : Nat × Nat :=
  if 0 ≤ e then (Nat.pow 2 e.toNat, 1) else (1, Nat.pow 2 (-e).toNat)

-- `num / den` to the nearest whole number; half goes to the even neighbour.
def roundDiv (num den : Nat) : Nat :=
  let q := num / den
  let r := num % den
  if 2 * r < den then q else if den < 2 * r then q + 1 else if q % 2 = 0 then q else q + 1

-- The exponent with which `num / den` has 53 binary digits, but not below the least.
def exponentFor (num den : Nat) : Int :=
  let guess : Int := (num.log2 : Int) - den.log2 - 52
  let below (e : Int) : Bool :=
    let (a, b) := pow2 e
    num * b < den * a * Nat.pow 2 52
  let e := if below guess then guess - 1 else guess
  max e (-1074)

-- The nearest number to `num / den`, none if it is too large.
def ofRatio? (negative : Bool) (num den : Nat) : Option Binary64 :=
  if num = 0 then some ⟨negative, 0, 0⟩
  else
    let e := exponentFor num den
    let (a, b) := pow2 e
    let m := roundDiv (num * b) (den * a)
    -- rounding up may reach one binary digit more
    let (m, e) := if m = Nat.pow 2 53 then (Nat.pow 2 52, e + 1) else (m, e)
    if 971 < e then none else some ⟨negative, m, e⟩

-- The numerator and denominator of the absolute value.
def ratio (x : Binary64) : Nat × Nat :=
  let (a, b) := pow2 x.e
  (x.m * a, b)

-- The product with a power of ten that has itself been rounded; none if it is too large.
def scale? (x : Binary64) (exponent : Int) : Option Binary64 :=
  let (n, d) := x.ratio
  match ofRatio? false (Nat.pow 10 exponent.natAbs) 1 with
  | none => none
  | some p =>
    let (pn, pd) := p.ratio
    if 0 ≤ exponent then ofRatio? x.negative (n * pn) (d * pd)
    else ofRatio? x.negative (n * pd) (d * pn)

/-- The nearest number to `significand * 10^exponent`, rounded once for the significand, once for
the power of ten, and once for their product; none if it is too large. -/
def ofParts? (negative : Bool) (significand : Nat) (exponent : Int) : Option Binary64 :=
  match ofRatio? negative significand 1 with
  | none => none
  | some x =>
    if x.m = 0 then some x
    else if 308 < exponent then none
    else if exponent < -616 then some ⟨negative, 0, 0⟩
    -- a power of ten too small to be a number is taken in two steps
    else if exponent < -308 then
      match x.scale? (-308) with
      | none => none
      | some y => y.scale? (exponent + 308)
    else x.scale? exponent

/-! ## Writing -/

-- The number of decimal digits before the point, for a fraction of at least one; zero or less
-- below.
def magnitude (num den : Nat) : Int :=
  if den ≤ num then (Nat.toDigits 10 (num / den)).length
  else 1 - (Nat.toDigits 10 (den / num)).length

-- Whether `d * 10^k` rounds to the number.
def readsAs (x : Binary64) (d : Nat) (k : Int) : Bool :=
  let num := if 0 ≤ k then d * Nat.pow 10 k.toNat else d
  let den := if 0 ≤ k then 1 else Nat.pow 10 (-k).toNat
  match ofRatio? x.negative num den with
  | some y => y.m = x.m && (y.m = 0 || y.e = x.e)
  | none => false

-- The digits and the power of ten of the decimal with `n` digits that is nearest and reads
-- back.
def digits? (x : Binary64) (n : Nat) : Option (Nat × Int) :=
  let (num, den) := x.ratio
  -- `n` digits end at the power `k` of ten, where the value is `a / b`
  let k := magnitude num den - n
  let (a, b) :=
    if 0 ≤ k then (num, den * Nat.pow 10 k.toNat) else (num * Nat.pow 10 (-k).toNat, den)
  let near := roundDiv a b
  let low := a / b
  if readsAs x near k then some (near, k)
  else if readsAs x low k then some (low, k)
  else if readsAs x (low + 1) k then some (low + 1, k)
  else none

/-- The fewest digits that read back, without zeros at the end, and their power of ten. -/
def shortest (x : Binary64) : Nat × Int :=
  match (List.range 18).findSome? fun n => x.digits? (n + 1) with
  | some p => p
  | none => (0, 0)

-- The zeros of a text of digits moved from its end into the power of ten.
def trimZeros (ds : Text) (k : Int) : Text × Int :=
  let kept := Text.dropEndWhile (· == '0') ds
  if kept = [] then (['0'], 0) else (kept, k + (ds.length - kept.length : Nat))

/-- The number in decimal: positional from `1e-5` to `1e16`, and with a signed exponent beyond. -/
def text (x : Binary64) : Text :=
  let sign : Text := if x.negative then ['-'] else []
  if x.m = 0 then sign ++ "0.0"
  else
    let (d, k) := x.shortest
    let (ds, k) := trimZeros (Text.ofNat d) k
    -- how many digits stand before the point
    let point := (ds.length : Int) + k
    sign ++
      if 0 ≤ k ∧ point ≤ 16 then ds ++ List.replicate k.toNat '0' ++ ".0"
      else if 0 < point ∧ point ≤ 16 then ds.take point.toNat ++ '.' :: ds.drop point.toNat
      else if -5 < point ∧ point ≤ 0 then "0." ++ List.replicate (-point).toNat '0' ++ ds
      else
        let e := point - 1
        let expo : Text := (if 0 ≤ e then "e+" else "e-") ++ Text.ofNat e.natAbs
        match ds with
        | [] => expo
        | [c] => c :: expo
        | c :: r => c :: '.' :: r ++ expo

end Binary64

end Baselines
