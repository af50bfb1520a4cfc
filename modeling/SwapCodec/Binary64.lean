/-!
# Double-precision numbers

A double is not a number, an infinity, or a sign with `significand * 2 ^ exponent`. The finite
ones are canonical: the exponent is at least `leastExponent`, the significand is below
`2 * leadingBit`, and it is at least `leadingBit` unless the exponent is the least one.

`ofRatio` rounds a quotient of natural numbers to the nearest double, a tie to the even
significand, so every conversion to a double in this library is exact arithmetic followed by one
rounding.
-/

set_option autoImplicit false

namespace SwapCodec

/-- A double-precision number. -/
inductive Binary64 where
  /-- Not a number. -/
  | nan
  /-- An infinity. -/
  | infinite (negative : Bool)
  /-- The number `significand * 2 ^ exponent`, negated if `negative` is set. -/
  | finite (negative : Bool) (significand : Nat) (exponent : Int)
  deriving DecidableEq, Repr, Inhabited

namespace Binary64

/-- The exponent of the subnormal numbers. -/
def leastExponent : Int := -1074

/-- The exponent of the greatest finite numbers. -/
def greatestExponent : Int := 971

/-- The leading bit of a significand of 53 bits. -/
def leadingBit : Nat := 0x10000000000000

/-- The sign bit of the interchange format. -/
def signBit : Nat := 0x8000000000000000

/-- The quotient rounded to the nearest natural number, a tie to the even one. -/
def roundHalfEven (num den : Nat) : Nat :=
  let q := num / den
  let r := num % den
  if 2 * r < den then q
  else if den < 2 * r then q + 1
  else if q % 2 = 0 then q else q + 1

/-- The quotient `num / (den * 2 ^ e)` as a pair of natural numbers. -/
def scaled (num den : Nat) (e : Int) : Nat × Nat :=
  if 0 ≤ e then (num, den * Nat.pow 2 e.toNat) else (num * Nat.pow 2 (-e).toNat, den)

/-- The exponent at which a positive quotient has a significand of 53 bits, or the least one. -/
def exponentFor (num den : Nat) : Int :=
  let e : Int := (num.log2 : Int) - den.log2 - 52
  let (n, d) := scaled num den e
  max leastExponent (if n / d < leadingBit then e - 1 else e)

/-- The double nearest to `num / den`, a tie to the even significand; too large a quotient gives
an infinity. -/
def ofRatio (negative : Bool) (num den : Nat) : Binary64 :=
  if num = 0 then .finite negative 0 leastExponent
  else
    let e := exponentFor num den
    let (n, d) := scaled num den e
    let m := roundHalfEven n d
    let (m, e) := if m = 2 * leadingBit then (leadingBit, e + 1) else (m, e)
    if greatestExponent < e then .infinite negative else .finite negative m e

/-- The double nearest to `digits * 10 ^ exponent`. Exponents far outside the range are settled
before any power is taken. -/
def ofDecimal (negative : Bool) (digits : Nat) (exponent : Int) : Binary64 :=
  let size : Int := (Nat.toDigits 10 digits).length + exponent
  if digits = 0 || size < -400 then .finite negative 0 leastExponent
  else if 400 < size then .infinite negative
  else if 0 ≤ exponent then ofRatio negative (digits * Nat.pow 10 exponent.toNat) 1
  else ofRatio negative digits (Nat.pow 10 (-exponent).toNat)

/-- The 64 bits of the interchange format: sign, biased exponent and fraction. -/
def toBits : Binary64 → Nat
  | .nan => 0x7ff8000000000000
  | .infinite negative => (if negative then signBit else 0) + 0x7ff0000000000000
  | .finite negative m e =>
    (if negative then signBit else 0) +
      (if m < leadingBit then m else (e + 1075).toNat * leadingBit + (m - leadingBit))

/-- The integer part of a finite number and whether nothing is lost by it. -/
def truncated? : Binary64 → Option (Int × Bool)
  | .finite negative m e =>
    let (n, d) := scaled m 1 (-e)
    let q : Int := Int.ofNat (n / d)
    some (if negative then -q else q, n % d = 0)
  | _ => none

/-- The order of a double and an integer, none for not a number. -/
def compareInt? (x : Binary64) (k : Int) : Option Ordering :=
  match x with
  | .nan => none
  | .infinite negative => some (if negative then .lt else .gt)
  | .finite negative m e =>
    let s : Int := if negative then -(Int.ofNat m) else Int.ofNat m
    if 0 ≤ e then some (compare (s * Nat.pow 2 e.toNat) k)
    else some (compare s (k * Nat.pow 2 (-e).toNat))

/-- Whether a double is zero, of either sign. -/
def isZero : Binary64 → Bool
  | .finite _ m _ => m == 0
  | _ => false

end Binary64

end SwapCodec
