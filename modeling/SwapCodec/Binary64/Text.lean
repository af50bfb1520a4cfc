import SwapCodec.Binary64

/-!
# Text of double-precision numbers

A double is written with the fewest decimal digits that read back as the same double
(`shortest`). Among the decimals with that many digits the nearest one is taken, and a tie goes to
the even one. Numbers from `1e-4` up to `1e16` are positional and keep a point; the others have an
exponent of at least two digits.

`read?` reads an optional sign before `inf`, `infinity`, `nan` or a decimal with an optional point
and exponent.
-/

set_option autoImplicit false

namespace SwapCodec.Binary64

/-- A decimal number: its digits as a natural number, and the count of digits before the point. -/
structure Decimal where
  /-- The digits, as one natural number. -/
  digits : Nat
  /-- How many digits stand before the point; zero or less puts the point in front. -/
  point : Int

/-- How many decimal digits stand before the point of `m * 2 ^ e`, for a positive `m` and an
exponent of a double. -/
def pointOf (m : Nat) (e : Int) : Int :=
  let (n, d) := scaled (m * Nat.pow 10 400) 1 (-e)
  ((Nat.toDigits 10 (n / d)).length : Int) - 400

/-- The ratio of the unit `2 ^ (e - 2)` to the unit `10 ^ j`. -/
def unitRatio (e j : Int) : Nat × Nat :=
  let two := e - 2
  let up := (if 0 ≤ two then Nat.pow 2 two.toNat else 1) * (if j < 0 then Nat.pow 10 (-j).toNat else 1)
  let down := (if two < 0 then Nat.pow 2 (-two).toNat else 1) * (if 0 ≤ j then Nat.pow 10 j.toNat else 1)
  (up, down)

/-- The decimal with `count` digits that reads back as `m * 2 ^ e`, if there is one: of the two
neighbours on that grid the nearer one, a tie to the even one. The reals that round to the double
form an interval, which holds its ends if `m` is even. -/
def onGrid? (m : Nat) (e : Int) (point : Int) (count : Nat) : Option Nat :=
  let (up, down) := unitRatio e (point - count)
  let value := 4 * m * up
  let low := (4 * m - (if m = leadingBit && leastExponent < e then 1 else 2)) * up
  let high := (4 * m + 2) * up
  let inside := fun d : Nat =>
    if m % 2 = 0 then low ≤ d * down && d * down ≤ high else low < d * down && d * down < high
  let below := value / down
  let above := below + 1
  match inside below, inside above with
  | true, true =>
    let short := value - below * down
    let beyond := above * down - value
    some (if short < beyond || (short = beyond && below % 2 = 0) then below else above)
  | true, false => some below
  | false, true => some above
  | false, false => none

/-- The fewest digits that read back as `m * 2 ^ e`, searched from one digit on; seventeen always
suffice. -/
def shortest (m : Nat) (e : Int) : Decimal :=
  let point := pointOf m e
  match (List.range 17).findSome? fun i => (onGrid? m e point (i + 1)).map fun d => (d, i + 1) with
  | some (d, count) => ⟨d, (Nat.toDigits 10 d).length + (point - count)⟩
  | none => ⟨0, 1⟩

/-- Digits without the zeros at their end. -/
def withoutTrailingZeros (cs : List Char) : List Char :=
  match (cs.reverse.dropWhile (· == '0')).reverse with
  | [] => ['0']
  | ds => ds

/-- The exponent part: a sign and at least two digits. -/
def exponentText (e : Int) : List Char :=
  let ds := Nat.toDigits 10 e.natAbs
  'e' :: (if e < 0 then '-' else '+') :: (if ds.length < 2 then '0' :: ds else ds)

/-- A decimal in positional form or with an exponent. -/
def Decimal.text (x : Decimal) : List Char :=
  let ds := withoutTrailingZeros (Nat.toDigits 10 x.digits)
  if x.point ≤ -4 || 16 < x.point then
    let mantissa := match ds with
      | d :: [] => [d]
      | d :: rest => d :: '.' :: rest
      | [] => []
    mantissa ++ exponentText (x.point - 1)
  else if x.point ≤ 0 then
    '0' :: '.' :: List.replicate (-x.point).toNat '0' ++ ds
  else
    let before := x.point.toNat
    let whole := ds.take before ++ List.replicate (before - ds.length) '0'
    let fraction := ds.drop before
    whole ++ '.' :: (if fraction.isEmpty then ['0'] else fraction)

/-- The text of a double. -/
def text : Binary64 → String
  | .nan => "nan"
  | .infinite negative => if negative then "-inf" else "inf"
  | .finite negative m e =>
    let body := if m = 0 then ['0', '.', '0'] else (shortest m e).text
    String.ofList (if negative then '-' :: body else body)

/-- The value of a string of ASCII digits. -/
def digitsValue (ds : List Char) : Nat :=
  ds.foldl (fun n c => 10 * n + (c.toNat - '0'.toNat)) 0

/-- Reads the exponent part, an empty one being zero. -/
def readExponent? : List Char → Option Int
  | [] => some 0
  | c :: rest =>
    if c == 'e' || c == 'E' then
      let (negative, ds) := match rest with
        | '-' :: ds => (true, ds)
        | '+' :: ds => (false, ds)
        | ds => (false, ds)
      if ds.isEmpty || ds.any (fun d => !d.isDigit) then none
      else some (if negative then -(Int.ofNat (digitsValue ds)) else Int.ofNat (digitsValue ds))
    else none

/-- Reads digits with an optional point and exponent. -/
def readUnsigned? (negative : Bool) (cs : List Char) : Option Binary64 := do
  let whole := cs.takeWhile Char.isDigit
  let rest := cs.dropWhile Char.isDigit
  let (fraction, rest) := match rest with
    | '.' :: more => (more.takeWhile Char.isDigit, more.dropWhile Char.isDigit)
    | more => ([], more)
  if whole.isEmpty && fraction.isEmpty then none
  else
    let e ← readExponent? rest
    return ofDecimal negative (digitsValue (whole ++ fraction)) (e - fraction.length)

/-- Reads a number behind its sign. -/
def readBody? (negative : Bool) (cs : List Char) : Option Binary64 :=
  let word := String.ofList (cs.map Char.toLower)
  if word == "inf" || word == "infinity" then some (.infinite negative)
  else if word == "nan" then some .nan
  else readUnsigned? negative cs

/-- Reads the text of a double. -/
def read? (s : String) : Option Binary64 :=
  match s.toList with
  | '-' :: rest => readBody? true rest
  | '+' :: rest => readBody? false rest
  | cs => readBody? false cs

end SwapCodec.Binary64
