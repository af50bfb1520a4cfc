import SwapCodec.Text.Blank

/-!
# Numerals

Integers as text. A numeral is written in base ten with a leading minus sign for a negative
integer, and it is written only if it has at most `digitLimit` digits (`decimal?`).

Two readers take text back to integers. `readDecimal` reads base ten alone. `readMarked` also
reads the markers `0x`, `0o` and `0b`, and then refuses a base-ten numeral with a leading zero
unless it is zero. Both trim blanks, take one sign, allow single underscores between digits and
take the decimal digits of every script (`digitValue?`).
-/

set_option autoImplicit false

namespace SwapCodec.Text

/-- The most decimal digits that a numeral may have, written or read. -/
def digitLimit : Nat := 4300

/-- The code point of zero in each script that has decimal digits of its own. -/
def scriptZeros : List Nat :=
  [0x30, 0x660, 0x6f0, 0x7c0, 0x966, 0x9e6, 0xa66, 0xae6, 0xb66, 0xbe6, 0xc66, 0xce6, 0xd66,
   0xde6, 0xe50, 0xed0, 0xf20, 0x1040, 0x1090, 0x17e0, 0x1810, 0x1946, 0x19d0, 0x1a80, 0x1a90,
   0x1b50, 0x1bb0, 0x1c40, 0x1c50, 0xa620, 0xa8d0, 0xa900, 0xa9d0, 0xa9f0, 0xaa50, 0xabf0,
   0xff10, 0x104a0, 0x10d30, 0x11066, 0x110f0, 0x11136, 0x111d0, 0x112f0, 0x11450, 0x114d0,
   0x11650, 0x116c0, 0x11730, 0x118e0, 0x11950, 0x11c50, 0x11d50, 0x11da0, 0x16a60, 0x16ac0,
   0x16b50, 0x1d7ce, 0x1d7d8, 0x1d7e2, 0x1d7ec, 0x1d7f6, 0x1e140, 0x1e2f0, 0x1e950, 0x1fbf0]

/-- The value of a decimal digit of any script. -/
def digitValue? (c : Char) : Option Nat :=
  (scriptZeros.find? fun z => z ≤ c.toNat && c.toNat < z + 10).map fun z => c.toNat - z

/-- A decimal digit becomes the ASCII digit of its value and a wide blank becomes a space. -/
def foldNumeralChar (c : Char) : Char :=
  if c.toNat < 128 then c
  else if isWideBlank c then ' '
  else match digitValue? c with
    | some d => Char.ofNat ('0'.toNat + d)
    | none => c

/-- The value of an ASCII digit, the letters `a` to `f` standing for ten to fifteen. -/
def hexDigitValue? (c : Char) : Option Nat :=
  if '0' ≤ c && c ≤ '9' then some (c.toNat - '0'.toNat)
  else if 'a' ≤ c && c ≤ 'f' then some (c.toNat - 'a'.toNat + 10)
  else if 'A' ≤ c && c ≤ 'F' then some (c.toNat - 'A'.toNat + 10)
  else none

/-- The value of a digit of the given base. -/
def digitIn? (base : Nat) (c : Char) : Option Nat :=
  (hexDigitValue? c).filter (· < base)

/-- The digit values of a numeral whose digits may be separated by single underscores. -/
def ungrouped? (base : Nat) : List Char → Option (List Nat)
  | [] => none
  | [c] => (digitIn? base c).map ([·])
  | c :: '_' :: rest => do
    let d ← digitIn? base c
    let ds ← ungrouped? base rest
    return d :: ds
  | c :: rest => do
    let d ← digitIn? base c
    let ds ← ungrouped? base rest
    return d :: ds

/-- The natural number with the given digits, the most significant first. -/
def ofDigits (base : Nat) (ds : List Nat) : Nat :=
  ds.foldl (fun n d => base * n + d) 0

/-- A base-ten numeral without a sign. -/
def readMagnitude (cs : List Char) : Option Nat := do
  let ds ← ungrouped? 10 cs
  if ds.length ≤ digitLimit then some (ofDigits 10 ds) else none

/-- A numeral in a marked base: one underscore may stand between the marker and the digits. -/
def readAfterMarker (base : Nat) : List Char → Option Nat
  | '_' :: rest => (ungrouped? base rest).map (ofDigits base)
  | cs => (ungrouped? base cs).map (ofDigits base)

/-- A numeral without a sign whose base is ten unless a marker says otherwise. -/
def readMarkedMagnitude : List Char → Option Nat
  | '0' :: c :: rest =>
    if c == 'x' || c == 'X' then readAfterMarker 16 rest
    else if c == 'o' || c == 'O' then readAfterMarker 8 rest
    else if c == 'b' || c == 'B' then readAfterMarker 2 rest
    else (readMagnitude ('0' :: c :: rest)).filter (· == 0)
  | cs => readMagnitude cs

/-- Reads an optional sign and then a magnitude. -/
def readSigned (magnitude : List Char → Option Nat) : List Char → Option Int
  | '+' :: rest => (magnitude rest).map Int.ofNat
  | '-' :: rest => (magnitude rest).map fun n => -(Int.ofNat n)
  | cs => (magnitude cs).map Int.ofNat

/-- Reads a base-ten integer. -/
def readDecimal (s : String) : Option Int :=
  readSigned readMagnitude (trimBlanks (s.toList.map foldNumeralChar))

/-- Reads an integer whose base is ten unless a marker says otherwise. -/
def readMarked (s : String) : Option Int :=
  readSigned readMarkedMagnitude (trimBlanks (s.toList.map foldNumeralChar))

/-- The decimal digits of an integer, behind a minus sign if it is negative. -/
def decimal (n : Int) : String :=
  if n < 0 then String.ofList ('-' :: Nat.toDigits 10 n.natAbs)
  else String.ofList (Nat.toDigits 10 n.natAbs)

/-- The least natural number with too many decimal digits. -/
def tooLong : Nat := Nat.pow 10 digitLimit

/-- The decimal numeral of an integer, if it has at most `digitLimit` digits. -/
def decimal? (n : Int) : Option String :=
  if n.natAbs < tooLong then some (decimal n) else none

/-- The decimal digits of a natural number. -/
def decimalNat (n : Nat) : String :=
  decimal (Int.ofNat n)

/-- The hexadecimal digits of a natural number, in lower case, behind the marker `0x`. -/
def hexadecimal (n : Nat) : String :=
  String.ofList ('0' :: 'x' :: Nat.toDigits 16 n)

/-- The text pushed to the right with the given fill until it is `width` characters long. -/
def padLeft (fill : Char) (width : Nat) (s : String) : String :=
  String.ofList (List.replicate (width - s.length) fill) ++ s

/-- The text followed by spaces until it is `width` characters long. -/
def padRight (width : Nat) (s : String) : String :=
  s ++ String.ofList (List.replicate (width - s.length) ' ')

end SwapCodec.Text
