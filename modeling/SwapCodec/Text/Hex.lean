import SwapCodec.Text.Numeral

/-!
# Hexadecimal bytes

Each byte is two lower-case digits, the high half first (`hexOfBytes`). The reader takes both
letter cases and ASCII blanks between bytes, never inside one (`bytesOfHex?`).
-/

set_option autoImplicit false

namespace SwapCodec.Text

/-- The two digits of a byte, the high half first. -/
def hexPair (b : UInt8) : List Char :=
  [Nat.digitChar (b.toNat / 16), Nat.digitChar (b.toNat % 16)]

/-- The hexadecimal digits of a byte string. -/
def hexOfBytes (bytes : List UInt8) : String :=
  String.ofList (bytes.flatMap hexPair)

/-- Reads pairs of digits, skipping the blanks before each pair; `done` holds the bytes read so
far, the last one first. -/
def readHexPairs (done : List UInt8) : List Char → Option (List UInt8)
  | [] => some done.reverse
  | [c] => if isAsciiBlank c then some done.reverse else none
  | c :: c' :: rest =>
    if isAsciiBlank c then readHexPairs done (c' :: rest)
    else match hexDigitValue? c, hexDigitValue? c' with
      | some hi, some lo => readHexPairs (UInt8.ofNat (16 * hi + lo) :: done) rest
      | _, _ => none

/-- The bytes that a hexadecimal string denotes. -/
def bytesOfHex? (s : String) : Option (List UInt8) :=
  readHexPairs [] s.toList

/-- The text behind the marker `0x`, or the whole text if it has none. -/
def dropHexMarker (s : String) : String :=
  match s.toList with
  | '0' :: c :: rest => if c == 'x' || c == 'X' then String.ofList rest else s
  | _ => s

end SwapCodec.Text
