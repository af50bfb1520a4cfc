import SwapCodec.Error

/-!
# Checked words

Widths and words taken from values. `Width.ofValue` takes a positive integer, `checkWord` takes an
integer that fits its width, and truth values are no integers here. `encodeWord` and `decodeWord`
go from a value to its bytes and back and refuse everything else; a byte string is refused for its
length before it is read.
-/

set_option autoImplicit false

namespace SwapCodec

/-- The width that a value names. -/
def Width.ofValue : Value → Except Error Width
  | .int n =>
    if h : 0 < n.toNat then .ok ⟨n.toNat, h⟩ else fail (.invalidWidth (.int n))
  | v => fail (.invalidWidth v)

/-- The bounds of a width, the least integer first. -/
def Signedness.bounds (s : Signedness) (w : Width) : Int × Int :=
  (s.lower w, s.upper w)

/-- An integer that fits the width. -/
def checkFits (s : Signedness) (w : Width) (n : Int) : Except Error Int :=
  if s.fits w n then .ok n else fail (.outOfWidth s w n)

/-- A value that is an integer and fits the width. -/
def checkWord (s : Signedness) (w : Width) : Value → Except Error Int
  | .int n => checkFits s w n
  | v => fail (.integerRequired v)

/-- The bytes of a value. -/
def encodeWord (s : Signedness) (w : Width) (v : Value) : Except Error (List UInt8) := do
  let n ← checkWord s w v
  return wordBytes w n

/-- The integer that a byte string denotes. -/
def decodeWord (s : Signedness) (w : Width) (bytes : List UInt8) : Except Error Int :=
  if bytes.length = w.byteCount then checkFits s w (wordOfBytes s bytes)
  else fail (.wrongByteCount s w bytes.length)

end SwapCodec
