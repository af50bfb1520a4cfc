/-!
# Fixed-width words

An integer of `w` bits takes `w.byteCount` bytes, the most significant first, and a signed one is
in two's complement. `Width` is a positive count of bits, `Signedness.lower` and
`Signedness.upper` bound the integers of a width, and `wordBytes` and `wordOfBytes` go from an
integer to its bytes and back.
-/

set_option autoImplicit false

namespace SwapCodec

/-- A positive count of bits. -/
structure Width where
  /-- How many bits. -/
  bits : Nat
  /-- There is at least one. -/
  bits_pos : 0 < bits := by decide
  deriving DecidableEq, Repr

/-- Sixteen bits. -/
def Width.short : Width := { bits := 16 }

/-- The bits of the machine's words. -/
def Width.full : Width := { bits := 256 }

/-- The least number of bytes that hold a width. -/
def Width.byteCount (w : Width) : Nat := (w.bits + 7) / 8

/-- Whether an integer type holds negative integers. -/
inductive Signedness where
  /-- Zero and the positive integers. -/
  | unsigned
  /-- As many negative integers as others. -/
  | signed
  deriving DecidableEq, Repr

namespace Signedness

/-- The least integer of a width. -/
def lower (s : Signedness) (w : Width) : Int :=
  match s with
  | .unsigned => 0
  | .signed => -(Nat.pow 2 (w.bits - 1) : Int)

/-- The greatest integer of a width. -/
def upper (s : Signedness) (w : Width) : Int :=
  match s with
  | .unsigned => (Nat.pow 2 w.bits : Int) - 1
  | .signed => (Nat.pow 2 (w.bits - 1) : Int) - 1

/-- The integer lies between the bounds of the width. -/
def fits (s : Signedness) (w : Width) (n : Int) : Bool :=
  s.lower w ≤ n && n ≤ s.upper w

end Signedness

/-- The `count` low bytes of a natural number, the most significant first, in front of `tail`. -/
def bigEndianOnto : Nat → Nat → List UInt8 → List UInt8
  | 0, _, tail => tail
  | count + 1, n, tail => bigEndianOnto count (n / 256) (UInt8.ofNat (n % 256) :: tail)

/-- The `count` low bytes of a natural number, the most significant first. -/
def bigEndian (count n : Nat) : List UInt8 :=
  bigEndianOnto count n []

/-- The natural number with the given bytes, the most significant first. -/
def ofBigEndian (bytes : List UInt8) : Nat :=
  bytes.foldl (fun n b => 256 * n + b.toNat) 0

/-- The bytes of an integer: its residue modulo `256 ^ w.byteCount`. -/
def wordBytes (w : Width) (n : Int) : List UInt8 :=
  bigEndian w.byteCount (n % (Nat.pow 256 w.byteCount : Int)).toNat

/-- The integer with the given bytes; a signed one is negative if its first bit is set. -/
def wordOfBytes (s : Signedness) (bytes : List UInt8) : Int :=
  let n := ofBigEndian bytes
  match s with
  | .unsigned => n
  | .signed =>
    let size := Nat.pow 256 bytes.length
    if size ≤ 2 * n then (n : Int) - size else n

end SwapCodec
