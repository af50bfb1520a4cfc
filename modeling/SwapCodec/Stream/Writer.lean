import SwapCodec.Word.Checked

/-!
# Writing bytes

A `Writer` holds the bytes written so far, and an `Encoder` appends to them. An encoder that fails
leaves what it wrote before: each of the small encoders here fails before it writes anything, and
an array keeps its count and the elements in front of the one that failed.
-/

set_option autoImplicit false

namespace SwapCodec

/-- The bytes written so far. -/
structure Writer where
  /-- The bytes, in the order in which they were written. -/
  bytes : Array UInt8 := #[]
  deriving DecidableEq, Repr

/-- A step that appends bytes or fails. -/
abbrev Encoder (α : Type) : Type := ExceptT Error (StateM Writer) α

/-- How many bytes an address has. -/
def addressSize : Nat := 20

/-- The width of the count in front of an array. -/
def countWidth : Width := .short

/-- The most elements that an array may have. -/
def maxElements : Nat := 65535

namespace Writer

/-- The bytes written so far, as a list. -/
def toList (w : Writer) : List UInt8 := w.bytes.toList

/-- How many bytes have been written. -/
def position (w : Writer) : Nat := w.bytes.size

/-- The writer with more bytes at its end. -/
def append (w : Writer) (data : List UInt8) : Writer := ⟨w.bytes.appendList data⟩

end Writer

namespace Encoder

/-- Fails without writing. -/
def reject {α : Type} (e : Error) : Encoder α := fun w => (.error e.settled, w)

/-- Goes on with a result, or fails without writing. -/
def lift {α : Type} (r : Except Error α) : Encoder α := fun w => (r, w)

/-- Appends bytes. -/
def write (data : List UInt8) : Encoder Unit := fun w => (.ok (), w.append data)

/-- Runs an encoder on an empty writer and gives the bytes it wrote. -/
def toBytes (e : Encoder Unit) : Except Error (List UInt8) :=
  match e {} with
  | (.ok (), w) => .ok w.toList
  | (.error err, _) => .error err

/-- Appends one byte, given as an integer. -/
def byte (v : Value) : Encoder Unit :=
  match v.asInt? with
  | none => reject (.fault .type)
  | some n => if 0 ≤ n ∧ n < 256 then write [UInt8.ofNat n.toNat] else reject (.fault .value)

/-- Appends the bytes of an integer that fits the width. -/
def word (s : Signedness) (w : Width) (v : Value) : Encoder Unit := do
  let data ← lift (encodeWord s w v)
  write data

/-- Appends one byte for a truth value. -/
def bool : Value → Encoder Unit
  | .bool b => write [if b then 1 else 0]
  | _ => reject .unmetCondition

/-- Appends the bytes of an address. -/
def address : Value → Encoder Unit
  | .bytes data => if data.length = addressSize then write data else reject .unmetCondition
  | _ => reject .unmetCondition

/-- Appends each element in turn. -/
def each (element : Value → Encoder Unit) : List Value → Encoder Unit
  | [] => pure ()
  | v :: rest => do
    element v
    each element rest

/-- Appends the count of elements and then each of them. -/
def array (element : Value → Encoder Unit) (items : List Value) : Encoder Unit :=
  if maxElements < items.length then reject .tooManyElements
  else do
    word .unsigned countWidth (.int items.length)
    each element items

end Encoder

/-- The elements that a value is made of, if it can be walked through. -/
def Value.elements? : Value → Option (List Value)
  | .list items => some items
  | .tuple items => some items
  | .str s => some (s.toList.map fun c => .str (String.singleton c))
  | .bytes data => some (data.map fun b => .int b.toNat)
  | .dict entries => some (entries.map fun e => e.1.toValue)
  | _ => none

end SwapCodec
