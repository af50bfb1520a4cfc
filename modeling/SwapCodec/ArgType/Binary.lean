import SwapCodec.ArgType

/-!
# Arguments as bytes

The bytes of a value are written by `ArgType.serialize` and read back by `ArgType.deserialize`. A
value is checked before anything is written, so a value that is refused leaves no bytes behind.
What is read is always a value of the type: traits, for one, must have no bit outside their layout.

`ArgType.toBytes` and `ArgType.ofBytes` do the same for a single value; a byte string must hold
that value and nothing after it.
-/

set_option autoImplicit false

namespace SwapCodec

namespace ArgType

/-- Checks a value and then writes it with the encoder of its type. -/
def guarded (T : ArgType) (emit : Value → Encoder Unit) (v : Value) : Encoder Unit := do
  Encoder.lift (T.check v)
  emit v

/-- Writes a value of the type. The elements of an array are checked once more, each before it is
written. -/
def emit : ArgType → Value → Encoder Unit
  | word s w, v => Encoder.word s w v
  | bool, v => Encoder.bool v
  | address, v => Encoder.address v
  | traits _, .traits t => Encoder.word .unsigned traitsWidth (.int t.word)
  | traits kind, _ => Encoder.reject (.traitsRequired kind)
  | array inner, .tuple items => Encoder.array (inner.guarded inner.emit) items
  | array _, _ => Encoder.reject .tupleRequired

/-- Checks a value and then writes it. -/
def serialize (T : ArgType) (v : Value) : Encoder Unit := T.guarded T.emit v

/-- Reads a value of the type. -/
def deserialize : ArgType → Decoder Value
  | word s w => do
    let n ← Decoder.word s w
    pure (.int n)
  | bool => do
    let b ← Decoder.bool
    pure (.bool b)
  | address => do
    let data ← Decoder.address
    pure (.bytes data)
  | traits kind => do
    let n ← Decoder.word .unsigned traitsWidth
    let t ← Decoder.lift (Traits.ofWord kind true (.int n))
    pure (.traits t)
  | array inner => do
    let items ← Decoder.array inner.deserialize
    pure (.tuple items)

/-- The bytes of a value. -/
def toBytes (T : ArgType) (v : Value) : Except Error (List UInt8) :=
  (T.serialize v).toBytes

/-- The value that a byte string holds. -/
def ofBytes (T : ArgType) (data : List UInt8) : Except Error Value :=
  match T.deserialize.run data with
  | .ok v => .ok v
  | .error e => if e.kind.isStreamKind then fail (.undecodableArgument e) else .error e

end ArgType

end SwapCodec
