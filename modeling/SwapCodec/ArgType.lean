import SwapCodec.Stream.Reader
import SwapCodec.Traits.Codec

/-!
# Argument types

The types that an argument of an instruction can have, and the values of each (`ArgType.check`).
An array is a tuple of at most `maxElements` values of one type, and arrays nest to any depth.

`ArgType.fixedSize?` is the number of bytes that every value of a type takes on the wire, if they
all take the same.
-/

set_option autoImplicit false

namespace SwapCodec

/-- The type of an argument. -/
inductive ArgType where
  /-- An integer of a fixed width. -/
  | word (s : Signedness) (w : Width)
  /-- A truth value. -/
  | bool
  /-- An address. -/
  | address
  /-- Order traits. -/
  | traits (kind : TraitKind)
  /-- A tuple of values of one type. -/
  | array (inner : ArgType)
  deriving DecidableEq

namespace ArgType

/-- An unsigned integer of 16 bits. -/
def uint16 : ArgType := .word .unsigned .short

/-- An unsigned integer of 32 bits. -/
def uint32 : ArgType := .word .unsigned ⟨32, by decide⟩

/-- An unsigned integer of 40 bits. -/
def uint40 : ArgType := .word .unsigned ⟨40, by decide⟩

/-- An unsigned integer of 64 bits. -/
def uint64 : ArgType := .word .unsigned ⟨64, by decide⟩

/-- An unsigned integer of 256 bits. -/
def uint256 : ArgType := .word .unsigned .full

/-- An integer type whose width is given as a value. -/
def ofWidth (s : Signedness) (bits : Value) : Except Error ArgType := do
  let w ← Width.ofValue bits
  return .word s w

/-- How many bytes every value of the type takes; an array takes more or less. -/
def fixedSize? : ArgType → Option Nat
  | word _ w => some w.byteCount
  | bool => some 1
  | address => some addressSize
  | traits _ => some traitsWidth.byteCount
  | array _ => none

/-- The width of an integer type. -/
def width? : ArgType → Option Width
  | word _ w => some w
  | _ => none

/-- The type of the elements of an array. -/
def inner? : ArgType → Option ArgType
  | array inner => some inner
  | _ => none

/-- The name of a type, with the width of an integer and the elements of an array. -/
def name? : ArgType → Option String
  | word .unsigned w => (Text.decimal? w.bits).map fun n => "UintArgType(" ++ n ++ ")"
  | word .signed w => (Text.decimal? w.bits).map fun n => "IntArgType(" ++ n ++ ")"
  | bool => some "BoolArgType()"
  | address => some "AddressArgType()"
  | traits kind => some ("TraitWordArgType(" ++ kind.name ++ ")")
  | array inner => inner.name?.map fun n => "ArrayArgType(" ++ n ++ ")"

/-- Checks each value of a list in turn. -/
def checkEach (check : Value → Except Error Unit) : List Value → Except Error Unit
  | [] => .ok ()
  | v :: rest => do
    check v
    checkEach check rest

/-- Accepts the values of the type and fails on every other. -/
def check : ArgType → Value → Except Error Unit
  | word s w, v => do
    let _ ← checkWord s w v
    return ()
  | bool, .bool _ => .ok ()
  | bool, _ => fail .booleanRequired
  | address, .bytes data =>
    if data.length = addressSize then .ok () else fail (.addressLength data.length)
  | address, _ => fail .bytesRequired
  | traits kind, .traits t => if t.kind = kind then .ok () else fail (.traitsRequired kind)
  | traits kind, _ => fail (.traitsRequired kind)
  | array inner, .tuple items =>
    if maxElements < items.length then fail .arrayTooLong else checkEach inner.check items
  | array _, _ => fail .tupleRequired

end ArgType

end SwapCodec
