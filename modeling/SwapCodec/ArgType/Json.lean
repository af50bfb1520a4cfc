import SwapCodec.ArgType.Binary
import SwapCodec.Text.Hex

/-!
# Arguments as documents

The document form of a value is made of integers, truth values, texts, lists and dictionaries. An
address is a hexadecimal text, an array is a list and traits are a dictionary of their fields.

`ArgType.toJson` writes the form and `ArgType.ofJson` reads it. Reading is wider than writing: an
integer may also be a numeral, the marker of an address may be left out, and a field of traits
that is left out is zero.
-/

set_option autoImplicit false

namespace SwapCodec

/-- The marker and the digits of a byte string. -/
def markedHex (data : List UInt8) : String := "0x" ++ Text.hexOfBytes data

/-- The integer that a document gives as a number or as a numeral. -/
def integerOfJson : Value → Except Error Int
  | .str s =>
    match Text.readMarked s with
    | some n => .ok n
    | none => fail (.invalidInteger s)
  | .int n => .ok n
  | _ => fail (.formRequired .integer)

/-- The bytes that a document gives as hexadecimal text. -/
def addressOfJson : Value → Except Error (List UInt8)
  | .str s =>
    match Text.bytesOfHex? (Text.dropHexMarker s) with
    | some data => .ok data
    | none => fail (.invalidAddress s)
  | _ => fail (.formRequired .hexText)

/-- The traits that a document gives as a dictionary. -/
def Traits.ofJson (kind : TraitKind) : Value → Except Error Traits
  | .dict entries => do
    let word ← kind.layout.pack entries
    Traits.ofWord kind false (.int word)
  | _ => fail (.formRequired .dictionary)

/-- The fields of traits as a dictionary. -/
def Traits.toJson (t : Traits) : Value :=
  .record (t.fields.map fun f => (f.1, f.2.toValue))

/-- Turns each value of a list into another. -/
def convertEach (convert : Value → Except Error Value) : List Value → Except Error (List Value)
  | [] => .ok []
  | v :: rest => do
    let x ← convert v
    let xs ← convertEach convert rest
    return x :: xs

namespace ArgType

/-- A value that has been checked. -/
def checked (T : ArgType) (v : Value) : Except Error Value := do
  T.check v
  return v

/-- The value of the type that a document stands for. -/
def ofJson : ArgType → Value → Except Error Value
  | word s w, j => do
    let n ← integerOfJson j
    checked (word s w) (.int n)
  | bool, .bool b => .ok (.bool b)
  | bool, _ => fail (.formRequired .truthValue)
  | address, j => do
    let data ← addressOfJson j
    checked address (.bytes data)
  | traits kind, j => do
    let t ← Traits.ofJson kind j
    checked (traits kind) (.traits t)
  | array inner, .list items => do
    let values ← convertEach inner.ofJson items
    checked (array inner) (.tuple values)
  | array _, _ => fail (.formRequired .list)

/-- The document form of a value of the type. -/
def render : ArgType → Value → Value
  | address, .bytes data => .str (markedHex data)
  | traits _, .traits t => t.toJson
  | array inner, .tuple items => .list (items.map inner.render)
  | _, v => v

/-- Checks a value and gives its document form. -/
def toJson (T : ArgType) (v : Value) : Except Error Value := do
  T.check v
  return T.render v

end ArgType

end SwapCodec
