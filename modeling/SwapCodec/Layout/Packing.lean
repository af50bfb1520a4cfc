import SwapCodec.Word.Checked

/-!
# Packing and unpacking words

`Layout.build` accepts a list of fields, `Layout.pack` puts the values of a dictionary into a word
and `Layout.unpack` takes every field out of one. A missing field is zero. An unknown name is
reported before any value is looked at, and otherwise the first field in layout order whose value
does not fit is reported. `Layout.unpackStrict` also refuses a word with a bit that belongs to no
field.
-/

set_option autoImplicit false

namespace SwapCodec

namespace Layout

/-- The layout with the given fields, if they fit together. -/
def build (name : String) (fields : List BitField) (wordBits : Int) : Except Error Layout :=
  match layoutFault? wordBits [] 0 fields with
  | some (f, flaw) => fail (.badLayout name f wordBits flaw)
  | none => .ok ⟨name, fields, wordBits⟩

/-- The value that a field takes. -/
def fieldValue (L : Layout) (f : BitField) (v : Value) : Except Error FieldValue :=
  match v.asField? with
  | none =>
    if f.isFlag then fail (.flagRequired L.name f.name v)
    else fail (.fieldIntegerRequired L.name f.name v)
  | some x =>
    if (f.bits? x).isSome then .ok x
    else if f.isFlag then fail (.flagRequired L.name f.name v)
    else match x with
      | .bool _ => fail (.fieldIntegerRequired L.name f.name v)
      | .int n => fail (.fieldOverflow L.name f.name n f.width)

/-- The value of a field in a dictionary, zero if it is missing. -/
def givenValue (entries : List (Key × Value)) (f : BitField) : Value :=
  (valueAt? (.str f.name) entries).getD (.int 0)

/-- The values of the given fields, in layout order. -/
def fieldValues (L : Layout) (entries : List (Key × Value)) :
    List BitField → Except Error (List FieldValue)
  | [] => .ok []
  | f :: fs => do
    let v ← L.fieldValue f (givenValue entries f)
    let vs ← L.fieldValues entries fs
    return v :: vs

/-- A key that names a field. -/
def knows (L : Layout) : Key → Bool
  | .str name => (L.find? name).isSome
  | _ => false

/-- The word that holds the values of a dictionary. -/
def pack (L : Layout) (entries : List (Key × Value)) : Except Error Nat :=
  match entries.find? fun e => !L.knows e.1 with
  | some e => fail (.unknownField L.name e.1.toValue)
  | none => do
    let vs ← L.fieldValues entries L.fields
    match packBits? L.fields vs with
    | some word => .ok word
    | none => fail (.fault .value)

/-- A value that is a word of the layout. -/
def checkWord (L : Layout) : Value → Except Error Nat
  | .int n =>
    if n < 0 then fail (.wordOverflow L.name L.wordBits)
    else if L.wordBits < 0 then fail (.fault .value)
    else if Nat.pow 2 L.wordBits.toNat ≤ n.toNat then fail (.wordOverflow L.name L.wordBits)
    else .ok n.toNat
  | v => fail (.wordRequired L.name v)

/-- The fields of a word with their values. -/
def readFields (L : Layout) (word : Nat) : List (String × FieldValue) :=
  L.fields.map fun f => (f.name, f.read word)

/-- The bits of a word that belong to no field. -/
def stray (L : Layout) (word : Nat) : Nat := word ^^^ (word &&& L.usedMask)

/-- The fields of a word; bits that belong to no field are passed over. -/
def unpack (L : Layout) (v : Value) : Except Error (List (String × FieldValue)) := do
  let word ← L.checkWord v
  return L.readFields word

/-- The fields of a word in which every bit belongs to a field. -/
def unpackStrict (L : Layout) (v : Value) : Except Error (List (String × FieldValue)) := do
  let word ← L.checkWord v
  if L.stray word = 0 then return L.readFields word
  else fail (.strayBits L.name (L.stray word))

/-- The fields of a word, strictly or not. -/
def unpackAs (L : Layout) (strict : Bool) (v : Value) :
    Except Error (List (String × FieldValue)) :=
  if strict then L.unpackStrict v else L.unpack v

end Layout

end SwapCodec
