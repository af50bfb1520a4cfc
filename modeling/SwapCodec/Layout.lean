/-!
# Bit layouts

A layout places named fields in a word of a fixed width. A field is a range of bits that holds a
natural number, or a single bit that holds a flag.

`BitField.bits?` says which values a field takes and with which bits. `packBits?` puts the bits of
all fields into one word, and `BitField.read` takes one field out of a word. `layoutFault?` says
what is wrong with a list of fields, if anything: names and bits may not be shared, and every
field lies inside the word.
-/

set_option autoImplicit false

namespace SwapCodec

/-- A named range of bits. -/
structure BitField where
  /-- The name of the field. -/
  name : String
  /-- The first bit. -/
  offset : Int
  /-- How many bits. -/
  width : Int
  /-- The field holds a flag. -/
  isFlag : Bool
  deriving DecidableEq, Repr

/-- A value given to a field. -/
inductive FieldValue where
  /-- An integer. -/
  | int (n : Int)
  /-- A truth value. -/
  | bool (b : Bool)
  deriving DecidableEq, Repr

/-- The integer that a value stands for, a truth value being zero or one. -/
def FieldValue.toInt : FieldValue → Int
  | .int n => n
  | .bool b => if b then 1 else 0

namespace BitField

/-- A flag at a bit. -/
def flag (name : String) (offset : Int) : BitField := ⟨name, offset, 1, true⟩

/-- A number in a range of bits. -/
def uint (name : String) (offset width : Int) : BitField := ⟨name, offset, width, false⟩

/-- The first bit as a natural number. -/
def start (f : BitField) : Nat := f.offset.toNat

/-- The count of bits as a natural number. -/
def size (f : BitField) : Nat := f.width.toNat

/-- The first bit after the field. -/
def stop (f : BitField) : Int := f.offset + f.width

/-- The word in which the bits of the field are set. -/
def mask (f : BitField) : Nat := (Nat.pow 2 f.size - 1) <<< f.start

/-- The mask of a field with a possible range. -/
def mask? (f : BitField) : Option Nat :=
  if 0 ≤ f.width && 0 ≤ f.offset then some f.mask else none

/-- The bits that stand for a value. A flag takes a truth value, zero and one; a number takes the
integers that fit. -/
def bits? (f : BitField) : FieldValue → Option Nat
  | .bool b => if f.isFlag then some b.toNat else none
  | .int n =>
    if f.isFlag then (if n = 0 ∨ n = 1 then some n.toNat else none)
    else if 0 ≤ n ∧ n.toNat < Nat.pow 2 f.size then some n.toNat
    else none

/-- The bits of a field at their place in a word. -/
def place (f : BitField) (bits : Nat) : Nat := bits <<< f.start

/-- The bits of a field of a word. -/
def extract (f : BitField) (word : Nat) : Nat := (word >>> f.start) &&& (Nat.pow 2 f.size - 1)

/-- The value of a field of a word. -/
def read (f : BitField) (word : Nat) : FieldValue :=
  if f.isFlag then .bool (f.extract word != 0) else .int (f.extract word)

end BitField

/-- What can be wrong with a field of a layout. -/
inductive LayoutFault where
  /-- An earlier field has the same name. -/
  | duplicated
  /-- The field has no bits, or starts before the word. -/
  | badRange
  /-- A flag has more than one bit. -/
  | wideFlag
  /-- The field reaches past the word. -/
  | beyondWord
  /-- An earlier field has one of the bits. -/
  | overlapping
  deriving DecidableEq, Repr

/-- What is wrong with a field, given the names and the bits of the fields before it. -/
def BitField.fault? (wordBits : Int) (names : List String) (used : Nat) (f : BitField) :
    Option LayoutFault :=
  if names.contains f.name then some .duplicated
  else if f.width ≤ 0 || f.offset < 0 then some .badRange
  else if f.isFlag && f.width != 1 then some .wideFlag
  else if wordBits < f.stop then some .beyondWord
  else if used &&& f.mask != 0 then some .overlapping
  else none

/-- The first field at fault. -/
def layoutFault? (wordBits : Int) (names : List String) (used : Nat) :
    List BitField → Option (BitField × LayoutFault)
  | [] => none
  | f :: fs =>
    match f.fault? wordBits names used with
    | some fault => some (f, fault)
    | none => layoutFault? wordBits (f.name :: names) (used ||| f.mask) fs

/-- Named fields of a word, in an order that never changes. -/
structure Layout where
  /-- The name of the layout. -/
  name : String
  /-- The fields. -/
  fields : List BitField
  /-- The width of the word. -/
  wordBits : Int := 256
  deriving DecidableEq, Repr

namespace Layout

/-- The names of the fields. -/
def names (L : Layout) : List String := L.fields.map (·.name)

/-- The field with a name. -/
def find? (L : Layout) (name : String) : Option BitField :=
  L.fields.find? (·.name == name)

/-- The word in which the bits of every field are set. -/
def usedMask (L : Layout) : Nat :=
  L.fields.foldl (fun mask f => mask ||| f.mask) 0

end Layout

/-- The word that holds one value in each field, if every field takes its value. -/
def packBits? : List BitField → List FieldValue → Option Nat
  | [], [] => some 0
  | f :: fs, v :: vs => do
    let bits ← f.bits? v
    let word ← packBits? fs vs
    return f.place bits ||| word
  | _, _ => none

end SwapCodec
