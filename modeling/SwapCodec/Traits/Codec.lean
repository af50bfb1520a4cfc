import SwapCodec.Layout.Packing

/-!
# Making and reading order traits

Traits are made from named values, from a word or from the 32 bytes of a word, and go back to both
(`Traits.word`, `Traits.toBytes`). The maker's traits also say when an order has expired and which
sender may fill it: an expiration of zero never comes, and an allowed sender of zero is everyone.
-/

set_option autoImplicit false

namespace SwapCodec

/-- The width of a word of traits. -/
def traitsWidth : Width := .full

namespace Traits

/-- Traits whose values have been taken one by one. -/
def ofTaken (kind : TraitKind) (values : List FieldValue) : Except Error Traits :=
  match ofValues? kind values with
  | some t => .ok t
  | none => fail (.fault .value)

/-- The given fields with the initial value of every other one. -/
def completed (kind : TraitKind) (given : List (String × Value)) : List (Key × Value) :=
  kind.layout.fields.map fun f =>
    (.str f.name, match given.find? (·.1 == f.name) with
      | some e => e.2.flattened
      | none => f.initial.toValue)

/-- Traits from named values; the other fields have their initial values. -/
def ofFields (kind : TraitKind) (given : List (String × Value)) : Except Error Traits := do
  if given.any fun e => (kind.layout.find? e.1).isNone then fail (.fault .type)
  let values ← kind.layout.fieldValues (completed kind given) kind.layout.fields
  ofTaken kind values

/-- The traits of a plain order: a maker's order can be filled several times. -/
def plain (kind : TraitKind) : Except Error Traits :=
  match kind with
  | .maker => ofFields .maker [("allow_multiple_fills", .bool true)]
  | .taker => ofFields .taker []

/-- The traits that a word holds. -/
def ofWord (kind : TraitKind) (strict : Bool) (v : Value) : Except Error Traits := do
  let fields ← kind.layout.unpackAs strict v
  ofTaken kind (fields.map (·.2))

/-- The traits that the bytes of a word hold. -/
def ofBytes (kind : TraitKind) (data : List UInt8) : Except Error Traits := do
  let n ← decodeWord .unsigned traitsWidth data
  ofWord kind false (.int n)

/-- The bytes of the word. -/
def toBytes (t : Traits) : Except Error (List UInt8) :=
  encodeWord .unsigned traitsWidth (.int t.word)

/-- Whether the word, read again, gives traits that agree with these. -/
def survives (t : Traits) (strict : Bool) : Except Error Bool := do
  let u ← ofWord t.kind strict (.int t.word)
  return u.agrees t

/-- The order may be filled in parts. -/
def allowsPartialFills (t : Traits) : Bool :=
  t.intField "no_partial_fills" == 0

/-- The expiration is set and lies before `now`. -/
def isExpired (t : Traits) (now : Value) : Except Error Bool :=
  let expiration := t.intField "expiration"
  if expiration = 0 then .ok false
  else match now with
    | .int n => .ok (expiration < n)
    | .bool b => .ok (expiration < if b then 1 else 0)
    | .float x => .ok (x.compareInt? expiration == some .gt)
    | _ => fail (.fault .type)

/-- The low eighty bits of an address. -/
def senderBits (address : List UInt8) : Nat :=
  ofBigEndian (address.drop 10)

/-- Whether a sender may fill the order. -/
def isAllowedSender (t : Traits) (sender : List UInt8) : Except Error Bool :=
  if sender.length ≠ 20 then fail .senderLength
  else
    let allowed := t.intField "allowed_sender"
    .ok (allowed == 0 || (senderBits sender : Int) == allowed)

/-- The field value that allows one address alone. -/
def allowedSenderOf (address : List UInt8) : Except Error Nat :=
  if address.length ≠ 20 then fail .senderAddressLength
  else .ok (senderBits address)

end Traits

end SwapCodec
