import SwapCodec.Layout

/-!
# Order traits

The traits of an order are the values of the fields of a published layout, one layout for the
maker of the order and one for the taker. A `Traits` holds only values that the layout takes, so
its word (`Traits.word`) always exists.
-/

set_option autoImplicit false

namespace SwapCodec

/-- Whose traits they are. -/
inductive TraitKind where
  /-- The maker of the order. -/
  | maker
  /-- The taker of the order. -/
  | taker
  deriving DecidableEq, Repr

/-- The layout of the maker's word: who may fill the order, until when, and how. -/
def makerLayout : Layout where
  name := "MakerTraits"
  fields := [
    .uint "allowed_sender" 0 80,
    .uint "expiration" 80 40,
    .uint "nonce_or_epoch" 120 40,
    .uint "series" 160 40,
    .flag "unwrap_weth" 247,
    .flag "use_permit2" 248,
    .flag "has_extension" 249,
    .flag "need_epoch_check" 250,
    .flag "post_interaction" 251,
    .flag "pre_interaction" 252,
    .flag "allow_multiple_fills" 254,
    .flag "no_partial_fills" 255]

/-- The layout of the taker's word: the worst amount that is accepted, and the fill options. -/
def takerLayout : Layout where
  name := "TakerTraits"
  fields := [
    .uint "threshold" 0 185,
    .uint "args_interaction_length" 200 24,
    .uint "args_extension_length" 224 24,
    .flag "args_has_target" 251,
    .flag "use_permit2" 252,
    .flag "skip_order_permit" 253,
    .flag "unwrap_weth" 254,
    .flag "is_making_amount" 255]

namespace TraitKind

/-- The published layout. -/
def layout : TraitKind → Layout
  | .maker => makerLayout
  | .taker => takerLayout

/-- The name of the layout, which is also the name of the traits. -/
def name (k : TraitKind) : String := k.layout.name

end TraitKind

/-- The value that a field has unless it is given: zero, or false for a flag. -/
def BitField.initial (f : BitField) : FieldValue :=
  if f.isFlag then .bool false else .int 0

/-- Values of all fields of a published layout, in layout order. -/
structure Traits where
  /-- Whose traits they are. -/
  kind : TraitKind
  /-- The values. -/
  values : List FieldValue
  /-- The layout takes the values. -/
  packs : (packBits? kind.layout.fields values).isSome = true
  deriving DecidableEq

namespace Traits

/-- The word of the traits. -/
def word (t : Traits) : Nat :=
  (packBits? t.kind.layout.fields t.values).get t.packs

/-- The values with the names of their fields. -/
def fields (t : Traits) : List (String × FieldValue) :=
  t.kind.layout.names.zip t.values

/-- Traits with the given values, if the layout takes them. -/
def ofValues? (kind : TraitKind) (values : List FieldValue) : Option Traits :=
  if h : (packBits? kind.layout.fields values).isSome = true then some ⟨kind, values, h⟩ else none

/-- The value of a field as an integer, zero for an unknown name. -/
def intField (t : Traits) (name : String) : Int :=
  ((t.fields.find? (·.1 == name)).map (·.2.toInt)).getD 0

/-- Two traits of one kind agree if their values stand for the same integers. -/
def agrees (t u : Traits) : Bool :=
  t.kind == u.kind && t.values.map FieldValue.toInt == u.values.map FieldValue.toInt

end Traits

end SwapCodec
