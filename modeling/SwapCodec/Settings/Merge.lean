import SwapCodec.Settings.Library

/-!
# Merging dictionaries

`mergeEntries base override` puts the entries of one dictionary over those of another. Where both
have a dictionary under a key the two are merged in turn; anywhere else the override wins. Keys
keep the place at which they first came.

A dictionary that a library gives may be among its own values. Then merging need not end, and
`Library.merge` counts down how deep merges may be within each other.
-/

set_option autoImplicit false

namespace SwapCodec

/-- The entries of a dictionary. -/
abbrev Entries : Type := List (Key × Value)

mutual

/-- The entries of `base` with those of another dictionary put over them. -/
def mergeEntries (base : Entries) : Entries → Entries
  | [] => base
  | (k, v) :: rest => mergeEntries (putEntry k (mergeOver (valueAt? k base) v) base) rest

/-- A value put over another one, if there is one. -/
def mergeOver (old : Option Value) : Value → Value
  | .dict entries =>
    match old with
    | some (.dict base) => .dict (mergeEntries base entries)
    | _ => .dict entries
  | v => v

end

namespace Library

variable (L : Library)

/-- A value put over another one, if there is one; `within` merges dictionaries in turn. -/
def mergeOver (within : L.Entries → L.Entries → Except Error L.Entries) (old : Option L.Item)
    (v : L.Item) : Except Error L.Item :=
  match old.bind L.entries?, L.entries? v with
  | some base, some own => (within base own).map L.dict
  | _, _ => .ok v

/-- Puts entries over those of `base`, one after the other. -/
def mergeEach (within : L.Entries → L.Entries → Except Error L.Entries) (base : L.Entries) :
    L.Entries → Except Error L.Entries
  | [] => .ok base
  | (k, v) :: rest => do
    let item ← L.mergeOver within (L.valueAt? k base) v
    mergeEach within (L.putEntry k item base) rest

/-- The entries of `base` with those of another dictionary put over them, if no more than `limit`
merges are within each other. -/
def merge : Nat → L.Entries → L.Entries → Except Error L.Entries
  | 0, _, _ => fail (.fault .recursion)
  | limit + 1, base, own => L.mergeEach (merge limit) base own

end Library

end SwapCodec
