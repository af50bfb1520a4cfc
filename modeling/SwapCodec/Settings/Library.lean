import SwapCodec.Settings

/-!
# Libraries

The files of settings are read with code from elsewhere: one part turns the text of a file into a
value, and another makes settings of named values. `Library` holds what is used of both, and the
law that is relied on.

The values are those of the library. They may be of kinds that this development does not know, and a
dictionary may be among its own values, for a text can name a value that is still being read. All
that is relied on is that the values of a text are finitely many (`Library.finite`).
-/

set_option autoImplicit false

namespace SwapCodec

/-- A value and what is in it, however deep, are among finitely many values. -/
def HoldsFinitely {Key Item : Type} (entries? : Item → Option (List (Key × Item))) (v : Item) :
    Prop :=
  ∃ items : List Item, v ∈ items ∧
    ∀ u ∈ items, ∀ entries, entries? u = some entries → ∀ e ∈ entries, e.2 ∈ items

/-- The libraries with which settings are read. -/
structure Library where
  /-- The keys of dictionaries. -/
  Key : Type
  /-- The values that a text can hold. -/
  Item : Type
  /-- Two keys name the same entry. -/
  same : Key → Key → Bool
  /-- The key that is a text. -/
  keyOf : String → Key
  /-- The value of a text. -/
  read : String → Except Error Item
  /-- The value is the absent one. -/
  isNull : Item → Bool
  /-- The value counts as true. -/
  isTruthy : Item → Bool
  /-- The value as running text. -/
  text : Item → Except Error String
  /-- The entries of a value that is a dictionary. -/
  entries? : Item → Option (List (Key × Item))
  /-- The dictionary with the given entries. -/
  dict : List (Key × Item) → Item
  /-- The settings that named values describe. -/
  validate : List (Key × Item) → Except Error Settings
  /-- The values of a text are finitely many. -/
  finite : ∀ {s : String} {v : Item}, read s = .ok v → HoldsFinitely entries? v

namespace Library

variable (L : Library)

/-- The entries of a dictionary. -/
abbrev Entries : Type := List (L.Key × L.Item)

/-- The entries that a text gives with its value, which must be a dictionary or nothing. -/
def document? (v : L.Item) : Option L.Entries :=
  if L.isNull v then some [] else L.entries? v

/-- The value of a key. -/
def valueAt? (key : L.Key) (entries : L.Entries) : Option L.Item :=
  (entries.find? fun e => L.same e.1 key).map (·.2)

/-- Replaces the value of a key in place, or adds the entry at the end. -/
def putEntry (key : L.Key) (v : L.Item) : L.Entries → L.Entries
  | [] => [(key, v)]
  | e :: rest => if L.same e.1 key then (e.1, v) :: rest else e :: putEntry key v rest

/-- The entries without the one of a key. -/
def dropEntry (key : L.Key) (entries : L.Entries) : L.Entries :=
  entries.filter fun e => !L.same e.1 key

end Library

end SwapCodec
