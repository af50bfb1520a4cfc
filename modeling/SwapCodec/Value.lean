import SwapCodec.Binary64
import SwapCodec.Opcode
import SwapCodec.Traits

/-!
# Values

What an instruction argument, a document or a setting can hold before it is checked. A value may
be of any kind; the checks of this library decide which kinds they take.

A dictionary keeps its entries in the order in which their keys first came (`putEntry`). Its keys
are scalars, and two keys are the same if they are equal as numbers or as text (`Key.same`).
-/

set_option autoImplicit false

namespace SwapCodec

/-- A key of a dictionary. -/
inductive Key where
  /-- The null key. -/
  | null
  /-- A truth value. -/
  | bool (b : Bool)
  /-- An integer. -/
  | int (n : Int)
  /-- A double. -/
  | float (x : Binary64)
  /-- A text. -/
  | str (s : String)
  deriving DecidableEq, Repr

/-- A value of any kind. -/
inductive Value where
  /-- The absent value. -/
  | null
  /-- A truth value. -/
  | bool (b : Bool)
  /-- An integer. -/
  | int (n : Int)
  /-- A double. -/
  | float (x : Binary64)
  /-- A text. -/
  | str (s : String)
  /-- Bytes. -/
  | bytes (data : List UInt8)
  /-- A list. -/
  | list (items : List Value)
  /-- A tuple. -/
  | tuple (items : List Value)
  /-- A dictionary. -/
  | dict (entries : List (Key × Value))
  /-- Order traits. -/
  | traits (t : Traits)
  /-- The arguments of an instruction: the name of their record type and their fields. -/
  | args (record : String) (fields : List (String × Value))
  /-- The identity of an instruction. -/
  | opcode (o : Opcode)

instance : Inhabited Value := ⟨.null⟩

namespace Key

/-- The key as a value. -/
def toValue : Key → Value
  | null => .null
  | bool b => .bool b
  | int n => .int n
  | float x => .float x
  | str s => .str s

/-- The integer that a key is equal to, if there is one. -/
def asInt? : Key → Option Int
  | bool b => some (if b then 1 else 0)
  | int n => some n
  | float x => match x.truncated? with
    | some (n, true) => some n
    | _ => none
  | _ => none

/-- Whether two keys name the same entry: keys that are equal as integers do. -/
def same (a b : Key) : Bool :=
  match a.asInt?, b.asInt? with
  | some m, some n => m == n
  | none, none => a == b && a != .float .nan
  | _, _ => false

end Key

/-- The value of a key. -/
def valueAt? (key : Key) (entries : List (Key × Value)) : Option Value :=
  (entries.find? fun e => e.1.same key).map (·.2)

/-- Replaces the value of a key in place, or adds the entry at the end. -/
def putEntry (key : Key) (v : Value) : List (Key × Value) → List (Key × Value)
  | [] => [(key, v)]
  | e :: rest => if e.1.same key then (e.1, v) :: rest else e :: putEntry key v rest

namespace FieldValue

/-- The field value as a value. -/
def toValue : FieldValue → Value
  | .int n => .int n
  | .bool b => .bool b

end FieldValue

namespace Value

/-- A dictionary whose keys are texts. -/
def record (entries : List (String × Value)) : Value :=
  .dict (entries.map fun e => (.str e.1, e.2))

/-- A value as an integer, a truth value being zero or one. -/
def asInt? : Value → Option Int
  | int n => some n
  | bool b => some (if b then 1 else 0)
  | _ => none

/-- The field value that a value is, if it is an integer or a truth value. -/
def asField? : Value → Option FieldValue
  | int n => some (.int n)
  | bool b => some (.bool b)
  | _ => none

/-- The name of the kind of a value. -/
def kindName : Value → String
  | null => "NoneType"
  | bool _ => "bool"
  | int _ => "int"
  | float _ => "float"
  | str _ => "str"
  | bytes _ => "bytes"
  | list _ => "list"
  | tuple _ => "tuple"
  | dict _ => "dict"
  | traits t => t.kind.name
  | args record _ => record
  | opcode _ => "OpcodeId"

/-- The absent value, zero, false and every empty text or container are false, and every other
value is true. -/
def isTruthy : Value → Bool
  | null => false
  | bool b => b
  | int n => n != 0
  | float x => !x.isZero
  | str s => !s.isEmpty
  | bytes data => !data.isEmpty
  | list items => !items.isEmpty
  | tuple items => !items.isEmpty
  | dict entries => !entries.isEmpty
  | traits _ => true
  | args _ _ => true
  | opcode _ => true

mutual

/-- Whether a value can be a key of a table: no list and no dictionary is in it. -/
def isHashable : Value → Bool
  | list _ => false
  | dict _ => false
  | tuple items => allHashable items
  | args _ fields => fieldsHashable fields
  | _ => true

/-- Whether every value of a list can be a key. -/
def allHashable : List Value → Bool
  | [] => true
  | v :: rest => isHashable v && allHashable rest

/-- Whether every field of a record can be a key. -/
def fieldsHashable : List (String × Value) → Bool
  | [] => true
  | (_, v) :: rest => isHashable v && fieldsHashable rest

end

mutual

/-- The value with the traits and argument records in it turned into dictionaries. -/
def flattened : Value → Value
  | list items => .list (flattenedAll items)
  | tuple items => .tuple (flattenedAll items)
  | dict entries => .dict (flattenedEntries entries)
  | traits t => .record (t.fields.map fun f => (f.1, f.2.toValue))
  | args _ fields => .dict (flattenedFields fields)
  | v => v

/-- Each value of a list, flattened. -/
def flattenedAll : List Value → List Value
  | [] => []
  | v :: rest => flattened v :: flattenedAll rest

/-- Each entry of a dictionary, flattened. -/
def flattenedEntries : List (Key × Value) → List (Key × Value)
  | [] => []
  | (k, v) :: rest => (k, flattened v) :: flattenedEntries rest

/-- Each field of a record as an entry, flattened. -/
def flattenedFields : List (String × Value) → List (Key × Value)
  | [] => []
  | (k, v) :: rest => (.str k, flattened v) :: flattenedFields rest

end

end Value

end SwapCodec
