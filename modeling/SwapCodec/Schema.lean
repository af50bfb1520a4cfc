import SwapCodec.ArgType.Json

/-!
# Schemas

A schema fixes the order in which the fields of a record of arguments are written, and the type of
each. Its bytes are those of the fields, one after the other, with nothing between them. A schema
may also relate its fields to each other; the relation is looked at when every field is known to
have its type.

`Schema.encode` and `Schema.decode` go from a record to its bytes and back, and `Schema.toJson` and
`Schema.ofJson` from a record to a document and back. A schema without arrays has a fixed length
(`Schema.fixedLength?`), and shorter bytes are refused before they are read.
-/

set_option autoImplicit false

namespace SwapCodec

/-- The fields of a record, by name. -/
abbrev Fields : Type := List (String × Value)

/-- The value of a field, if the record has it. -/
def fieldOf? (name : String) (fields : Fields) : Option Value :=
  (fields.find? fun f => f.1 == name).map (·.2)

/-- A relation that holds of all records. -/
def noRelation : Fields → Except Error Unit := fun _ => .ok ()

/-- The type of a record of arguments: its name and the names of its fields. -/
structure RecordType where
  /-- The name. -/
  name : String
  /-- The names of the fields. -/
  fields : List String
  deriving DecidableEq, Repr

/-- A record type with the order and the types of its fields. -/
structure Schema where
  /-- The record type. -/
  record : RecordType
  /-- The fields in the order in which they are written. -/
  entries : List (String × ArgType)
  /-- The relation between the fields. -/
  relation : Fields → Except Error Unit := noRelation

namespace Schema

/-- The names of the fields in the order in which they are written. -/
def names (s : Schema) : List String := s.entries.map (·.1)

/-- The names are those of the record type, each of them once. -/
def covers (names fields : List String) : Bool :=
  names.isPerm fields && decide names.Nodup

/-- A schema for a record type, which must have the same fields. -/
def build (record : Option RecordType) (entries : List (String × ArgType))
    (relation : Fields → Except Error Unit) : Except Error Schema :=
  match record with
  | none => fail .recordTypeRequired
  | some r =>
    if covers (entries.map (·.1)) r.fields then .ok ⟨r, entries, relation⟩
    else fail (.schemaMismatch (entries.map (·.1)) r.name r.fields)

/-- The name of the schema. -/
def name (s : Schema) : String := "ArgsCoder(" ++ s.record.name ++ ")"

/-- How many bytes the fields take, if each always takes the same. -/
def fixedLengthOf? : List (String × ArgType) → Option Nat
  | [] => some 0
  | (_, T) :: rest => do
    let size ← T.fixedSize?
    let total ← fixedLengthOf? rest
    return size + total

/-- How many bytes every record takes, if they all take the same. -/
def fixedLength? (s : Schema) : Option Nat := fixedLengthOf? s.entries

/-- Checks the fields one by one in the order of the schema; an absent one is missing. -/
def checkFields (record : String) (fields : Fields) : List (String × ArgType) → Except Error Unit
  | [] => .ok ()
  | (name, T) :: rest =>
    match (fieldOf? name fields).getD .null with
    | .null => fail (.missingArgument record name)
    | v => do
      T.check v
      checkFields record fields rest

/-- The fields of a record of the right type. -/
def fieldsOf (s : Schema) : Value → Except Error Fields
  | .args record fields =>
    if record = s.record.name then .ok fields
    else fail (.argumentsRequired s.record.name (.args record fields))
  | v => fail (.argumentsRequired s.record.name v)

/-- Accepts a record whose fields have their types and are related as they must be, and gives the
fields. -/
def accept (s : Schema) (args : Value) : Except Error Fields := do
  let fields ← s.fieldsOf args
  checkFields s.record.name fields s.entries
  s.relation fields
  return fields

/-- Accepts a record or fails. -/
def check (s : Schema) (args : Value) : Except Error Unit := do
  let _ ← s.accept args
  return ()

/-- Writes the fields in the order of the schema, checking each before it is written. -/
def emitFields (fields : Fields) : List (String × ArgType) → Encoder Unit
  | [] => pure ()
  | (name, T) :: rest => do
    T.serialize ((fieldOf? name fields).getD .null)
    emitFields fields rest

/-- Checks a record and then writes it. -/
def serialize (s : Schema) (args : Value) : Encoder Unit := do
  let fields ← Encoder.lift (s.accept args)
  emitFields fields s.entries

/-- Reads the fields in the order of the schema. -/
def readFields : List (String × ArgType) → Decoder Fields
  | [] => pure []
  | (name, T) :: rest => do
    let v ← T.deserialize
    let more ← readFields rest
    pure ((name, v) :: more)

/-- The given fields in the order of the record type; an absent one is null. -/
def recordFields (s : Schema) (fields : Fields) : Fields :=
  s.record.fields.map fun name => (name, (fieldOf? name fields).getD .null)

/-- The record with the given fields. -/
def recordOf (s : Schema) (fields : Fields) : Value :=
  .args s.record.name (s.recordFields fields)

/-- Reads a record; the relation is looked at when the record is complete. -/
def deserialize (s : Schema) : Decoder Value := do
  let fields ← readFields s.entries
  Decoder.lift (s.relation (s.recordFields fields))
  pure (s.recordOf fields)

/-- The bytes of a record. -/
def encode (s : Schema) (args : Value) : Except Error (List UInt8) :=
  match (s.serialize args).toBytes with
  | .ok data => .ok data
  | .error e =>
    if e.kind.isStreamKind then fail (.unencodableArguments s.record.name e) else .error e

/-- There are fewer bytes than the fixed length of the schema. -/
def isShort (s : Schema) (data : List UInt8) : Bool :=
  match s.fixedLength? with
  | some n => data.length < n
  | none => false

/-- The record that a byte string holds. -/
def decode (s : Schema) (data : List UInt8) : Except Error Value :=
  if s.isShort data then fail (.shortPayload s.record.name)
  else match s.deserialize.run data with
    | .ok args => .ok args
    | .error e =>
      if e.kind = .decode then .error e
      else if e.kind.isStreamKind || e.kind.isProgramKind then
        fail (.undecodableArguments s.record.name e)
      else .error e

/-- The document form of the fields, in the order of the schema. -/
def renderFields (fields : Fields) (entries : List (String × ArgType)) : List (String × Value) :=
  entries.map fun entry => (entry.1, entry.2.render ((fieldOf? entry.1 fields).getD .null))

/-- The document form of a record. -/
def toJson (s : Schema) (args : Value) : Except Error Value := do
  let fields ← s.accept args
  return .record (renderFields fields s.entries)

/-- The texts among the keys of a dictionary that name no field. -/
def unknownNames (s : Schema) (entries : List (Key × Value)) : List String :=
  entries.filterMap fun e => match e.1 with
    | .str name => if s.names.contains name then none else some name
    | _ => none

/-- A key that is not a text. -/
def isOddKey : Key → Bool
  | .str _ => false
  | _ => true

/-- The values of the fields that a dictionary gives, in the order of the schema. -/
def readDocument (record : String) (given : List (Key × Value)) :
    List (String × ArgType) → Except Error Fields
  | [] => .ok []
  | (name, T) :: rest =>
    match valueAt? (.str name) given with
    | none => fail (.missingArgument record name)
    | some j => do
      let v ← T.ofJson j
      let more ← readDocument record given rest
      return (name, v) :: more

/-- The record that a document stands for. -/
def ofJson (s : Schema) : Value → Except Error Value
  | .dict given =>
    if given.any fun e => isOddKey e.1 then fail (.fault .type)
    else if s.unknownNames given ≠ [] then
      fail (.unknownArguments s.record.name ((s.unknownNames given).mergeSort (· ≤ ·)))
    else do
      let fields ← readDocument s.record.name given s.entries
      let args := s.recordOf fields
      s.check args
      return args
  | _ => fail (.formRequired .object)

end Schema

end SwapCodec
