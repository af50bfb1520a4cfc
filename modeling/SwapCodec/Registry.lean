import SwapCodec.Instruction

/-!
# Registries

A registry gives each opcode its discriminator, the byte that selects it, and the schema of its
arguments. Discriminators count registrations: the table of a registry is a list, an opcode's place
in it is its discriminator, and a registration adds one entry at the end. A second table leads from
an opcode back to its discriminator. A frozen registry stays as it is.

An instruction is framed as its discriminator, the length of its payload and the payload
(`Registry.serialize`, and `Registry.encode` for its bytes alone). The payload is complete before
the frame is begun. `Registry.decode` takes a byte string with exactly one instruction in it, and
`Registry.payload` is the step that reads what follows the two bytes of the frame.

The identity of an opcode may be given as any value, and a value that is no opcode is refused.
-/

set_option autoImplicit false

namespace SwapCodec

/-- A registry of opcodes. -/
structure Registry where
  /-- The name of the registry. -/
  name : String
  /-- The opcodes with their schemas, in the order of their registration. -/
  table : List (Opcode × Schema) := []
  /-- The opcodes with their discriminators. -/
  discriminators : List (Opcode × Nat) := []
  /-- No opcode can be registered any more. -/
  frozen : Bool := false

/-- How many opcodes a registry holds at most. -/
def maxOpcodes : Nat := 256

/-- The width of a discriminator. -/
def discriminatorWidth : Width := { bits := 8 }

/-- The width of the length of a payload. -/
def lengthWidth : Width := { bits := 8 }

/-- How many bytes a payload has at most. -/
def maxPayload : Nat := 255

/-- How many bytes stand in front of a payload. -/
def headerSize : Nat := 2

namespace Registry

/-- How many opcodes are registered. -/
def size (R : Registry) : Nat := R.table.length

/-- The opcodes, in the order of their registration. -/
def opcodes (R : Registry) : List Opcode := R.table.map (·.1)

/-- The discriminator of an opcode. -/
def indexOf? (R : Registry) (o : Opcode) : Option Nat :=
  R.discriminators.lookup o

/-- A step that may change a registry or fail. -/
abbrev Update (α : Type) : Type := ExceptT Error (StateM Registry) α

/-- Fails without changing anything. -/
def refuse {α : Type} (e : Error) : Update α := fun R => (.error e.settled, R)

/-- Enters an opcode into both tables and gives its discriminator. -/
def enrol (identity : Value) (schema : Schema) : Update Nat := do
  match identity with
  | .opcode o =>
    let R ← get
    if R.frozen then refuse (.registryClosed R.name o)
    else if (R.indexOf? o).isSome then refuse (.alreadyRegistered R.name o)
    else if maxOpcodes ≤ R.size then refuse (.registryFull R.name)
    else
      modify fun S => { S with table := S.table ++ [(o, schema)] }
      modify fun S => { S with discriminators := S.discriminators ++ [(o, R.size)] }
      return R.size
  | v => refuse (.opcodeRequired v)

/-- Registers an opcode and gives its discriminator and the registry behind it. -/
def register (R : Registry) (identity : Value) (schema : Schema) :
    Except Error (Nat × Registry) :=
  match enrol identity schema R with
  | (.ok index, next) => .ok (index, next)
  | (.error e, _) => .error e

/-- The registry, closed to registrations. -/
def freeze (R : Registry) : Registry := { R with frozen := true }

/-- The discriminator of an identity. -/
def discriminatorOf (R : Registry) (identity : Value) : Except Error Nat :=
  match identity with
  | .opcode o =>
    match R.indexOf? o with
    | some i => .ok i
    | none => fail (.notRegistered R.name identity)
  | v => fail (.notRegistered R.name v)

/-- The entry with a discriminator. -/
def entryAt (R : Registry) (discriminator : Nat) : Except Error (Opcode × Schema) :=
  match R.table[discriminator]? with
  | some entry => .ok entry
  | none => fail (.unassignedDiscriminator R.name (.int discriminator))

/-- The entry with a discriminator that is given as any value. -/
def lookUp (R : Registry) (discriminator : Value) : Except Error (Opcode × Schema) :=
  match discriminator with
  | .float x =>
    if x.compareInt? 0 matches some .gt | some .eq then
      if x.compareInt? R.size == some .lt then fail (.fault .type)
      else fail (.unassignedDiscriminator R.name discriminator)
    else fail (.unassignedDiscriminator R.name discriminator)
  | v =>
    match v.asInt? with
    | none => fail (.fault .type)
    | some n =>
      match (if 0 ≤ n then R.table[n.toNat]? else none) with
      | some entry => .ok entry
      | none => fail (.unassignedDiscriminator R.name v)

/-- The schema of an identity. -/
def resolve (R : Registry) (identity : Value) : Except Error Schema := do
  let i ← R.discriminatorOf identity
  let entry ← R.entryAt i
  return entry.2

/-- Whether an identity is registered. -/
def contains (R : Registry) (identity : Value) : Except Error Bool :=
  match identity with
  | .opcode o => .ok (R.indexOf? o).isSome
  | v => if v.isHashable then .ok false else fail (.fault .type)

/-- Writes a payload behind its discriminator and its length. -/
def writeFrame (o : Opcode) (discriminator : Nat) (payload : List UInt8) : Encoder Unit :=
  if maxPayload < payload.length then Encoder.reject (.payloadTooLong o payload.length)
  else do
    Encoder.word .unsigned discriminatorWidth (.int discriminator)
    Encoder.word .unsigned lengthWidth (.int payload.length)
    Encoder.write payload

/-- Writes an instruction of a known opcode. -/
def serializeAs (R : Registry) (o : Opcode) (args : Value) : Encoder Unit := do
  let i ← Encoder.lift (R.discriminatorOf (.opcode o))
  let entry ← Encoder.lift (R.entryAt i)
  let payload ← Encoder.lift (entry.2.encode args)
  writeFrame o i payload

/-- Writes an instruction. -/
def serialize (R : Registry) (identity : Value) (args : Value) : Encoder Unit :=
  match identity with
  | .opcode o => R.serializeAs o args
  | v => Encoder.reject (.notRegistered R.name v)

/-- The bytes of an instruction. -/
def encode (R : Registry) (identity : Value) (args : Value) : Except Error (List UInt8) :=
  (R.serialize identity args).toBytes

/-- The record that a document gives as the arguments of an identity. -/
def argsOfJson (R : Registry) (identity : Value) (j : Value) : Except Error Value := do
  let schema ← R.resolve identity
  schema.ofJson j

/-- The instruction whose frame opens with `discriminator` and `length`, read from the bytes that
follow; the bytes after its payload are not looked at. -/
def payload (R : Registry) (discriminator length : UInt8) (rest : List UInt8) :
    Except Error Instruction := do
  let entry ← R.entryAt discriminator.toNat
  let data := rest.take length.toNat
  if data.length < length.toNat then fail (.cutPayload entry.1 length.toNat rest.length)
  let args ← entry.2.decode data
  return ⟨entry.1, args⟩

/-- The instruction that a byte string holds. -/
def decode (R : Registry) : List UInt8 → Except Error Instruction
  | discriminator :: length :: rest => do
    let i ← R.payload discriminator length rest
    let extra := rest.drop length.toNat
    if extra ≠ [] then fail (.trailingBytes i.opcode extra.length)
    return i
  | _ => fail .shortHeader

/-- The name of a registry, the number of its opcodes and whether it is frozen. -/
def summary (R : Registry) : String :=
  "OpcodeRegistry(" ++ Text.quoted R.name ++ ", opcodes=" ++ Text.decimalNat R.size ++ ", frozen="
    ++ boolText R.frozen ++ ")"

/-- The frozen registry of a published table. -/
def ofSet (set : OpcodeSet) : Registry where
  name := set.name
  table := set.opcodes.map fun o => (o, o.schema)
  discriminators := set.opcodes.zipIdx
  frozen := true

/-- The frozen registry of the table with a name. -/
def ofName (name : Value) : Except Error Registry :=
  match name with
  | .str s =>
    match OpcodeSet.ofName? s with
    | some set => .ok (ofSet set)
    | none => fail (.unknownOpcodeSet name)
  | v => fail (.unknownOpcodeSet v)

end Registry

end SwapCodec
