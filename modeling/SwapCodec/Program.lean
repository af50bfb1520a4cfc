import SwapCodec.Json.Printer
import SwapCodec.Registry

/-!
# Programs

A program is the frames of its instructions, one after the other. The offset at which a frame
starts is its `pc`, and that is what a jump names.

A `Builder` holds the bytes and the instructions added so far. Adding an instruction encodes it at
once (`Builder.place`), and nothing is changed before that is done. `Registry.decodeProgram` reads
a program back and reports a malformed instruction with its offset. `Registry.listing` prints one
line for each instruction, with its offset, its name and its arguments as a document.
-/

set_option autoImplicit false

namespace SwapCodec

/-- A program under construction. -/
structure Builder where
  /-- The registry that encodes the instructions. -/
  registry : Registry
  /-- The bytes so far. -/
  writer : Writer := {}
  /-- The instructions so far. -/
  instructions : Array Instruction := #[]

namespace Builder

/-- The offset of the next instruction. -/
def pc (b : Builder) : Nat := b.writer.position

/-- A step that may change a builder or fail. -/
abbrev Update (α : Type) : Type := ExceptT Error (StateM Builder) α

/-- Goes on with a result, or fails without changing anything. -/
def lift {α : Type} (r : Except Error α) : Update α := fun b => (r, b)

/-- Encodes an instruction and puts it at the end: first its bytes, and then itself. -/
def place (identity args : Value) : Update Unit := do
  let R := (← get).registry
  let data ← lift (R.encode identity args)
  match identity with
  | .opcode o =>
    modify fun b => { b with writer := b.writer.append data }
    modify fun b => { b with instructions := b.instructions.push ⟨o, args⟩ }
  | v => lift (fail (.notRegistered R.name v))

/-- Puts instructions at the end, one after the other. -/
def placeAll : List (Value × Value) → Update Unit
  | [] => pure ()
  | (identity, args) :: rest => do
    place identity args
    placeAll rest

/-- The builder with one more instruction. -/
def add (b : Builder) (identity args : Value) : Except Error Builder :=
  match place identity args b with
  | (.ok (), next) => .ok next
  | (.error e, _) => .error e

/-- Adds instructions up to the first that is refused, and the reason if there is one. -/
def extend (b : Builder) (items : List (Value × Value)) : Builder × Except Error Unit :=
  match placeAll items b with
  | (outcome, next) => (next, outcome)

/-- The bytes of the program, of which there may be at most `limit`. -/
def build (b : Builder) (limit : Int) : Except Error (List UInt8) :=
  if limit < b.pc then fail (.overlongBuild b.pc limit) else .ok b.writer.toList

end Builder

/-- An instruction as an identity and its arguments. -/
def Instruction.toPair (i : Instruction) : Value × Value := (.opcode i.opcode, i.args)

/-- Gives the offset of a malformed instruction with the reason. -/
def locate {α : Type} (pc : Nat) : Except Error α → Except Error α
  | .ok x => .ok x
  | .error e => if e.kind = .decode then fail (.atOffset pc e) else .error e

namespace Registry

/-- The instructions from the offset `pc` on, behind the ones in `done`. -/
def decodeFrom (R : Registry) (pc : Nat) (done : Array Instruction) :
    List UInt8 → Except Error (List Instruction)
  | [] => .ok done.toList
  | [_] => locate pc (fail .shortHeader)
  | discriminator :: length :: rest =>
    match locate pc (R.payload discriminator length rest) with
    | .error e => .error e
    | .ok i =>
      R.decodeFrom (pc + headerSize + length.toNat) (done.push i) (rest.drop length.toNat)
  termination_by data => data.length
  decreasing_by simp only [List.length_drop, List.length_cons]; omega

/-- The instructions of a program of at most `limit` bytes. -/
def decodeProgram (R : Registry) (data : List UInt8) (limit : Int) :
    Except Error (List Instruction) :=
  if limit < data.length then fail (.overlongProgram data.length limit)
  else R.decodeFrom 0 #[] data

/-- One line of a listing. -/
def listingLine (pc : Nat) (o : Opcode) (args : String) : String :=
  Text.padLeft ' ' 5 (Text.decimalNat pc) ++ " " ++ o.dotted ++ " " ++ args

/-- The lines of a listing from the offset `pc` on. -/
def listingFrom (R : Registry) (pc : Nat) (done : Array String) :
    List (Value × Value) → Except Error (List String)
  | [] => .ok done.toList
  | (identity, args) :: rest => do
    let schema ← R.resolve identity
    let document ← schema.toJson args
    let text ← Json.compact document
    let payload ← schema.encode args
    match identity with
    | .opcode o =>
      R.listingFrom (pc + headerSize + payload.length) (done.push (listingLine pc o text)) rest
    | _ => fail (.notRegistered R.name identity)

/-- One line for each instruction: its offset, its name and its arguments. -/
def listing (R : Registry) (items : List (Value × Value)) : Except Error String := do
  let lines ← R.listingFrom 0 #[] items
  return joined "\n" lines

end Registry

end SwapCodec
