import SwapCodec.Proofs.Program.Wire

/-!
# Runs of a builder

A builder starts empty and changes by additions (`Builder.call`). An instruction
is refused and changes nothing, or is entered together with its bytes
(`Builder.place_cases`), and a sequence of instructions is added up to the first
that is refused. What every operation preserves is that the bytes of the
builder are the encodings of its instructions, one after the other
(`Builder.Holds`). So in a well-formed registry its bytes are the wire form of a
program that is equal to its instructions (`Builder.Holds.exists_programWire`).

A program in the wire form is added to a builder as it is
(`Registry.ProgramWire.extend_eq`).
-/

set_option autoImplicit false

namespace SwapCodec

namespace Builder

/-- An operation that may change a builder. -/
inductive Call where
  /-- Adding one instruction, given as any values. -/
  | add (identity args : Value)
  /-- Adding instructions up to the first that is refused. -/
  | extend (items : List (Value × Value))

/-- The builder after an operation, whether or not it failed. -/
def call (b : Builder) : Call → Builder
  | .add identity args => (place identity args b).2
  | .extend items => (placeAll items b).2

/-- The builder after a sequence of operations. -/
def run (b : Builder) (calls : List Call) : Builder := calls.foldl call b

/-! ## One instruction -/

/-- The builder with an instruction and its bytes at the end. -/
def enter (b : Builder) (i : Instruction) (data : List UInt8) : Builder where
  registry := b.registry
  writer := b.writer.append data
  instructions := b.instructions.push i

variable {R : Registry} {b next : Builder} {identity args : Value} {o : Opcode}
  {data : List UInt8} {e : Error}

@[simp]
theorem registry_enter (b : Builder) (i : Instruction) (data : List UInt8) :
    (b.enter i data).registry = b.registry := rfl

@[simp]
theorem toList_writer_enter (b : Builder) (i : Instruction) (data : List UInt8) :
    (b.enter i data).writer.toList = b.writer.toList ++ data :=
  b.writer.toList_append data

@[simp]
theorem toList_instructions_enter (b : Builder) (i : Instruction) (data : List UInt8) :
    (b.enter i data).instructions.toList = b.instructions.toList ++ [i] :=
  Array.toList_push

theorem place_of_ok (encoded : b.registry.encode (.opcode o) args = .ok data) :
    place (.opcode o) args b = (.ok (), b.enter ⟨o, args⟩ data) := by
  show (lift (b.registry.encode (.opcode o) args) >>= _) b = _
  rw [encoded]
  rfl

theorem place_of_error (refused : b.registry.encode identity args = .error e) :
    place identity args b = (.error e, b) := by
  show (lift (b.registry.encode identity args) >>= _) b = _
  rw [refused]
  rfl

/-- An instruction is refused and changes nothing, or is entered with its bytes. -/
theorem place_cases (b : Builder) (identity args : Value) :
    (∃ e, b.registry.encode identity args = .error e ∧ place identity args b = (.error e, b)) ∨
    ∃ o data, identity = .opcode o ∧ b.registry.encode (.opcode o) args = .ok data ∧
      place identity args b = (.ok (), b.enter ⟨o, args⟩ data) := by
  cases encoded : b.registry.encode identity args with
  | error e => exact .inl ⟨e, rfl, place_of_error encoded⟩
  | ok data =>
      obtain ⟨o, rfl⟩ := Registry.encode_eq_ok encoded
      exact .inr ⟨o, data, rfl, encoded, place_of_ok encoded⟩

/-- An instruction is added exactly as it is encoded. -/
theorem add_opcode (b : Builder) (o : Opcode) (args : Value) :
    b.add (.opcode o) args =
      (b.registry.encode (.opcode o) args >>= fun data => .ok (b.enter ⟨o, args⟩ data)) := by
  rw [add]
  cases encoded : b.registry.encode (.opcode o) args with
  | ok data =>
      rw [place_of_ok encoded]
      rfl
  | error e =>
      rw [place_of_error encoded]
      rfl

theorem add_eq_ok_iff :
    b.add identity args = .ok next ↔
      ∃ o data, identity = .opcode o ∧ b.registry.encode (.opcode o) args = .ok data ∧
        next = b.enter ⟨o, args⟩ data := by
  rw [add]
  rcases b.place_cases identity args with ⟨e, refused, placed⟩ | ⟨o, data, rfl, encoded, placed⟩
  · rw [placed]
    constructor
    · intro added
      cases added
    · rintro ⟨o, data, rfl, encoded, -⟩
      cases refused.symm.trans encoded
  · rw [placed]
    constructor
    · intro added
      cases added
      exact ⟨o, data, rfl, encoded, rfl⟩
    · rintro ⟨_, _, same, again, rfl⟩
      cases same
      cases encoded.symm.trans again
      rfl

/-! ## Several instructions -/

variable {items : List (Value × Value)}

theorem placeAll_cons (b : Builder) (identity args : Value) (items : List (Value × Value)) :
    placeAll ((identity, args) :: items) b = match place identity args b with
      | (.ok (), next) => placeAll items next
      | (.error e, next) => (.error e, next) := by
  rw [placeAll, bind_apply]
  rcases place identity args b with ⟨_ | _, _⟩ <;> rfl

theorem extend_cons_of_ok (added : b.add identity args = .ok next) :
    b.extend ((identity, args) :: items) = next.extend items := by
  obtain ⟨o, data, rfl, encoded, rfl⟩ := add_eq_ok_iff.mp added
  rw [extend, placeAll_cons, place_of_ok encoded]
  rfl

theorem extend_cons_of_error (refused : b.registry.encode identity args = .error e) :
    b.extend ((identity, args) :: items) = (b, .error e) := by
  rw [extend, placeAll_cons, place_of_error refused]

/-! ## What every operation preserves -/

/-- The bytes are the encodings of the instructions, one after the other. -/
def Holds (R : Registry) (b : Builder) : Prop :=
  b.registry = R ∧
    ∃ parts, List.Forall₂ (fun i data => R.encode (.opcode i.opcode) i.args = .ok data)
      b.instructions.toList parts ∧ b.writer.toList = parts.flatten

theorem Holds.empty (R : Registry) : Holds R { registry := R } :=
  ⟨rfl, [], .nil, rfl⟩

theorem Holds.enter (h : Holds R b) (encoded : R.encode (.opcode o) args = .ok data) :
    Holds R (b.enter ⟨o, args⟩ data) := by
  obtain ⟨same, parts, encodings, written⟩ := h
  refine ⟨same, parts ++ [data], ?_, ?_⟩
  · rw [toList_instructions_enter]
    exact List.rel_append encodings (.cons encoded .nil)
  · rw [toList_writer_enter, written, List.flatten_append, List.flatten_singleton]

theorem Holds.place (h : Holds R b) (identity args : Value) :
    Holds R (Builder.place identity args b).2 := by
  rcases b.place_cases identity args with ⟨e, -, refused⟩ | ⟨o, data, rfl, encoded, entered⟩
  · rwa [refused]
  · rw [entered]
    exact h.enter (h.1 ▸ encoded)

theorem Holds.placeAll (h : Holds R b) (items : List (Value × Value)) :
    Holds R (Builder.placeAll items b).2 := by
  induction items generalizing b with
  | nil => exact h
  | cons item items ih =>
      obtain ⟨identity, args⟩ := item
      have first := h.place identity args
      rw [placeAll_cons]
      split <;> rename_i next placed <;> rw [placed] at first
      · exact ih first
      · exact first

theorem Holds.call (h : Holds R b) (c : Call) : Holds R (b.call c) := by
  cases c with
  | add identity args => exact h.place identity args
  | extend items => exact h.placeAll items

/-- **Runs.** The bytes of a builder are always the encodings of its
instructions. -/
theorem Holds.run (h : Holds R b) (calls : List Call) : Holds R (b.run calls) := by
  induction calls generalizing b with
  | nil => exact h
  | cons c calls ih => exact ih (h.call c)

theorem Holds.exists_programWire (h : Holds R b) (wellFormed : R.WellFormed) :
    ∃ L, List.Forall₂ R.Agrees b.instructions.toList L ∧ R.ProgramWire L b.writer.toList := by
  obtain ⟨_, parts, encodings, written⟩ := h
  rw [written]
  exact wellFormed.exists_programWire encodings

theorem pc_eq (b : Builder) : b.pc = b.writer.toList.length := b.writer.position_eq

theorem build_eq_ok {limit : Int} (short : (b.pc : Int) ≤ limit) :
    b.build limit = .ok b.writer.toList := by
  rw [build, if_neg (Int.not_lt.mpr short)]

theorem build_eq_fail {limit : Int} (long : limit < b.pc) :
    b.build limit = fail (.overlongBuild b.pc limit) := by
  rw [build, if_pos long]

theorem eq_of_build {limit : Int} (built : b.build limit = .ok data) : data = b.writer.toList := by
  rw [build] at built
  split at built
  · exact absurd built fail_ne_ok
  · cases built
    rfl

/-- The refusal to build quotes the limit. -/
theorem failsWith_overlongBuild {α : Type} {count : Nat} {limit : Int}
    (numeral : (Text.decimal? limit).isSome = true) :
    FailsWith (fail (.overlongBuild count limit) : Except Error α) .validation :=
  failsWith_fail (Option.isSome_map.trans numeral)

/-- A limit without a numeral leaves the refusal to build without a message. -/
theorem fail_overlongBuild_of_long {α : Type} {count : Nat} {limit : Int}
    (long : Text.decimal? limit = none) :
    (fail (.overlongBuild count limit) : Except Error α) = .error .numeralTooLong :=
  fail_eq_unworded rfl (by rw [Error.message?, long, Option.map_none])

end Builder

/-- The instructions of a program in the wire form are added one by one, and the
bytes that are appended are those of the program. -/
theorem Registry.ProgramWire.extend_eq {R : Registry} (wellFormed : R.WellFormed)
    {L : List Instruction} {data : List UInt8} (wire : R.ProgramWire L data) (b : Builder)
    (same : b.registry = R) :
    ∃ next, b.extend (L.map Instruction.toPair) = (next, .ok ()) ∧
      next.writer.toList = b.writer.toList ++ data ∧
      next.instructions.toList = b.instructions.toList ++ L := by
  obtain ⟨parts, frames, rfl⟩ := wire
  induction frames generalizing b with
  | nil => exact ⟨b, rfl, (List.append_nil _).symm, (List.append_nil _).symm⟩
  | @cons i part L parts first _ ih =>
      have added := Builder.add_eq_ok_iff.mpr
        ⟨i.opcode, part, rfl, same ▸ first.encode_eq wellFormed, rfl⟩
      obtain ⟨next, extended, written, held⟩ := ih
        (b.enter i part) same
      refine ⟨next, ?_, ?_, ?_⟩
      · rw [List.map_cons, Instruction.toPair, Builder.extend_cons_of_ok added]
        exact extended
      · rw [written, Builder.toList_writer_enter, List.flatten_cons, List.append_assoc]
      · rw [held, Builder.toList_instructions_enter, List.append_assoc, List.singleton_append]

end SwapCodec
