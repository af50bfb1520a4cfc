import SwapCodec.Proofs.Program.Builder
import SwapCodec.Proofs.Program.Concat
import SwapCodec.Proofs.Registry.Growth

/-!
# Moving programs between tables

The published tables number the opcodes in different ways, but an opcode takes the same
arguments in each. So the frames of an instruction in two tables are the same up to the
discriminator (`Redirected`, `Registry.ofSet_wire_redirected`), and a program can be
moved to a table that has all of its opcodes, with every instruction at its offset
(`Registry.exists_redirected`). A table that lacks one of the opcodes refuses the program
(`Registry.extend_of_unlisted`).

The table of Aqua lacks balances and invalidators and nothing else
(`OpcodeSet.mem_aqua_iff`).
-/

set_option autoImplicit false

namespace SwapCodec

/-! ## Discriminators -/

/-- The byte strings are not empty, and the same behind their first bytes. -/
def Redirected (data other : List UInt8) : Prop :=
  ∃ discriminator another rest, data = discriminator :: rest ∧ other = another :: rest

theorem Redirected.length_eq {data other : List UInt8} (h : Redirected data other) :
    other.length = data.length := by
  obtain ⟨_, _, _, rfl, rfl⟩ := h
  rfl

section

variable {parts others : List (List UInt8)}

theorem length_flatten_of_redirected (h : List.Forall₂ Redirected parts others) :
    others.flatten.length = parts.flatten.length := by
  induction h with
  | nil => rfl
  | cons first _ ih =>
      rw [List.flatten_cons, List.flatten_cons, List.length_append, List.length_append,
        first.length_eq, ih]

theorem offset_eq_of_redirected (h : List.Forall₂ Redirected parts others) (k : Nat) :
    (others.take k).flatten.length = (parts.take k).flatten.length :=
  length_flatten_of_redirected (List.forall₂_take k h)

/-- A byte that differs stands at the start of a part. -/
theorem exists_offset_of_ne (h : List.Forall₂ Redirected parts others) {n : Nat}
    (differ : parts.flatten[n]? ≠ others.flatten[n]?) :
    ∃ k < parts.length, n = (parts.take k).flatten.length := by
  induction h generalizing n with
  | nil => exact absurd rfl differ
  | @cons part other parts others first _ ih =>
      obtain ⟨d, d', rest, rfl, rfl⟩ := first
      cases n with
      | zero => exact ⟨0, Nat.zero_lt_succ _, rfl⟩
      | succ n =>
          simp only [List.flatten_cons, List.cons_append, List.getElem?_cons_succ] at differ
          rcases Nat.lt_or_ge n rest.length with inside | behind
          · rw [List.getElem?_append_left inside, List.getElem?_append_left inside] at differ
            exact absurd rfl differ
          · rw [List.getElem?_append_right behind, List.getElem?_append_right behind] at differ
            obtain ⟨k, small, offset⟩ := ih differ
            refine ⟨k + 1, Nat.succ_lt_succ small, ?_⟩
            simp only [List.take_succ_cons, List.flatten_cons, List.length_append,
              List.length_cons]
            omega

end

/-! ## Tables -/

theorem OpcodeSet.mem_swapVm (o : Opcode) : o ∈ swapVm.opcodes := by
  cases o <;> decide

theorem OpcodeSet.mem_aqua_iff (o : Opcode) :
    o ∈ aqua.opcodes ↔ ¬(o.family = "Balances" ∨ o.family = "Invalidators") := by
  cases o <;> decide

namespace Registry

/-- The program of the first registry is rebuilt on the second one, from the same
instructions and with each at the same offset. -/
structure Moves (R S : Registry) (L : List Instruction) (limit : Int)
    (data moved : List UInt8) : Prop where
  /-- The instructions are added to an empty builder, which then builds the result. -/
  rebuilt : ∃ b, Builder.extend { registry := S } (L.map Instruction.toPair) = (b, .ok ()) ∧
    b.build limit = .ok moved
  /-- The result is decoded to the same instructions. -/
  decoded : S.decodeProgram moved limit = .ok L
  /-- The result has as many bytes. -/
  length_eq : moved.length = data.length
  /-- The encodings start at the same offsets, and only their first bytes may differ. -/
  aligned : ∃ parts others,
    List.Forall₂ (fun i part => R.encode (.opcode i.opcode) i.args = .ok part) L parts ∧
    List.Forall₂ (fun i part => S.encode (.opcode i.opcode) i.args = .ok part) L others ∧
    data = parts.flatten ∧ moved = others.flatten ∧
    (∀ k, (others.take k).flatten.length = (parts.take k).flatten.length) ∧
    ∀ n, data[n]? ≠ moved[n]? → ∃ k < L.length, n = (parts.take k).flatten.length

variable {source target : OpcodeSet} {i : Instruction} {L : List Instruction}
  {data : List UInt8} {parts : List (List UInt8)}

/-- **One instruction.** In another table that has its opcode, the frame of an instruction
differs at most in the discriminator. -/
theorem ofSet_wire_redirected (formed : (ofSet source).Wire i data)
    (listed : i.opcode ∈ target.opcodes) :
    ∃ other, (ofSet target).Wire i other ∧ Redirected data other := by
  obtain ⟨index, payload, _, wire, short, rfl⟩ := ofSet_wire_iff.mp formed
  obtain ⟨place, found⟩ := List.mem_iff_getElem?.mp listed
  exact ⟨frame place payload, ofSet_wire_iff.mpr ⟨place, payload, found, wire, short, rfl⟩,
    _, _, _, rfl, rfl⟩

/-- **Programs.** In another table that has all the opcodes, the frames of a program differ
at most in the discriminators. -/
theorem exists_redirected (frames : List.Forall₂ (ofSet source).Wire L parts)
    (listed : ∀ i ∈ L, i.opcode ∈ target.opcodes) :
    ∃ others, List.Forall₂ (ofSet target).Wire L others ∧ List.Forall₂ Redirected parts others := by
  induction frames with
  | nil => exact ⟨[], .nil, .nil⟩
  | cons formed _ ih =>
      rw [List.forall_mem_cons] at listed
      obtain ⟨other, wire, redirected⟩ := ofSet_wire_redirected formed listed.1
      obtain ⟨others, wires, parallel⟩ := ih listed.2
      exact ⟨other :: others, .cons wire wires, .cons redirected parallel⟩

/-- **Rebuilding.** A program is moved to any table that has all of its opcodes. -/
theorem exists_moves {limit : Int} (decoded : (ofSet source).decodeProgram data limit = .ok L)
    (listed : ∀ i ∈ L, i.opcode ∈ target.opcodes) :
    ∃ moved, (ofSet source).Moves (ofSet target) L limit data moved := by
  have before : (ofSet source).WellFormed := (ofSet_reachable source).wellFormed
  have after : (ofSet target).WellFormed := (ofSet_reachable target).wellFormed
  obtain ⟨short, parts, frames, rfl⟩ := before.decodeProgram_eq_ok_iff.mp decoded
  obtain ⟨others, wires, parallel⟩ := exists_redirected frames listed
  have size : others.flatten.length = parts.flatten.length := length_flatten_of_redirected parallel
  have wire : (ofSet target).ProgramWire L others.flatten := ⟨others, wires, rfl⟩
  obtain ⟨b, extended, appended, _⟩ := wire.extend_eq after { registry := ofSet target } rfl
  have written : b.writer.toList = others.flatten := appended
  refine ⟨others.flatten, ⟨b, extended, ?_⟩, ?_, size, parts, others,
    forall_encode_eq before frames, forall_encode_eq after wires, rfl, rfl,
    offset_eq_of_redirected parallel, fun n differ => ?_⟩
  · rw [Builder.build_eq_ok (by rwa [b.pc_eq, written, size]), written]
  · exact after.decodeProgram_eq_ok_iff.mpr ⟨size ▸ short, wire⟩
  · rw [frames.length_eq]
    exact exists_offset_of_ne parallel differ

/-- **Refusal.** A program with an opcode that the table lacks is added up to the first such
instruction, which is an unknown opcode. -/
theorem extend_of_unlisted (frames : List.Forall₂ (ofSet source).Wire L parts)
    (unlisted : ¬∀ i ∈ L, i.opcode ∈ target.opcodes) {b : Builder}
    (same : b.registry = ofSet target) :
    FailsWith (b.extend (L.map Instruction.toPair)).2 .unknownOpcode := by
  have wellFormed : (ofSet target).WellFormed := (ofSet_reachable target).wellFormed
  induction frames generalizing b with
  | nil => exact absurd (List.forall_mem_nil _) unlisted
  | @cons i part L parts formed _ ih =>
      by_cases listed : i.opcode ∈ target.opcodes
      · obtain ⟨other, wire, -⟩ := ofSet_wire_redirected formed listed
        have added := Builder.add_eq_ok_iff.mpr
          ⟨i.opcode, other, rfl, same ▸ wire.encode_eq wellFormed, rfl⟩
        have others : ¬∀ j ∈ L, j.opcode ∈ target.opcodes := fun all =>
          unlisted (List.forall_mem_cons.mpr ⟨listed, all⟩)
        rw [List.map_cons, Instruction.toPair, Builder.extend_cons_of_ok added]
        exact ih others same
      · have unknown : (ofSet target).indexOf? i.opcode = none := by
          rwa [wellFormed.indexOf?_eq_none_iff, opcodes_ofSet]
        obtain ⟨e, failed, kind, worded⟩ : FailsWith (b.registry.encode (.opcode i.opcode) i.args)
            .unknownOpcode := encode_of_unregistered (same ▸ unknown)
        rw [List.map_cons, Instruction.toPair, Builder.extend_cons_of_error failed]
        exact ⟨e, rfl, kind, worded⟩

end Registry

/-- **Moving programs.** A program of the Aqua table can be rebuilt on the full table. Its
instructions stay at their offsets, only discriminators change, and the result is decoded
to the same instructions.

A program of the full table can be rebuilt on the Aqua table, in the same way, exactly if
none of its instructions is a balance or an invalidator. Otherwise rebuilding it fails with
an unknown opcode. -/
theorem programs_transfer (data : List UInt8) (limit : Int) (L : List Instruction) :
    let aqua := Registry.ofSet .aqua
    let full := Registry.ofSet .swapVm
    (aqua.decodeProgram data limit = .ok L → ∃ moved, aqua.Moves full L limit data moved) ∧
    (full.decodeProgram data limit = .ok L →
      let outcome := Builder.extend { registry := aqua } (L.map Instruction.toPair)
      let excluded := ∃ i ∈ L, i.opcode.family = "Balances" ∨ i.opcode.family = "Invalidators"
      (outcome.2 = .ok () ↔ ¬excluded) ∧
      (¬excluded → ∃ moved, full.Moves aqua L limit data moved) ∧
      (excluded → FailsWith outcome.2 .unknownOpcode)) := by
  intro aqua full
  refine ⟨fun decoded => Registry.exists_moves decoded fun i _ => OpcodeSet.mem_swapVm i.opcode,
    fun decoded => ?_⟩
  intro outcome excluded
  have listed : (∀ i ∈ L, i.opcode ∈ OpcodeSet.aqua.opcodes) ↔ ¬excluded := by
    simp only [excluded, OpcodeSet.mem_aqua_iff, not_exists, not_and]
  have accepted : ¬excluded → ∃ moved, full.Moves aqua L limit data moved := fun none =>
    Registry.exists_moves decoded (listed.mpr none)
  have refused : excluded → FailsWith outcome.2 .unknownOpcode := by
    intro some
    have wellFormed : full.WellFormed := (Registry.ofSet_reachable .swapVm).wellFormed
    obtain ⟨_, parts, frames, _⟩ := wellFormed.decodeProgram_eq_ok_iff.mp decoded
    exact Registry.extend_of_unlisted frames (fun all => listed.mp all some) rfl
  refine ⟨⟨fun given some => (refused some).ne_ok given, fun none => ?_⟩, accepted, refused⟩
  obtain ⟨moved, moves⟩ := accepted none
  obtain ⟨b, extended, _⟩ := moves.rebuilt
  exact congrArg Prod.snd extended

theorem programs_transfer_swap :
    let aqua := Registry.ofSet .aqua
    let full := Registry.ofSet .swapVm
    let swap : List Instruction :=
      [⟨.limitSwap1D, .args "LimitSwapDirectionArgs" [("maker_direction_lt", .bool true)]⟩]
    let spent : List Instruction := [⟨.invalidateTokenIn1D, .args "EmptyArgs" []⟩]
    aqua.decodeProgram [7, 1, 1] 3 = .ok swap ∧
      (∃ moved, aqua.Moves full swap 3 [7, 1, 1] moved) ∧
      full.decodeProgram [12, 1, 1] 3 = .ok swap ∧
      (∃ moved, full.Moves aqua swap 3 [12, 1, 1] moved) ∧
      full.decodeProgram [10, 0] 2 = .ok spent ∧
      FailsWith (Builder.extend { registry := aqua } (spent.map Instruction.toPair)).2
        .unknownOpcode := by
  intro aqua full swap spent
  have single {R : Registry} {i : Instruction} {part : List UInt8} (read : R.decode part = .ok i) :
      List.Forall₂ (fun i part => R.decode part = .ok i) [i] [part] := .cons read .nil
  have numbered : aqua.decodeProgram [7, 1, 1] 3 = .ok swap :=
    Registry.decodeProgram_of_decodes (single (rfl : aqua.decode [7, 1, 1] = _)) (by decide)
  have renumbered : full.decodeProgram [12, 1, 1] 3 = .ok swap :=
    Registry.decodeProgram_of_decodes (single (rfl : full.decode [12, 1, 1] = _)) (by decide)
  have invalidating : full.decodeProgram [10, 0] 2 = .ok spent :=
    Registry.decodeProgram_of_decodes (single (rfl : full.decode [10, 0] = _)) (by decide)
  obtain ⟨moves, _⟩ := programs_transfer [7, 1, 1] 3 swap
  obtain ⟨_, returns⟩ := programs_transfer [12, 1, 1] 3 swap
  obtain ⟨_, refused⟩ := programs_transfer [10, 0] 2 spent
  exact ⟨numbered, moves numbered, renumbered, (returns renumbered).2.1 (by decide), invalidating,
    (refused invalidating).2.2 (by decide)⟩

end SwapCodec
