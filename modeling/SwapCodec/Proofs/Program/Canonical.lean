import SwapCodec.Proofs.Program.Builder
import SwapCodec.Proofs.Published

/-!
# Decoding is canonical

A program that is decoded can be built again, and the bytes come out as they
went in (`Registry.WellFormed.rebuild`). So the byte strings that are accepted are the
concatenations of encodings of instructions, they are split into encodings in one
way, and decoding a single instruction is decoding a program of one.
-/

set_option autoImplicit false

namespace SwapCodec

namespace Registry.WellFormed

variable {R : Registry} {data : List UInt8} {L : List Instruction}

theorem rebuild (h : R.WellFormed) (wire : R.ProgramWire L data) :
    ∃ b, Builder.extend { registry := R } (L.map Instruction.toPair) = (b, .ok ()) ∧
      ∀ limit : Int, (data.length : Int) ≤ limit → b.build limit = .ok data := by
  obtain ⟨b, extended, written, _⟩ := wire.extend_eq h { registry := R } rfl
  have bytes : b.writer.toList = data := written
  refine ⟨b, extended, fun limit short => ?_⟩
  rw [Builder.build_eq_ok, bytes]
  rwa [Builder.pc_eq, bytes]

theorem isProgram_iff (h : R.WellFormed) {limit : Int} (short : (data.length : Int) ≤ limit) :
    (∃ L, R.decodeProgram data limit = .ok L) ↔
      ∃ parts : List (List UInt8), (∀ part ∈ parts, R.IsEncoding part) ∧
        data = parts.flatten := by
  simp only [h.decodeProgram_eq_ok_iff, h.forall_isEncoding_iff]
  constructor
  · rintro ⟨L, _, parts, frames, same⟩
    exact ⟨parts, ⟨L, frames⟩, same⟩
  · rintro ⟨parts, ⟨L, frames⟩, same⟩
    exact ⟨L, short, parts, frames, same⟩

theorem split_unique (h : R.WellFormed) {parts others : List (List UInt8)}
    (encodings : ∀ part ∈ parts, R.IsEncoding part)
    (encodings' : ∀ part ∈ others, R.IsEncoding part) (same : parts.flatten = others.flatten) :
    parts = others := by
  obtain ⟨L, frames⟩ := h.forall_isEncoding_iff.mp encodings
  obtain ⟨M, frames'⟩ := h.forall_isEncoding_iff.mp encodings'
  exact h.frames_unique frames frames' same

theorem decode_eq_ok_iff_decodeProgram (h : R.WellFormed) {i : Instruction} {limit : Int}
    (short : (data.length : Int) ≤ limit) :
    R.decode data = .ok i ↔ R.decodeProgram data limit = .ok [i] := by
  rw [h.decode_eq_ok_iff, h.decodeProgram_eq_ok_iff]
  constructor
  · intro formed
    exact ⟨short, [data], .cons formed .nil, by simp⟩
  · rintro ⟨_, parts, _ | ⟨formed, _ | _⟩, rfl⟩
    simpa using formed

end Registry.WellFormed

/-- **Canonical decoding.** A program that is decoded can be built again from its
instructions, and its bytes are the ones that were decoded. The byte strings that
are accepted are the concatenations of encodings, each splits into encodings in
one way, and a single instruction is a program of one. -/
theorem decoding_canonical {R : Registry} (reachable : R.Reachable) (data : List UInt8) :
    (∀ limit L, R.decodeProgram data limit = .ok L →
      ∃ b, Builder.extend { registry := R } (L.map Instruction.toPair) = (b, .ok ()) ∧
        ∀ limit' : Int, (data.length : Int) ≤ limit' → b.build limit' = .ok data) ∧
    (∀ limit : Int, (data.length : Int) ≤ limit →
      ((∃ L, R.decodeProgram data limit = .ok L) ↔
        ∃ parts : List (List UInt8), (∀ part ∈ parts, R.IsEncoding part) ∧
          data = parts.flatten)) ∧
    (∀ parts others : List (List UInt8), (∀ part ∈ parts, R.IsEncoding part) →
      (∀ part ∈ others, R.IsEncoding part) → parts.flatten = data → others.flatten = data →
      parts = others) ∧
    (∀ (limit : Int) (i : Instruction), (data.length : Int) ≤ limit →
      (R.decode data = .ok i ↔ R.decodeProgram data limit = .ok [i])) := by
  have wellFormed := reachable.wellFormed
  refine ⟨?_, ?_, ?_, ?_⟩
  · intro limit L decoded
    exact wellFormed.rebuild (wellFormed.decodeProgram_eq_ok_iff.mp decoded).2
  · intro limit short
    exact wellFormed.isProgram_iff short
  · intro parts others encodings encodings' same same'
    exact wellFormed.split_unique encodings encodings' (same.trans same'.symm)
  · intro limit i short
    exact wellFormed.decode_eq_ok_iff_decodeProgram short

theorem decoding_canonical_jump :
    let R := Registry.ofSet .swapVm
    let i : Instruction := ⟨.jump, .args "JumpArgs" [("next_pc", .int 3)]⟩
    R.Reachable ∧ R.decodeProgram [0, 2, 0, 3] 4 = .ok [i] ∧
      ∃ b, Builder.extend { registry := R } [i.toPair] = (b, .ok ()) ∧
        b.build 4 = .ok [0, 2, 0, 3] := by
  intro R i
  have reachable : R.Reachable := Registry.ofSet_reachable .swapVm
  obtain ⟨rebuilt, _, _, single⟩ := decoding_canonical reachable [0, 2, 0, 3]
  have read : R.decode [0, 2, 0, 3] = .ok i := by rfl
  have decoded := (single 4 i (by decide)).mp read
  obtain ⟨b, extended, built⟩ := rebuilt 4 [i] decoded
  exact ⟨reachable, decoded, b, extended, built 4 (by decide)⟩

end SwapCodec
