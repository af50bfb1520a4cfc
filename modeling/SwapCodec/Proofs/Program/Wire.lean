import SwapCodec.Program
import SwapCodec.Proofs.Registry.Frame

/-!
# Programs as byte strings

The wire form of a program is the frames of its instructions, one after the
other (`Registry.ProgramWire`). In a well-formed registry the programs in the
wire form are exactly what is decoded
(`Registry.WellFormed.decodeProgram_eq_ok_iff`), and a byte string is split into
frames in at most one way (`Registry.WellFormed.frames_unique`).
-/

set_option autoImplicit false

namespace SwapCodec

namespace Registry

/-- The byte string is the frames of the instructions, one after the other. -/
def ProgramWire (R : Registry) (L : List Instruction) (data : List UInt8) : Prop :=
  ∃ parts, List.Forall₂ R.Wire L parts ∧ data = parts.flatten

variable {R : Registry} {data : List UInt8} {L : List Instruction}

theorem locate_eq_ok_iff {α : Type} {pc : Nat} {x : Except Error α} {y : α} :
    locate pc x = .ok y ↔ x = .ok y := by
  cases x with
  | ok z => rfl
  | error e =>
      by_cases kind : e.kind = .decode
      · simp [locate, kind, fail]
      · simp [locate, kind]

theorem programWire_nil_iff : R.ProgramWire L [] ↔ L = [] := by
  constructor
  · rintro ⟨parts, frames, none⟩
    cases frames with
    | nil => rfl
    | cons first _ =>
        obtain ⟨_, _, _, _, _, _, rfl⟩ := first
        cases none
  · rintro rfl
    exact ⟨[], .nil, rfl⟩

theorem forall_encode_eq (h : R.WellFormed) {parts : List (List UInt8)}
    (frames : List.Forall₂ R.Wire L parts) :
    List.Forall₂ (fun i part => R.encode (.opcode i.opcode) i.args = .ok part) L parts :=
  frames.imp fun _ _ formed => formed.encode_eq h

/-- Instructions that are encoded are equal to those of a program, with the same
frames. -/
theorem WellFormed.exists_programWire (h : R.WellFormed) {parts : List (List UInt8)}
    (encodings : List.Forall₂ (fun i part => R.encode (.opcode i.opcode) i.args = .ok part) L parts) :
    ∃ M, List.Forall₂ R.Agrees L M ∧ R.ProgramWire M parts.flatten := by
  induction encodings with
  | nil => exact ⟨[], .nil, [], .nil, rfl⟩
  | cons encoded _ ih =>
      obtain ⟨others, agree, parts, frames, same⟩ := ih
      obtain ⟨w, equal, formed⟩ := exists_wire_of_encode h encoded
      exact ⟨_ :: others, .cons equal agree, _ :: parts, .cons formed frames, by
        rw [List.flatten_cons, List.flatten_cons, same]⟩

/-- A program starts with the frame of its first instruction. -/
theorem WellFormed.programWire_cons_iff (h : R.WellFormed) {discriminator length : UInt8}
    {rest : List UInt8} :
    R.ProgramWire L (discriminator :: length :: rest) ↔
      ∃ i others, L = i :: others ∧ R.payload discriminator length rest = .ok i ∧
        R.ProgramWire others (rest.drop length.toNat) := by
  simp only [h.payload_eq_ok_iff]
  constructor
  · rintro ⟨parts, frames, same⟩
    cases frames with
    | nil => cases same
    | @cons i part others parts first frames =>
        obtain ⟨d, n, payload, schema, rfl, counted, _⟩ := h.wire_iff.mp first
        obtain ⟨rfl, rfl, rfl⟩ :
            discriminator = d ∧ length = n ∧ rest = payload ++ parts.flatten := by
          simpa using same
        have taken : (payload ++ parts.flatten).take length.toNat = payload :=
          List.take_left' counted.symm
        have left : (payload ++ parts.flatten).drop length.toNat = parts.flatten :=
          List.drop_left' counted.symm
        refine ⟨i, others, rfl, ⟨?_, by rwa [taken]⟩, parts, frames, left⟩
        rw [List.length_append, counted]
        exact Nat.le_add_right _ _
  · rintro ⟨i, others, rfl, ⟨_, wire⟩, parts, frames, left⟩
    refine ⟨_ :: parts, .cons wire frames, ?_⟩
    rw [List.flatten_cons, ← left, List.cons_append, List.cons_append, List.take_append_drop]

theorem WellFormed.not_programWire_singleton (h : R.WellFormed) {b : UInt8} :
    ¬ R.ProgramWire L [b] := by
  rintro ⟨parts, frames, same⟩
  cases frames with
  | nil => cases same
  | cons first _ =>
      obtain ⟨_, _, _, _, rfl, _⟩ := h.wire_iff.mp first
      cases same

/-- The instructions from an offset on come behind the ones that are done. -/
theorem WellFormed.decodeFrom_eq_ok_iff (h : R.WellFormed) (pc : Nat) (done : Array Instruction) :
    R.decodeFrom pc done data = .ok L ↔
      ∃ rest, L = done.toList ++ rest ∧ R.ProgramWire rest data := by
  -- The recursion of the decoder: `done` only ever grows in front of what is left to read.
  induction pc, done, data using decodeFrom.induct (R := R) with
  | case1 pc done =>
      rw [decodeFrom, Except.ok.injEq]
      constructor
      · rintro rfl
        exact ⟨[], (List.append_nil _).symm, programWire_nil_iff.mpr rfl⟩
      · rintro ⟨rest, rfl, none⟩
        rw [programWire_nil_iff.mp none, List.append_nil]
  | case2 pc done b =>
      rw [decodeFrom, locate_eq_ok_iff]
      constructor
      · intro failed
        exact absurd failed fail_ne_ok
      · rintro ⟨rest, rfl, cut⟩
        exact absurd cut h.not_programWire_singleton
  | case3 pc done discriminator length rest e failed =>
      rw [decodeFrom, failed]
      constructor
      · intro given
        cases given
      · rintro ⟨more, rfl, wire⟩
        obtain ⟨i, _, _, read, _⟩ := h.programWire_cons_iff.mp wire
        cases failed.symm.trans (locate_eq_ok_iff.mpr read)
  | case4 pc done discriminator length rest i read ih =>
      rw [decodeFrom, read]
      simp only [ih, h.programWire_cons_iff, Array.toList_push]
      have first := locate_eq_ok_iff.mp read
      constructor
      · rintro ⟨more, rfl, wire⟩
        exact ⟨i :: more, by simp, i, more, rfl, first, wire⟩
      · rintro ⟨_, rfl, j, others, rfl, same, wire⟩
        cases first.symm.trans same
        exact ⟨others, by simp, wire⟩

/-- **Decoding a program.** The programs that are decoded, of at most `limit`
bytes, are those in the wire form. -/
theorem WellFormed.decodeProgram_eq_ok_iff (h : R.WellFormed) {limit : Int} :
    R.decodeProgram data limit = .ok L ↔ (data.length : Int) ≤ limit ∧ R.ProgramWire L data := by
  by_cases long : limit < data.length
  · simp only [decodeProgram, if_pos long, fail_ne_ok, false_iff]
    omega
  · simp [decodeProgram, if_neg long, h.decodeFrom_eq_ok_iff, Int.not_lt.mp long]

/-- A program that is longer than its limit is not looked at. -/
theorem decodeProgram_eq_fail {limit : Int} (long : limit < data.length) :
    R.decodeProgram data limit = fail (.overlongProgram data.length limit) := by
  rw [decodeProgram, if_pos long]

/-- The refusal of a program quotes the limit. -/
theorem failsWith_overlongProgram {α : Type} {count : Nat} {limit : Int}
    (numeral : (Text.decimal? limit).isSome = true) :
    FailsWith (fail (.overlongProgram count limit) : Except Error α) .decode :=
  failsWith_fail (Option.isSome_map.trans numeral)

/-- A limit without a numeral leaves the refusal of a program without a message. -/
theorem fail_overlongProgram_of_long {α : Type} {count : Nat} {limit : Int}
    (long : Text.decimal? limit = none) :
    (fail (.overlongProgram count limit) : Except Error α) = .error .numeralTooLong :=
  fail_eq_unworded rfl (by rw [Error.message?, long, Option.map_none])

/-! ## Splitting a program -/

/-- A byte string is the wire form of one program. -/
theorem WellFormed.programWire_unique (h : R.WellFormed) {M : List Instruction}
    (first : R.ProgramWire L data) (second : R.ProgramWire M data) : L = M := by
  have decoded (K : List Instruction) (wire : R.ProgramWire K data) :
      R.decodeProgram data data.length = .ok K :=
    h.decodeProgram_eq_ok_iff.mpr ⟨Int.le_refl _, wire⟩
  exact Except.ok.inj ((decoded L first).symm.trans (decoded M second))

/-- Frames are split in one way. -/
theorem WellFormed.frames_unique (h : R.WellFormed) {M : List Instruction}
    {parts others : List (List UInt8)} (first : List.Forall₂ R.Wire L parts)
    (second : List.Forall₂ R.Wire M others) (same : parts.flatten = others.flatten) :
    parts = others := by
  -- The instructions are the same by decoding, and each has one frame.
  have equal : L = M := h.programWire_unique ⟨parts, first, rfl⟩ ⟨others, second, same⟩
  subst equal
  clear same
  induction first generalizing others with
  | nil =>
      cases second
      rfl
  | cons formed _ ih =>
      cases second with
      | cons formed' second => rw [formed.data_unique h formed', ih second]

/-- The byte string is the encoding of an instruction. -/
def IsEncoding (R : Registry) (data : List UInt8) : Prop :=
  ∃ identity args, R.encode identity args = .ok data

theorem WellFormed.isEncoding_iff (h : R.WellFormed) : R.IsEncoding data ↔ ∃ i, R.Wire i data := by
  constructor
  · rintro ⟨identity, args, encoded⟩
    obtain ⟨o, rfl⟩ := encode_eq_ok encoded
    obtain ⟨w, _, formed⟩ := exists_wire_of_encode h encoded
    exact ⟨⟨o, w⟩, formed⟩
  · rintro ⟨i, formed⟩
    exact ⟨.opcode i.opcode, i.args, formed.encode_eq h⟩

/-- Byte strings are encodings, each of an instruction, when they are the frames
of some program. -/
theorem WellFormed.forall_isEncoding_iff (h : R.WellFormed) {parts : List (List UInt8)} :
    (∀ part ∈ parts, R.IsEncoding part) ↔ ∃ L, List.Forall₂ R.Wire L parts := by
  induction parts with
  | nil =>
      constructor
      · intro _
        exact ⟨[], .nil⟩
      · intro _ part mem
        cases mem
  | cons part parts ih =>
      rw [List.forall_mem_cons, h.isEncoding_iff, ih]
      constructor
      · rintro ⟨⟨i, first⟩, L, frames⟩
        exact ⟨i :: L, .cons first frames⟩
      · rintro ⟨_, _ | ⟨first, frames⟩⟩
        exact ⟨⟨_, first⟩, _, frames⟩

theorem programWire_length {R : Registry} (h : R.WellFormed) (wire : R.ProgramWire L data) :
    2 * L.length ≤ data.length := by
  obtain ⟨parts, frames, rfl⟩ := wire
  induction frames with
  | nil => exact Nat.le_refl 0
  | cons first _ ih =>
      obtain ⟨_, _, payload, _, rfl, _⟩ := h.wire_iff.mp first
      simp only [List.length_cons, List.flatten_cons, List.length_append]
      omega

end Registry

end SwapCodec
