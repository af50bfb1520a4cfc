import SwapCodec.Proofs.Registry.Run

/-!
# Frames of instructions

The frame of an instruction is its discriminator, the length of its payload and
the payload, which is the wire form of its arguments (`Registry.Wire`).

In a well-formed registry the frames are what is encoded, up to equality of the
arguments (`Registry.Wire.encode_eq`, `Registry.exists_wire_of_encode`), and what
is decoded (`Registry.WellFormed.decode_eq_ok_iff`). Reading one instruction
takes exactly its frame (`Registry.WellFormed.payload_eq_ok_iff`).
-/

set_option autoImplicit false

namespace SwapCodec

namespace Registry

/-- The frame of an instruction. -/
def frame (discriminator : Nat) (payload : List UInt8) : List UInt8 :=
  UInt8.ofNat discriminator :: UInt8.ofNat payload.length :: payload

/-- The byte string is the frame of the instruction. -/
def Wire (R : Registry) (i : Instruction) (data : List UInt8) : Prop :=
  ∃ index schema payload, R.table[index]? = some (i.opcode, schema) ∧ schema.Wire i.args payload ∧
    payload.length ≤ maxPayload ∧ data = frame index payload

/-- Both instructions have the same opcode, and their arguments are equal. -/
def Agrees (R : Registry) (i j : Instruction) : Prop :=
  i.opcode = j.opcode ∧
    ∃ schema, (i.opcode, schema) ∈ R.table ∧ schema.record.Agrees i.args j.args

variable {R : Registry} {o : Opcode} {args : Value} {data : List UInt8} {i : Instruction}

/-! ## Discriminators -/

theorem getElem?_opcodes {index : Nat} :
    R.opcodes[index]? = some o ↔ ∃ schema, R.table[index]? = some (o, schema) := by
  simp only [opcodes, List.getElem?_map, Option.map_eq_some_iff, Prod.exists, exists_and_right,
    exists_eq_right]

theorem Indexed.discriminatorOf_eq_ok_iff (h : R.Indexed) {index : Nat} :
    R.discriminatorOf (.opcode o) = .ok index ↔ ∃ schema, R.table[index]? = some (o, schema) := by
  rw [← getElem?_opcodes, ← h.indexOf?_eq_some_iff, discriminatorOf]
  cases R.indexOf? o with
  | none => simp [fail]
  | some n => simp

theorem entryAt_eq_ok_iff {index : Nat} {entry : Opcode × Schema} :
    R.entryAt index = .ok entry ↔ R.table[index]? = some entry := by
  rw [entryAt]
  cases R.table[index]? with
  | none => simp [fail]
  | some entry => simp

theorem Indexed.lt_of_getElem? (h : R.Indexed) {index : Nat} {entry : Opcode × Schema}
    (found : R.table[index]? = some entry) : index < 256 := by
  obtain ⟨inside, _⟩ := List.getElem?_eq_some_iff.mp found
  exact Nat.lt_trans inside h.size_lt

theorem WellFormed.lawful_of_getElem? (h : R.WellFormed) {index : Nat} {schema : Schema}
    (found : R.table[index]? = some (o, schema)) : schema.Lawful :=
  h.lawful _ (List.mem_of_getElem? found)

/-! ## Encoding -/

theorem wordBytes_byte {w : Width} (octet : w.bits = 8) {n : Nat} (small : n < 256) :
    wordBytes w n = [UInt8.ofNat n] := by
  have one : w.byteCount = 1 := by rw [Width.byteCount, octet]
  simp only [wordBytes, one, bigEndian, bigEndianOnto, Nat.pow_eq]
  congr 2
  omega

theorem byte_fits {w : Width} (octet : w.bits = 8) {n : Nat} (small : n < 256) :
    Signedness.unsigned.fits w n = true := by
  rw [fits_iff]
  simp only [Signedness.lower, Signedness.upper, octet, Nat.pow_eq]
  omega

/-- A payload that is not too long is written as its frame. -/
theorem emits_writeFrame {index : Nat} {payload : List UInt8} (small : index < 256)
    (short : payload.length ≤ maxPayload) :
    (writeFrame o index payload).Emits (frame index payload) := by
  have counted : payload.length < 256 := Nat.lt_succ_of_le short
  rw [writeFrame, if_neg (Nat.not_lt.mpr short)]
  have discriminator := Encoder.emits_word (byte_fits (w := discriminatorWidth) rfl small)
  have length := Encoder.emits_word (byte_fits (w := lengthWidth) rfl counted)
  rw [wordBytes_byte rfl small] at discriminator
  rw [wordBytes_byte rfl counted] at length
  exact discriminator.bind (length.bind (Encoder.emits_write payload))

theorem toBytes_writeFrame {index : Nat} {payload : List UInt8} (small : index < 256) :
    (writeFrame o index payload).toBytes =
      if maxPayload < payload.length then fail (.payloadTooLong o payload.length)
      else .ok (frame index payload) := by
  split
  · rename_i long
    rw [writeFrame, if_pos long, Encoder.toBytes_reject]
  · rename_i short
    exact (emits_writeFrame small (Nat.le_of_not_lt short)).toBytes

/-- The bytes of an instruction are made step by step. -/
theorem encode_opcode (R : Registry) (o : Opcode) (args : Value) :
    R.encode (.opcode o) args = (do
      let i ← R.discriminatorOf (.opcode o)
      let entry ← R.entryAt i
      let payload ← entry.2.encode args
      (writeFrame o i payload).toBytes) := by
  simp only [encode, serialize, serializeAs, Encoder.toBytes_lift_bind]

theorem encode_of_getElem? (indexed : R.Indexed) {index : Nat} {schema : Schema}
    (found : R.table[index]? = some (o, schema)) :
    R.encode (.opcode o) args = (do
      let payload ← schema.encode args
      if maxPayload < payload.length then fail (.payloadTooLong o payload.length)
      else .ok (frame index payload)) := by
  rw [encode_opcode, indexed.discriminatorOf_eq_ok_iff.mpr ⟨schema, found⟩]
  show (R.entryAt index >>= _) = _
  rw [entryAt_eq_ok_iff.mpr found]
  simp only [← toBytes_writeFrame (indexed.lt_of_getElem? found)]
  rfl

theorem Indexed.encode_eq_ok_iff (h : R.Indexed) :
    R.encode (.opcode o) args = .ok data ↔
      ∃ index schema payload, R.table[index]? = some (o, schema) ∧
        schema.encode args = .ok payload ∧ payload.length ≤ maxPayload ∧
        data = frame index payload := by
  simp only [encode_opcode, Except.bind_eq_ok_iff, h.discriminatorOf_eq_ok_iff, entryAt_eq_ok_iff]
  constructor
  · rintro ⟨index, ⟨schema, found⟩, entry, same, payload, encoded, framed⟩
    cases found.symm.trans same
    rw [toBytes_writeFrame (h.lt_of_getElem? found)] at framed
    split at framed
    · exact absurd framed fail_ne_ok
    · rename_i short
      cases framed
      exact ⟨index, schema, payload, found, encoded, Nat.le_of_not_lt short, rfl⟩
  · rintro ⟨index, schema, payload, found, encoded, short, rfl⟩
    exact ⟨index, ⟨schema, found⟩, (o, schema), found, payload, encoded,
      (emits_writeFrame (h.lt_of_getElem? found) short).toBytes⟩

/-- An instruction in the wire form is encoded as its frame. -/
theorem Wire.encode_eq (h : R.WellFormed) (formed : R.Wire i data) :
    R.encode (.opcode i.opcode) i.args = .ok data := by
  obtain ⟨index, schema, payload, found, wire, short, rfl⟩ := formed
  have lawful := h.lawful_of_getElem? found
  have encoded := wire.encode_eq lawful.built
  exact h.encode_eq_ok_iff.mpr ⟨index, schema, payload, found, encoded, short, rfl⟩

/-- Every instruction that is encoded is equal to one in the wire form, with the
same frame. -/
theorem exists_wire_of_encode (h : R.WellFormed) (encoded : R.encode (.opcode o) args = .ok data) :
    ∃ w, R.Agrees ⟨o, args⟩ ⟨o, w⟩ ∧ R.Wire ⟨o, w⟩ data := by
  obtain ⟨index, schema, payload, found, payloadOf, short, rfl⟩ := h.encode_eq_ok_iff.mp encoded
  obtain ⟨w, same, wire⟩ := Schema.exists_wire_of_encode (h.lawful_of_getElem? found) payloadOf
  exact ⟨w, ⟨rfl, schema, List.mem_of_getElem? found, same⟩,
    ⟨index, schema, payload, found, wire, short, rfl⟩⟩

theorem encode_of_ne_opcode {identity : Value} (other : ∀ o, identity ≠ .opcode o) :
    R.encode identity args = fail (.notRegistered R.name identity) := by
  cases identity with
  | opcode o => exact absurd rfl (other o)
  | _ => rfl

theorem encode_eq_ok {identity : Value} (encoded : R.encode identity args = .ok data) :
    ∃ o, identity = .opcode o := by
  by_contra none
  rw [encode_of_ne_opcode (not_exists.mp none)] at encoded
  exact absurd encoded fail_ne_ok

/-! ## Decoding -/

theorem toNat_ofNat {n : Nat} (small : n < 256) : (UInt8.ofNat n).toNat = n :=
  Nat.mod_eq_of_lt small

/-- A frame is two bytes and a payload of the length that the second byte
says. -/
theorem WellFormed.wire_iff (h : R.WellFormed) :
    R.Wire i data ↔
      ∃ (discriminator length : UInt8) (payload : List UInt8) (schema : Schema),
        data = discriminator :: length :: payload ∧ length.toNat = payload.length ∧
          R.table[discriminator.toNat]? = some (i.opcode, schema) ∧
          schema.Wire i.args payload := by
  constructor
  · rintro ⟨index, schema, payload, found, wire, short, rfl⟩
    refine ⟨_, _, payload, schema, rfl, toNat_ofNat (Nat.lt_succ_of_le short), ?_, wire⟩
    rwa [toNat_ofNat (h.lt_of_getElem? found)]
  · rintro ⟨discriminator, length, payload, schema, rfl, counted, found, wire⟩
    refine ⟨discriminator.toNat, schema, payload, found, wire, ?_, ?_⟩
    · rw [← counted]
      exact Nat.le_of_lt_succ length.toNat_lt
    · rw [frame, ← counted, UInt8.ofNat_toNat, UInt8.ofNat_toNat]

/-- Reading one instruction takes its frame from the front. -/
theorem WellFormed.payload_eq_ok_iff (h : R.WellFormed) {discriminator length : UInt8}
    {rest : List UInt8} :
    R.payload discriminator length rest = .ok i ↔
      length.toNat ≤ rest.length ∧
        R.Wire i (discriminator :: length :: rest.take length.toNat) := by
  simp only [payload, Except.bind_eq_ok_iff, entryAt_eq_ok_iff, List.length_take, h.wire_iff]
  constructor
  · rintro ⟨⟨o, schema⟩, found, read⟩
    split at read
    · exact absurd read fail_bind_ne_ok
    · obtain ⟨args, decoded, made⟩ := Except.bind_eq_ok_iff.mp read
      cases made
      have enough : length.toNat ≤ rest.length := by omega
      exact ⟨enough, _, _, _, schema, rfl, (List.length_take_of_le enough).symm, found,
        Schema.decode_eq_ok_iff.mp decoded⟩
  · rintro ⟨enough, _, _, _, schema, same, counted, found, wire⟩
    cases same
    refine ⟨_, found, ?_⟩
    rw [if_neg (by omega), Schema.decode_eq_ok_iff.mpr wire]
    rfl

theorem length_le_of_payload {discriminator length : UInt8} {rest : List UInt8}
    (read : R.payload discriminator length rest = .ok i) : length.toNat ≤ rest.length := by
  rw [payload, Except.bind_eq_ok_iff] at read
  obtain ⟨entry, -, read⟩ := read
  by_cases short : (rest.take length.toNat).length < length.toNat
  · rw [if_pos short] at read
    exact absurd read fail_bind_ne_ok
  · rw [List.length_take] at short
    omega

theorem payload_append {discriminator length : UInt8} {payload : List UInt8}
    (counted : payload.length = length.toNat) (rest : List UInt8) :
    R.payload discriminator length (payload ++ rest) = R.payload discriminator length payload := by
  have whole : payload.take length.toNat = payload := List.take_of_length_le (Nat.le_of_eq counted)
  simp only [Registry.payload, List.take_left' counted, whole, counted, Nat.lt_irrefl, if_false]

/-- What is decoded is read behind two bytes, with nothing left. -/
theorem decode_eq_ok_iff_payload :
    R.decode data = .ok i ↔
      ∃ discriminator length rest, data = discriminator :: length :: rest ∧
        R.payload discriminator length rest = .ok i ∧ rest.drop length.toNat = [] := by
  constructor
  · intro decoded
    match data, decoded with
    | [], failed => exact absurd failed fail_ne_ok
    | [_], failed => exact absurd failed fail_ne_ok
    | discriminator :: length :: rest, decoded =>
        obtain ⟨j, read, ended⟩ := Except.bind_eq_ok_iff.mp decoded
        dsimp only at ended
        split at ended
        · exact absurd ended fail_bind_ne_ok
        · rename_i whole
          cases ended
          exact ⟨discriminator, length, rest, rfl, read, Decidable.not_not.mp whole⟩
  · rintro ⟨discriminator, length, rest, rfl, read, none⟩
    refine Except.bind_eq_ok_iff.mpr ⟨i, read, ?_⟩
    simp only [none, ne_eq, not_true_eq_false, if_false]
    rfl

/-- **Decoding one instruction.** The byte strings that are decoded are the
frames of the instructions that come out. -/
theorem WellFormed.decode_eq_ok_iff (h : R.WellFormed) : R.decode data = .ok i ↔ R.Wire i data := by
  rw [decode_eq_ok_iff_payload]
  constructor
  · rintro ⟨discriminator, length, rest, rfl, read, none⟩
    have wire := (h.payload_eq_ok_iff.mp read).2
    rwa [List.take_of_length_le (List.drop_eq_nil_iff.mp none)] at wire
  · intro wire
    obtain ⟨discriminator, length, payload, schema, rfl, counted, found, formed⟩ :=
      h.wire_iff.mp wire
    have all : payload.take length.toNat = payload := by rw [counted, List.take_length]
    have none : payload.drop length.toNat = [] := by rw [counted, List.drop_length]
    refine ⟨discriminator, length, payload, rfl, ?_, none⟩
    rw [h.payload_eq_ok_iff, all]
    exact ⟨Nat.le_of_eq counted, wire⟩

/-- An instruction has one frame. -/
theorem Wire.data_unique (h : R.WellFormed) {other : List UInt8} (first : R.Wire i data)
    (second : R.Wire i other) : data = other :=
  Except.ok.inj ((first.encode_eq h).symm.trans (second.encode_eq h))

end Registry

end SwapCodec
