import SwapCodec.Proofs.Program.Wire
import SwapCodec.Proofs.Published

/-!
# Decoding any bytes

A registry is narrow when its schemas are. In a narrow registry, decoding any
byte string gives a result, a decode error or an unknown opcode, and nothing else
(`Registry.Narrow.decodeFrom_outcome`). For a single instruction the bytes say
which it is: too few bytes are a decode error, an unassigned discriminator is an
unknown opcode, and with an assigned one either the bytes are the frame of an
instruction or there is a decode error.

The published registries are narrow (`Registry.ofSet_narrow`).
-/

set_option autoImplicit false

namespace SwapCodec

namespace Registry

/-- The schemas of the registry are narrow. -/
def Narrow (R : Registry) : Prop := ∀ entry ∈ R.table, entry.2.Narrow

variable {R : Registry} {discriminator length : UInt8} {rest : List UInt8} {o : Opcode}
  {schema : Schema}

/-! ## One instruction -/

theorem payload_of_unassigned (unassigned : R.size ≤ discriminator.toNat) :
    FailsWith (R.payload discriminator length rest) .unknownOpcode := by
  have missing : R.table[discriminator.toNat]? = none := List.getElem?_eq_none unassigned
  have entry : FailsWith (R.entryAt discriminator.toNat) .unknownOpcode := by
    have small : ((discriminator.toNat : Int)).natAbs < Text.tooLong :=
      Nat.lt_of_lt_of_le (Nat.lt_trans discriminator.toNat_lt (by decide +kernel))
        Text.two_pow_256_le_tooLong
    have quoted : (Value.int discriminator.toNat).plain?.isSome = true := by
      simpa [Value.plain?, Value.quoted?] using Text.isSome_decimal? small
    rw [entryAt, missing]
    exact failsWith_fail (Option.isSome_map.trans quoted)
  exact entry.bind _

theorem Narrow.payload_or_failsWith (narrow : R.Narrow)
    (found : R.table[discriminator.toNat]? = some (o, schema)) :
    (∃ i, R.payload discriminator length rest = .ok i) ∨
      FailsWith (R.payload discriminator length rest) .decode := by
  have entry : R.entryAt discriminator.toNat = .ok (o, schema) := entryAt_eq_ok_iff.mpr found
  have outcome := (narrow _ (List.mem_of_getElem? found)).decode_or_failsWith
    (rest.take length.toNat)
  simp only [payload, entry, bind, Except.bind]
  split
  · exact .inr (failsWith_fail rfl)
  · rcases outcome with ⟨args, decoded⟩ | failed
    · exact .inl ⟨⟨o, args⟩, by rw [decoded]; rfl⟩
    · exact .inr (failed.bind _)

/-- Reading an instruction gives it, or fails in one of two ways. -/
theorem Narrow.payload_outcome (narrow : R.Narrow) :
    (∃ i, R.payload discriminator length rest = .ok i) ∨
      FailsWith (R.payload discriminator length rest) .decode ∨
      FailsWith (R.payload discriminator length rest) .unknownOpcode := by
  rcases Nat.lt_or_ge discriminator.toNat R.size with assigned | unassigned
  · rcases narrow.payload_or_failsWith (List.getElem?_eq_getElem assigned) with read | failed
    · exact .inl read
    · exact .inr (.inl failed)
  · exact .inr (.inr (payload_of_unassigned unassigned))

theorem decode_of_short {data : List UInt8} (short : data.length < 2) :
    FailsWith (R.decode data) .decode := by
  match data, short with
  | [], _ => exact failsWith_fail rfl
  | [_], _ => exact failsWith_fail rfl

theorem decode_of_unassigned (unassigned : R.size ≤ discriminator.toNat) :
    FailsWith (R.decode (discriminator :: length :: rest)) .unknownOpcode :=
  (payload_of_unassigned unassigned).bind _

theorem Narrow.decode_or_failsWith (narrow : R.Narrow)
    (found : R.table[discriminator.toNat]? = some (o, schema)) :
    (∃ i, R.decode (discriminator :: length :: rest) = .ok i) ∨
      FailsWith (R.decode (discriminator :: length :: rest)) .decode := by
  rcases narrow.payload_or_failsWith found with ⟨i, read⟩ | failed
  · by_cases whole : rest.drop length.toNat = []
    · refine .inl ⟨i, Except.bind_eq_ok_iff.mpr ⟨i, read, ?_⟩⟩
      simp only [whole, ne_eq, not_true_eq_false, if_false]
      rfl
    · have refused : R.decode (discriminator :: length :: rest) =
          fail (.trailingBytes i.opcode (rest.drop length.toNat).length) := by
        rw [decode, read]
        show (if rest.drop length.toNat ≠ [] then _ else _) = _
        rw [if_pos whole]
        rfl
      rw [refused]
      exact .inr (failsWith_fail rfl)
  · exact .inr (failed.bind _)

theorem Narrow.decode_unknown_iff (narrow : R.Narrow) :
    FailsWith (R.decode (discriminator :: length :: rest)) .unknownOpcode ↔
      R.size ≤ discriminator.toNat := by
  refine ⟨fun unknown => ?_, decode_of_unassigned⟩
  rcases Nat.lt_or_ge discriminator.toNat R.size with assigned | unassigned
  · obtain ⟨e, failed, kind, _⟩ := unknown
    rcases narrow.decode_or_failsWith (List.getElem?_eq_getElem assigned) with
      ⟨i, decoded⟩ | ⟨e', failed', kind', _⟩
    · cases decoded.symm.trans failed
    · cases failed'.symm.trans failed
      cases kind'.symm.trans kind
  · exact unassigned

/-- With an assigned discriminator, the bytes are those of an instruction when the
length is right and the payload is encoded from some arguments. -/
theorem WellFormed.isInstruction_iff (h : R.WellFormed)
    (found : R.table[discriminator.toNat]? = some (o, schema)) :
    (∃ i, R.decode (discriminator :: length :: rest) = .ok i) ↔
      length.toNat = rest.length ∧ ∃ args, schema.encode args = .ok rest := by
  have lawful := h.lawful_of_getElem? found
  simp only [h.decode_eq_ok_iff, h.wire_iff]
  constructor
  · rintro ⟨i, _, _, _, other, same, counted, found', wire⟩
    cases same
    cases found.symm.trans found'
    exact ⟨counted, i.args, wire.encode_eq lawful.built⟩
  · rintro ⟨counted, args, encoded⟩
    obtain ⟨w, _, wire⟩ := Schema.exists_wire_of_encode lawful encoded
    exact ⟨⟨o, w⟩, _, _, _, schema, rfl, counted, found, wire⟩

/-! ## Programs -/

theorem failsWith_locate_decode {α : Type} {pc : Nat} {x : Except Error α}
    (h : FailsWith x .decode) : FailsWith (locate pc x) .decode := by
  obtain ⟨e, rfl, kind, worded⟩ := h
  rw [locate, if_pos kind]
  exact failsWith_fail (Option.isSome_map.trans worded)

theorem failsWith_locate_unknown {α : Type} {pc : Nat} {x : Except Error α}
    (h : FailsWith x .unknownOpcode) : FailsWith (locate pc x) .unknownOpcode := by
  obtain ⟨e, rfl, kind, worded⟩ := h
  have other : e.kind ≠ .decode := by
    rw [kind]
    decide
  rw [locate, if_neg other]
  exact ⟨e, rfl, kind, worded⟩

/-- Decoding from an offset on gives instructions, or fails in one of two ways. -/
theorem Narrow.decodeFrom_outcome (narrow : R.Narrow) (pc : Nat) (done : Array Instruction)
    (data : List UInt8) :
    (∃ L, R.decodeFrom pc done data = .ok L) ∨
      FailsWith (R.decodeFrom pc done data) .decode ∨
      FailsWith (R.decodeFrom pc done data) .unknownOpcode := by
  induction pc, done, data using decodeFrom.induct (R := R) with
  | case1 pc done => exact .inl ⟨done.toList, by rw [decodeFrom]⟩
  | case2 pc done b =>
      rw [decodeFrom]
      exact .inr (.inl (failsWith_locate_decode (failsWith_fail rfl)))
  | case3 pc done discriminator length rest e failed =>
      rw [decodeFrom, failed]
      -- The offset is added to a decode error and leaves an unknown opcode as it is.
      rcases narrow.payload_outcome with ⟨i, read⟩ | malformed | unknown
      · cases failed.symm.trans (locate_eq_ok_iff.mpr read)
      · have located : FailsWith (.error e) .decode := failed ▸ failsWith_locate_decode malformed
        exact .inr (.inl located.error)
      · have located : FailsWith (.error e) .unknownOpcode :=
          failed ▸ failsWith_locate_unknown unknown
        exact .inr (.inr located.error)
  | case4 pc done discriminator length rest i read ih =>
      rw [decodeFrom, read]
      exact ih

/-- A program within its limit is decoded to at most one instruction for every two
bytes, or refused in one of two ways. -/
theorem Narrow.decodeProgram_outcome (narrow : R.Narrow) (h : R.WellFormed) {data : List UInt8}
    {limit : Int} (enough : (data.length : Int) ≤ limit) :
    (∃ L, R.decodeProgram data limit = .ok L ∧ 2 * L.length ≤ data.length) ∨
      FailsWith (R.decodeProgram data limit) .decode ∨
      FailsWith (R.decodeProgram data limit) .unknownOpcode := by
  have started : R.decodeProgram data limit = R.decodeFrom 0 #[] data := by
    rw [decodeProgram, if_neg (Int.not_lt.mpr enough)]
  rcases narrow.decodeFrom_outcome 0 #[] data with ⟨L, decoded⟩ | failed
  · have wire := (h.decodeProgram_eq_ok_iff.mp (started.trans decoded)).2
    exact .inl ⟨L, started.trans decoded, programWire_length h wire⟩
  · rw [started]
    exact .inr failed

theorem ofSet_narrow (set : OpcodeSet) : (ofSet set).Narrow := by
  intro entry mem
  obtain ⟨o, _, rfl⟩ := List.mem_map.mp mem
  exact o.schema_narrow

end Registry

/-- **Total decoding.** In a published registry every byte string is decoded or
refused with a decode error or an unknown opcode, unless it is longer than a limit
without a numeral.

A program that is decoded has at most one instruction for every two bytes. A
program that is longer than its limit is refused with a decode error if the limit has
a numeral. The message quotes it, so where it has none no decode error is reported.

A single instruction of fewer than two bytes is a decode error. Otherwise it is
an unknown opcode exactly if its first byte is not below the size of the table,
it is decoded exactly if its second byte counts the rest and the rest is encoded
from some arguments of the opcode, and it is a decode error in every other
case. -/
theorem decoding_total (set : OpcodeSet) (data : List UInt8) :
    let R := Registry.ofSet set
    (∀ limit : Int,
      (limit < data.length →
        R.decodeProgram data limit = fail (.overlongProgram data.length limit) ∧
          ((Text.decimal? limit).isSome = true →
            FailsWith (R.decodeProgram data limit) .decode) ∧
          (Text.decimal? limit = none →
            R.decodeProgram data limit = .error .numeralTooLong)) ∧
      ((data.length : Int) ≤ limit →
        (∃ L, R.decodeProgram data limit = .ok L ∧ 2 * L.length ≤ data.length) ∨
          FailsWith (R.decodeProgram data limit) .decode ∨
          FailsWith (R.decodeProgram data limit) .unknownOpcode)) ∧
    (data.length < 2 → FailsWith (R.decode data) .decode) ∧
    ∀ discriminator length rest, data = discriminator :: length :: rest →
      (FailsWith (R.decode data) .unknownOpcode ↔ R.size ≤ discriminator.toNat) ∧
      (discriminator.toNat < R.size →
        ∃ o schema, R.table[discriminator.toNat]? = some (o, schema) ∧
          ((∃ i, R.decode data = .ok i) ↔
            length.toNat = rest.length ∧ ∃ args, schema.encode args = .ok rest) ∧
          ((∃ i, R.decode data = .ok i) ∨ FailsWith (R.decode data) .decode)) := by
  intro R
  have wellFormed : R.WellFormed := (Registry.ofSet_reachable set).wellFormed
  have narrow : R.Narrow := Registry.ofSet_narrow set
  refine ⟨fun limit => ⟨fun long => ?_, narrow.decodeProgram_outcome wellFormed⟩,
    Registry.decode_of_short, ?_⟩
  · have refused : R.decodeProgram data limit = fail (.overlongProgram data.length limit) :=
      Registry.decodeProgram_eq_fail long
    refine ⟨refused, fun numeral => ?_, fun long => ?_⟩ <;> rw [refused]
    · exact Registry.failsWith_overlongProgram numeral
    · exact Registry.fail_overlongProgram_of_long long
  · rintro discriminator length rest rfl
    refine ⟨narrow.decode_unknown_iff, fun assigned => ?_⟩
    have found := List.getElem?_eq_getElem assigned
    exact ⟨_, _, found, wellFormed.isInstruction_iff found, narrow.decode_or_failsWith found⟩

/-- The empty byte string is refused in neither way if it is longer than a limit without a
numeral. -/
theorem empty_program_not_refused :
    let outcome := (Registry.ofSet .swapVm).decodeProgram [] Text.unspelled
    outcome = .error .numeralTooLong ∧ (∀ L, outcome ≠ .ok L) ∧
      ¬FailsWith outcome .decode ∧ ¬FailsWith outcome .unknownOpcode := by
  intro outcome
  have long : Text.unspelled < ([] : List UInt8).length := Text.unspelled_neg
  have escaped : outcome = .error .numeralTooLong := by
    show (Registry.ofSet .swapVm).decodeProgram [] Text.unspelled = _
    rw [Registry.decodeProgram_eq_fail long,
      Registry.fail_overlongProgram_of_long Text.decimal?_unspelled]
  refine ⟨escaped, fun L decoded => ?_, fun refused => ?_, fun refused => ?_⟩
  · cases escaped.symm.trans decoded
  · cases refused.kind_eq escaped
  · cases refused.kind_eq escaped

theorem decoding_total_jump :
    let R := Registry.ofSet .swapVm
    FailsWith (R.decodeProgram [0, 2, 0, 3] 3) .decode ∧
      (∃ i, R.decode [0, 2, 0, 3] = .ok i) ∧
      FailsWith (R.decode [0]) .decode ∧
      FailsWith (R.decode [23, 0]) .unknownOpcode := by
  intro R
  obtain ⟨programs, _, single⟩ := decoding_total .swapVm [0, 2, 0, 3]
  obtain ⟨o, schema, found, accepted, _⟩ := (single 0 2 [0, 3] rfl).2 (by decide)
  obtain ⟨_, short, _⟩ := decoding_total .swapVm [0]
  obtain ⟨_, _, unknown⟩ := decoding_total .swapVm [23, 0]
  have jump : (o, schema) = (.jump, .jump) := Option.some.inj (found.symm.trans rfl)
  cases jump
  refine ⟨((programs 3).1 (by decide)).2.1 (by decide +kernel), accepted.mpr ⟨rfl, ?_⟩,
    short (by decide), (unknown 23 0 [] rfl).1.mpr (by decide)⟩
  exact ⟨.args "JumpArgs" [("next_pc", .int 3)], rfl⟩

end SwapCodec
