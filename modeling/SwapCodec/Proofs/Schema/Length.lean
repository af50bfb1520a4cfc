import SwapCodec.Proofs.Auction.Decoded
import SwapCodec.Proofs.Schema.Flaws

/-!
# Lengths of payloads

The size that a type declares is the size of its values on the wire, and only arrays
declare none (`ArgType.Wire.length_eq`, `ArgType.fixedSize?_eq_none_iff`). An array takes
at least the bytes of its count (`ArgType.Wire.countSize_le`).

So the fixed length of a schema is the length of every payload, written or read, and a
schema has none exactly if one of its fields is an array
(`Schema.fixedLengthOf?_eq_none_iff`). A payload has at least the bytes of the fields of a
fixed size and of the counts of the others (`Schema.FieldsWire.leastLength_le`).

Decoding looks at the length before it reads. What it accepts does not depend on this:
reading field by field comes to the same (`Schema.decodeFieldwise_eq_ok_iff`).
-/

set_option autoImplicit false

namespace SwapCodec

/-! ## Types -/

namespace ArgType

/-- How many bytes the count in front of an array takes. -/
def countSize : Nat := 2

variable {T inner : ArgType} {v : Value} {data : List UInt8}

theorem fixedSize?_eq_none_iff : T.fixedSize? = none ↔ ∃ inner, T = .array inner := by
  cases T with
  | array inner => exact iff_of_true rfl ⟨inner, rfl⟩
  | _ => simp [fixedSize?]

theorem length_count (n : Int) : (wordBytes countWidth n).length = countSize :=
  length_wordBytes countWidth n

/-- An array of values of a fixed size takes its count and as many bytes for each element. -/
theorem Wire.length_array {size : Nat} (h : (array inner).Wire v data)
    (fixed : inner.fixedSize? = some size) : data.length = countSize + size * v.size := by
  obtain ⟨items, parts, rfl, few, forms, rfl⟩ := h
  rw [List.length_append, length_count, Value.size]
  congr 1
  clear few
  induction forms with
  | nil => rfl
  | cons first _ ih =>
      rw [List.flatten_cons, List.length_append, first.length_eq fixed, ih, List.length_cons,
        Nat.mul_succ, Nat.add_comm]

theorem Wire.countSize_le (h : (array inner).Wire v data) : countSize ≤ data.length := by
  obtain ⟨items, parts, -, -, -, rfl⟩ := h
  rw [List.length_append, length_count]
  exact Nat.le_add_right _ _

/-- A value takes the size of its type, or at least the bytes of a count. -/
theorem Wire.size_le (h : T.Wire v data) : T.fixedSize?.getD countSize ≤ data.length := by
  cases fixed : T.fixedSize? with
  | some size => exact Nat.le_of_eq (h.length_eq fixed).symm
  | none =>
      obtain ⟨inner, rfl⟩ := fixedSize?_eq_none_iff.mp fixed
      exact h.countSize_le

end ArgType

namespace Schema

variable {s : Schema} {entries : List (String × ArgType)} {fields : Fields} {args : Value}
  {data : List UInt8}

/-! ## Schemas -/

theorem fixedLengthOf?_eq_none_iff :
    fixedLengthOf? entries = none ↔ ∃ name inner, (name, .array inner) ∈ entries := by
  induction entries with
  | nil => simp [fixedLengthOf?]
  | cons entry entries ih =>
      obtain ⟨name, T⟩ := entry
      rw [fixedLengthOf?]
      cases fixed : T.fixedSize? with
      | none =>
          obtain ⟨inner, rfl⟩ := ArgType.fixedSize?_eq_none_iff.mp fixed
          exact iff_of_true rfl ⟨name, inner, List.mem_cons_self⟩
      | some size =>
          -- The first entry is no array, so it is left to the others.
          have solid : ∀ inner, T ≠ .array inner := by
            rintro inner rfl
            cases fixed
          have others : (∃ n inner, (n, ArgType.array inner) ∈ (name, T) :: entries) ↔
              ∃ n inner, (n, ArgType.array inner) ∈ entries := by
            simp [fun inner => (solid inner).symm]
          rw [others, ← ih]
          cases fixedLengthOf? entries <;> simp

/-- The bytes of the fields of a fixed size and of the counts of the arrays. -/
def leastLength (entries : List (String × ArgType)) : Nat :=
  (entries.filterMap fun entry => entry.2.fixedSize?).sum +
    ArgType.countSize * entries.countP fun entry => entry.2.fixedSize?.isNone

theorem leastLength_cons (entry : String × ArgType) (entries : List (String × ArgType)) :
    leastLength (entry :: entries) =
      entry.2.fixedSize?.getD ArgType.countSize + leastLength entries := by
  rw [leastLength, leastLength, List.countP_cons, List.filterMap_cons]
  cases entry.2.fixedSize? with
  | none =>
      rw [Option.getD_none, Option.isNone_none, if_pos rfl, Nat.mul_succ]
      dsimp only
      omega
  | some size =>
      rw [Option.getD_some, Option.isNone_some, if_neg Bool.false_ne_true, List.sum_cons,
        Nat.add_zero, Nat.add_assoc]

theorem FieldsWire.leastLength_le (h : FieldsWire entries fields data) :
    leastLength entries ≤ data.length := by
  induction entries generalizing fields data with
  | nil => exact Nat.zero_le _
  | cons entry entries ih =>
      obtain ⟨v, rest, first, second, -, formed, others, rfl⟩ := h
      rw [leastLength_cons, List.length_append]
      exact Nat.add_le_add formed.size_le (ih others)

/-! ## Encoding -/

/-- What is accepted is encoded, as the wire form of fields that are equal to the given ones. -/
theorem exists_encode_of_accept {given : Fields} (accepted : s.accept args = .ok given) :
    ∃ fields data, s.encode args = .ok data ∧ FieldsWire s.entries fields data ∧
      ∀ field ∈ fields, ((fieldOf? field.1 given).getD .null).Agrees field.2 := by
  obtain ⟨-, checked, -⟩ := accept_eq_ok_iff.mp accepted
  obtain ⟨fields, data, formed, emitted, agree⟩ := exists_fieldsWire_of_check checked
  exact ⟨fields, data, encode_eq_of_emits (emits_serialize accepted emitted), formed, agree⟩

theorem exists_fieldsWire_of_encode (encoded : s.encode args = .ok data) :
    ∃ fields, FieldsWire s.entries fields data := by
  obtain ⟨given, accepted⟩ := check_eq_ok_iff.mp (check_of_encode encoded)
  obtain ⟨fields, bytes, written, formed, -⟩ := exists_encode_of_accept accepted
  cases written.symm.trans encoded
  exact ⟨fields, formed⟩

/-! ## Decoding -/

/-- The record that a byte string holds, read field by field without looking at the length of the
byte string first. -/
def decodeFieldwise (s : Schema) (data : List UInt8) : Except Error Value :=
  match s.deserialize.run data with
  | .ok args => .ok args
  | .error e =>
    if e.kind = .decode then .error e
    else if e.kind.isStreamKind || e.kind.isProgramKind then
      fail (.undecodableArguments s.record.name e)
    else .error e

/-- Decoding is reading field by field behind a look at the length. -/
theorem decode_eq (s : Schema) (data : List UInt8) :
    s.decode data = if s.isShort data then fail (.shortPayload s.record.name)
      else s.decodeFieldwise data := rfl

/-- Nothing that is read field by field is short. -/
theorem decodeFieldwise_eq_ok_iff :
    s.decodeFieldwise data = .ok args ↔ s.decode data = .ok args := by
  constructor
  · intro read
    have ran : s.deserialize.run data = .ok args := by
      rw [decodeFieldwise] at read
      split at read
      · rwa [← read]
      · repeat' split at read
        all_goals cases read
    exact decode_eq_ok_iff.mpr (s.deserialize_parses.run_eq_ok_iff.mp ran)
  · intro decoded
    have long := (decode_eq_ok_iff.mp decoded).isShort_eq_false
    rwa [decode_eq, long, if_neg Bool.false_ne_true] at decoded

theorem length_of_decode {size : Nat} (fixed : s.fixedLength? = some size)
    (decoded : s.decode data = .ok args) : data.length = size := by
  obtain ⟨fields, formed, -⟩ := decode_eq_ok_iff.mp decoded
  exact formed.length_eq fixed

theorem failsWith_decode_of_short {size : Nat} (fixed : s.fixedLength? = some size)
    (short : data.length < size) : FailsWith (s.decode data) .decode := by
  rw [decode_eq, isShort, fixed, if_pos (decide_eq_true short)]
  exact failsWith_fail rfl

end Schema

/-- **Fixed lengths.** A schema has a fixed length unless one of its fields is an array. Then
every payload that is encoded has this length, and a byte string of any other length is not
decoded: it is a decode error if it is shorter, and also if it is longer and the schema is a
narrow one.

The look at the length decides nothing: the same byte strings hold the same records without
it. Where there is no fixed length, a payload has at least the bytes of the fields that have a
size and two more for each array. -/
theorem fixed_length_exact (s : Schema) :
    (s.fixedLength? = none ↔ ∃ name inner, (name, .array inner) ∈ s.entries) ∧
      (∀ size, s.fixedLength? = some size →
        (∀ args data, s.encode args = .ok data → data.length = size) ∧
          ∀ data, data.length ≠ size → (∃ e, s.decode data = .error e) ∧
            (data.length < size ∨ s.Narrow → FailsWith (s.decode data) .decode)) ∧
      (∀ data args, s.decode data = .ok args ↔ s.decodeFieldwise data = .ok args) ∧
      (s.fixedLength? = none → ∀ args data, s.encode args = .ok data →
        (s.entries.filterMap fun entry => entry.2.fixedSize?).sum +
          2 * (s.entries.countP fun entry => entry.2.fixedSize?.isNone) ≤ data.length) := by
  refine ⟨Schema.fixedLengthOf?_eq_none_iff, fun size fixed => ⟨?_, fun data other => ?_⟩,
    fun data args => Schema.decodeFieldwise_eq_ok_iff.symm, ?_⟩
  · intro args data encoded
    obtain ⟨fields, formed⟩ := Schema.exists_fieldsWire_of_encode encoded
    exact formed.length_eq fixed
  · have undecoded : ∀ args, s.decode data ≠ .ok args := by
      intro args decoded
      exact other (Schema.length_of_decode fixed decoded)
    constructor
    · cases outcome : s.decode data with
      | ok args => exact absurd outcome (undecoded args)
      | error e => exact ⟨e, rfl⟩
    · rintro (short | narrow)
      · exact Schema.failsWith_decode_of_short fixed short
      · rcases narrow.decode_or_failsWith data with ⟨args, decoded⟩ | failed
        · exact absurd decoded (undecoded args)
        · exact failed
  · intro _ args data encoded
    obtain ⟨fields, formed⟩ := Schema.exists_fieldsWire_of_encode encoded
    exact formed.leastLength_le

/-- A frame of an auction holds 73 bytes, and no other length will do; two tokens with their
balances take more than the two counts. -/
theorem fixed_length_exact_auction :
    let auction : Value := Auction.toArgs ⟨5, 8, 100, 10⟩
    let pair : Value := .args "BalancesArgs"
      [("tokens", .tuple [.bytes (List.replicate 20 1)]), ("balances", .tuple [.int 7])]
    (∃ data, Schema.dutchAuction.encode auction = .ok data ∧ data.length = 73) ∧
      FailsWith (Schema.dutchAuction.decode (List.replicate 74 1)) .decode ∧
      ∃ data, Schema.balances.encode pair = .ok data ∧ 4 ≤ data.length := by
  intro auction pair
  obtain ⟨-, fixed, -, -⟩ := fixed_length_exact .dutchAuction
  obtain ⟨encoded, refused⟩ := fixed 73 (by decide)
  obtain ⟨-, -, -, counted⟩ := fixed_length_exact .balances
  have narrow : Schema.dutchAuction.Narrow := Opcode.schema_narrow .dutchAuctionBalanceIn1D
  refine ⟨?_, (refused _ (by decide)).2 (.inr narrow), ?_⟩
  · obtain ⟨data, written⟩ : ∃ data, Schema.dutchAuction.encode auction = .ok data := ⟨_, rfl⟩
    exact ⟨data, written, encoded _ _ written⟩
  · obtain ⟨data, written⟩ : ∃ data, Schema.balances.encode pair = .ok data := ⟨_, rfl⟩
    exact ⟨data, written, counted (by decide) _ _ written⟩

end SwapCodec
