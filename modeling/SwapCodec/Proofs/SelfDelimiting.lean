import SwapCodec.Instruction.Schemas
import SwapCodec.Proofs.Schema.Wire

/-!
# Self-delimiting codecs

What is written for a value says by itself where it ends. A type, and in the
same way a schema, is self-delimiting when two things hold. The bytes of every
accepted value are read back as an equal value, and whatever follows them is left
unread. And whatever is read from a stream is an accepted value, and the bytes
taken from the stream are exactly those that are written for it.

Every type is self-delimiting (`ArgType.selfDelimiting`), and so is every schema
that was built for its record type (`Schema.IsBuilt.selfDelimiting`).
-/

set_option autoImplicit false

namespace SwapCodec

/-- Values are read back from what is written for them, and nothing else is
read. -/
structure ArgType.SelfDelimiting (T : ArgType) : Prop where
  /-- An accepted value is written, and an equal value is read from its bytes. -/
  reads_written : ∀ v, T.check v = .ok () →
    ∃ w data, v.Agrees w ∧ T.toBytes v = .ok data ∧
      ∀ suffix, T.deserialize { rest := data ++ suffix } = (.ok w, { rest := suffix })
  /-- A value that is read is accepted, and the bytes taken are those written for
  it. -/
  writes_read : ∀ r next v, T.deserialize r = (.ok v, next) →
    T.check v = .ok () ∧
      ∃ data, T.toBytes v = .ok data ∧ r.rest = data ++ next.rest ∧ next.closed = r.closed

/-- Records are read back from what is written for them, and nothing else is
read. The relation has to accept the record that comes back, which is equal to
the one that was written; a relation that respects equality always does. -/
structure Schema.SelfDelimiting (s : Schema) : Prop where
  /-- An accepted record is written, and an equal record is read from its
  bytes. -/
  reads_written : ∀ args, s.check args = .ok () →
    ∃ w data, s.record.Agrees args w ∧ (s.serialize args).toBytes = .ok data ∧
      (s.RespectsAgreement → s.check w = .ok ()) ∧
      (s.check w = .ok () →
        ∀ suffix, s.deserialize { rest := data ++ suffix } = (.ok w, { rest := suffix }))
  /-- A record that is read is accepted, and the bytes taken are those written for
  it. -/
  writes_read : ∀ r next args, s.deserialize r = (.ok args, next) →
    s.check args = .ok () ∧
      ∃ data, (s.serialize args).toBytes = .ok data ∧ r.rest = data ++ next.rest ∧
        next.closed = r.closed

theorem ArgType.selfDelimiting (T : ArgType) : T.SelfDelimiting where
  reads_written v checked := by
    obtain ⟨w, data, same, formed, emitted⟩ := exists_wire_of_check checked
    have written := (emits_serialize checked emitted).toBytes
    exact ⟨w, data, same, written, T.deserialize_parses.reads formed⟩
  writes_read r next v taken := by
    obtain ⟨data, formed, parted, closed⟩ := T.deserialize_parses.takes taken
    have checked := formed.check_eq_ok
    exact ⟨checked, data, (emits_serialize checked formed.emits).toBytes, parted, closed⟩

theorem Schema.IsBuilt.selfDelimiting {s : Schema} (built : s.IsBuilt) : s.SelfDelimiting where
  reads_written args checked := by
    obtain ⟨given, accepted⟩ := check_eq_ok_iff.mp checked
    obtain ⟨fields, data, formed, emitted, agree⟩ := exists_fieldsWire_of_accept built accepted
    obtain ⟨rfl, _, related⟩ := accept_eq_ok_iff.mp accepted
    refine ⟨s.recordOf fields, data, ⟨given, _, rfl, rfl, agree⟩, emitted.toBytes, ?_, ?_⟩
    · intro respects
      have wire : s.Wire (s.recordOf fields) data :=
        ⟨fields, formed, (respects _ _ agree).mp related, rfl⟩
      exact wire.check_eq_ok built
    -- What comes back has the fields that were written, so only its relation is left open.
    · intro checkedBack
      obtain ⟨back, acceptedBack⟩ := check_eq_ok_iff.mp checkedBack
      obtain ⟨shape, _, relatedBack⟩ := accept_eq_ok_iff.mp acceptedBack
      cases shape
      exact s.deserialize_parses.reads ⟨fields, formed, relatedBack, rfl⟩
  writes_read r next args taken := by
    obtain ⟨data, formed, parted, closed⟩ := s.deserialize_parses.takes taken
    exact ⟨formed.check_eq_ok built, data, (formed.emits built).toBytes, parted, closed⟩

/-- **Self-delimiting codecs.** Every type of arguments is self-delimiting, nested
to any depth, and so is every schema that was built. -/
theorem codecs_selfDelimiting :
    (∀ T : ArgType, T.SelfDelimiting) ∧ ∀ s : Schema, s.IsBuilt → s.SelfDelimiting :=
  ⟨ArgType.selfDelimiting, fun _ built => built.selfDelimiting⟩

/-- One token with its balance. -/
def oneBalance : Value :=
  .args "BalancesArgs"
    [("tokens", .tuple [.bytes (List.replicate 20 7)]), ("balances", .tuple [.int 5])]

theorem codecs_selfDelimiting_oneBalance :
    Schema.balances.IsBuilt ∧ Schema.balances.check oneBalance = .ok () ∧
      ∃ w data, Schema.balances.record.Agrees oneBalance w ∧
        (Schema.balances.serialize oneBalance).toBytes = .ok data ∧
        (Schema.balances.RespectsAgreement → Schema.balances.check w = .ok ()) ∧
        (Schema.balances.check w = .ok () → ∀ suffix,
          Schema.balances.deserialize { rest := data ++ suffix } = (.ok w, { rest := suffix })) :=
  have built : Schema.balances.IsBuilt := by decide
  have checked : Schema.balances.check oneBalance = .ok () := by rfl
  ⟨built, checked, (codecs_selfDelimiting.2 .balances built).reads_written oneBalance checked⟩

end SwapCodec
