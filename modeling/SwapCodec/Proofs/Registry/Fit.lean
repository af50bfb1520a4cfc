import SwapCodec.Proofs.Program.Transfer
import SwapCodec.Proofs.Registry.Tables
import SwapCodec.Proofs.Schema.Length

/-!
# What fits into a frame

Two lengths are written when an instruction is encoded. An array opens with the number of
its elements, which takes two bytes, and a frame with the length of the payload, which takes
one. So a registry encodes what the schema encodes, as long as the payload has at most 255
bytes (`Registry.Indexed.encode_iff`).

A published schema without arrays never comes near this (`Opcode.fixedLength?_le`), and
there is one schema with arrays, that of balances (`Opcode.eq_of_unfixed`). It takes any
number of pairs that an array can hold (`Schema.encode_balancesOf_iff`), each of them in 52
bytes (`Schema.length_of_encode_balancesOf`), and four pairs are the most that fit.
-/

set_option autoImplicit false

namespace SwapCodec

/-! ## Frames -/

namespace Registry

variable {R : Registry} {o : Opcode} {identity args : Value} {data : List UInt8}

/-- A frame is two bytes, the discriminator and the length of the payload, and the payload. -/
theorem frame_iff {index : Nat} {payload : List UInt8} (small : index < 256)
    (short : payload.length ≤ maxPayload) :
    data = frame index payload ↔
      ∃ discriminator length : UInt8, discriminator.toNat = index ∧
        length.toNat = payload.length ∧ data = discriminator :: length :: payload := by
  constructor
  · rintro rfl
    exact ⟨_, _, toNat_ofNat small, toNat_ofNat (Nat.lt_succ_of_le short), rfl⟩
  · rintro ⟨discriminator, length, rfl, counted, rfl⟩
    rw [frame, ← counted, UInt8.ofNat_toNat, UInt8.ofNat_toNat]

/-- **Encoding one instruction.** What a registry encodes is what the schema of the identity
encodes in at most 255 bytes. -/
theorem Indexed.encode_iff (h : R.Indexed) :
    R.encode identity args = .ok data ↔
      ∃ (index : Nat) (schema : Schema) (payload : List UInt8) (discriminator length : UInt8),
        R.discriminatorOf identity = .ok index ∧ R.resolve identity = .ok schema ∧
          schema.encode args = .ok payload ∧ payload.length ≤ maxPayload ∧
          discriminator.toNat = index ∧ length.toNat = payload.length ∧
          data = discriminator :: length :: payload := by
  constructor
  · intro encoded
    obtain ⟨o, rfl⟩ := encode_eq_ok encoded
    obtain ⟨index, schema, payload, found, written, short, framed⟩ :=
      h.encode_eq_ok_iff.mp encoded
    obtain ⟨discriminator, length, same, counted, whole⟩ :=
      (frame_iff (h.lt_of_getElem? found) short).mp framed
    exact ⟨index, schema, payload, discriminator, length,
      h.discriminatorOf_eq_ok_iff.mpr ⟨schema, found⟩, h.resolve_iff.mpr ⟨o, index, rfl, found⟩,
      written, short, same, counted, whole⟩
  · rintro ⟨index, schema, payload, discriminator, length, placed, resolved, written, short, same,
      counted, whole⟩
    obtain ⟨o, place, rfl, found⟩ := h.resolve_iff.mp resolved
    -- The opcode is at one place, so this is the one that its discriminator leads to.
    obtain ⟨_, here⟩ := h.discriminatorOf_eq_ok_iff.mp placed
    have there := h.discriminatorOf_eq_ok_iff.mpr ⟨schema, found⟩
    cases there.symm.trans placed
    refine h.encode_eq_ok_iff.mpr ⟨index, schema, payload, found, written, short, ?_⟩
    exact (frame_iff (h.lt_of_getElem? found) short).mpr
      ⟨discriminator, length, same, counted, whole⟩

end Registry

/-! ## Schemas without arrays -/

namespace Opcode

variable {o : Opcode}

/-- The longest payload of a fixed length is that of an auction. -/
theorem fixedLength?_le {size : Nat} (fixed : o.schema.fixedLength? = some size) : size ≤ 73 := by
  have bounded : ∀ n ∈ o.schema.fixedLength?, n ≤ 73 := by
    cases o <;> decide
  exact bounded size fixed

theorem eq_of_unfixed (unfixed : o.schema.fixedLength? = none) :
    o = .staticBalancesXD ∨ o = .dynamicBalancesXD := by
  revert unfixed
  cases o <;> decide

/-- Only balances can be too long for a frame. -/
theorem eq_of_long {args : Value} {payload : List UInt8}
    (written : o.schema.encode args = .ok payload) (long : maxPayload < payload.length) :
    o = .staticBalancesXD ∨ o = .dynamicBalancesXD := by
  refine eq_of_unfixed (Option.eq_none_iff_forall_ne_some.mpr fun size fixed => ?_)
  obtain ⟨fields, formed⟩ := Schema.exists_fieldsWire_of_encode written
  have sized : payload.length = size := formed.length_eq fixed
  have small := fixedLength?_le fixed
  rw [maxPayload] at long
  omega

end Opcode

/-! ## Balances -/

/-- A tuple of valid elements is valid if they can be counted. -/
theorem ArgType.check_tuple_iff {inner : ArgType} {items : List Value}
    (each : ∀ v ∈ items, inner.check v = .ok ()) :
    (array inner).check (.tuple items) = .ok () ↔ items.length ≤ maxElements := by
  rw [check_array_eq_ok_iff]
  constructor
  · rintro ⟨_, same, few, -⟩
    cases same
    exact few
  · intro few
    exact ⟨items, rfl, few, each⟩

namespace Schema

/-- The record of tokens and their balances. -/
def balancesOf (tokens amounts : List Value) : Value :=
  .args "BalancesArgs" [("tokens", .tuple tokens), ("balances", .tuple amounts)]

variable {tokens amounts : List Value} {data : List UInt8}

theorem balancesMatch_eq_ok_iff :
    balancesMatch [("tokens", .tuple tokens), ("balances", .tuple amounts)] = .ok () ↔
      tokens.length = amounts.length := by
  show (if tokens.length = amounts.length then _ else _) = _ ↔ _
  split
  · rename_i paired
    exact iff_of_true rfl paired
  · rename_i uneven
    exact iff_of_false fail_ne_ok uneven

/-- Balances of valid elements are encoded if they are as many as the tokens and can be
counted. -/
theorem encode_balancesOf_iff (addresses : ∀ v ∈ tokens, ArgType.address.check v = .ok ())
    (words : ∀ v ∈ amounts, ArgType.uint256.check v = .ok ()) :
    (∃ data, balances.encode (balancesOf tokens amounts) = .ok data) ↔
      tokens.length = amounts.length ∧ tokens.length ≤ maxElements := by
  constructor
  · rintro ⟨data, written⟩
    obtain ⟨given, accepted⟩ := check_eq_ok_iff.mp (check_of_encode written)
    obtain ⟨same, checked, related⟩ := accept_eq_ok_iff.mp accepted
    cases same
    obtain ⟨first, -⟩ := checkFields_cons_eq_ok_iff.mp checked
    exact ⟨balancesMatch_eq_ok_iff.mp related, (ArgType.check_tuple_iff addresses).mp first⟩
  · rintro ⟨paired, few⟩
    have second := (ArgType.check_tuple_iff words).mpr (paired ▸ few)
    have checked : checkFields "BalancesArgs"
        [("tokens", .tuple tokens), ("balances", .tuple amounts)] balances.entries = .ok () :=
      checkFields_cons_eq_ok_iff.mpr ⟨(ArgType.check_tuple_iff addresses).mpr few,
        checkFields_cons_eq_ok_iff.mpr ⟨second, rfl⟩⟩
    have accepted : balances.accept (balancesOf tokens amounts) = .ok _ :=
      accept_eq_ok_iff.mpr ⟨rfl, checked, balancesMatch_eq_ok_iff.mpr paired⟩
    obtain ⟨_, data, written, -⟩ := exists_encode_of_accept accepted
    exact ⟨data, written⟩

/-- Each pair takes 52 bytes, behind the two counts. -/
theorem length_of_encode_balancesOf
    (written : balances.encode (balancesOf tokens amounts) = .ok data) :
    data.length = 4 + 52 * tokens.length := by
  obtain ⟨given, accepted⟩ := check_eq_ok_iff.mp (check_of_encode written)
  obtain ⟨same, -, related⟩ := accept_eq_ok_iff.mp accepted
  cases same
  have paired : tokens.length = amounts.length := balancesMatch_eq_ok_iff.mp related
  obtain ⟨fields, bytes, again, formed, agree⟩ := exists_encode_of_accept accepted
  cases again.symm.trans written
  obtain ⟨v, _, first, _, rfl, tokenForm, ⟨w, _, second, _, rfl, amountForm, ⟨rfl, rfl⟩, rfl⟩,
    rfl⟩ := formed
  obtain ⟨tokensAgree, others⟩ := List.forall_mem_cons.mp agree
  obtain ⟨amountsAgree, -⟩ := List.forall_mem_cons.mp others
  have many : tokens.length = v.size := tokensAgree.size_eq
  have asMany : amounts.length = w.size := amountsAgree.size_eq
  have left := tokenForm.length_array (show _ = some 20 from rfl)
  have right := amountForm.length_array (show _ = some 32 from rfl)
  rw [ArgType.countSize] at left right
  rw [List.length_append, List.length_append, List.length_nil]
  omega

end Schema

/-! ## The published table -/

namespace Registry

variable {o : Opcode} {args : Value}

theorem exists_encode_swapVm_iff :
    (∃ data, (ofSet .swapVm).encode (.opcode o) args = .ok data) ↔
      ∃ payload, o.schema.encode args = .ok payload ∧ payload.length ≤ maxPayload := by
  have indexed : (ofSet .swapVm).Indexed := (ofSet_reachable .swapVm).wellFormed.toIndexed
  simp only [indexed.encode_eq_ok_iff, getElem?_ofSet_iff]
  constructor
  · rintro ⟨_, _, _, payload, ⟨-, rfl⟩, written, short, -⟩
    exact ⟨payload, written, short⟩
  · rintro ⟨payload, written, short⟩
    obtain ⟨index, found⟩ := List.mem_iff_getElem?.mp (OpcodeSet.mem_swapVm o)
    exact ⟨_, index, _, payload, ⟨found, rfl⟩, written, short, rfl⟩

end Registry

/-- **What fits into a frame.** Whatever has been done to an empty registry, it encodes an
instruction exactly if the identity is registered, its schema encodes the arguments and the
payload has at most 255 bytes. The result is the byte of the discriminator, the byte of the
length and the payload, and neither byte wraps around.

In the published table the last condition matters to balances alone. Take tokens and amounts
that are valid one by one: the schema encodes them if they are equally many and at most 65535,
in 52 bytes for each pair behind the two counts, and an instruction takes at most four pairs. -/
theorem encoding_fits_frame :
    (∀ name calls identity args data,
      let R := Registry.run { name := name } calls
      R.encode identity args = .ok data ↔
        ∃ (index : Nat) (schema : Schema) (payload : List UInt8) (discriminator length : UInt8),
          R.discriminatorOf identity = .ok index ∧ R.resolve identity = .ok schema ∧
            schema.encode args = .ok payload ∧ payload.length ≤ 255 ∧
            discriminator.toNat = index ∧ length.toNat = payload.length ∧
            data = discriminator :: length :: payload) ∧
      (∀ o args payload, o.schema.encode args = .ok payload →
        ((∃ data, (Registry.ofSet .swapVm).encode (.opcode o) args = .ok data) ↔
          payload.length ≤ 255) ∧
        (255 < payload.length → o = .staticBalancesXD ∨ o = .dynamicBalancesXD)) ∧
      ∀ o, o = .staticBalancesXD ∨ o = .dynamicBalancesXD → ∀ tokens amounts,
        (∀ v ∈ tokens, ArgType.address.check v = .ok ()) →
        (∀ v ∈ amounts, ArgType.uint256.check v = .ok ()) →
          let args := Schema.balancesOf tokens amounts
          ((∃ data, (Registry.ofSet .swapVm).encode (.opcode o) args = .ok data) ↔
            tokens.length = amounts.length ∧ tokens.length ≤ 4) ∧
          ((∃ payload, o.schema.encode args = .ok payload) ↔
            tokens.length = amounts.length ∧ tokens.length ≤ 65535) ∧
          ∀ payload, o.schema.encode args = .ok payload →
            payload.length = 4 + 52 * tokens.length := by
  refine ⟨?_, ?_, ?_⟩
  · intro name calls identity args data R
    exact (Registry.indexed_run name calls).encode_iff
  · intro o args payload written
    refine ⟨?_, Opcode.eq_of_long written⟩
    rw [Registry.exists_encode_swapVm_iff]
    constructor
    · rintro ⟨other, again, short⟩
      cases again.symm.trans written
      exact short
    · exact fun short => ⟨payload, written, short⟩
  · intro o balanced tokens amounts addresses words args
    have schema_eq : o.schema = Schema.balances := by
      rcases balanced with rfl | rfl <;> rfl
    rw [Registry.exists_encode_swapVm_iff, schema_eq]
    have accepted := Schema.encode_balancesOf_iff addresses words
    refine ⟨?_, accepted, fun payload => Schema.length_of_encode_balancesOf⟩
    constructor
    · rintro ⟨payload, written, short⟩
      obtain ⟨paired, -⟩ := accepted.mp ⟨payload, written⟩
      have sized := Schema.length_of_encode_balancesOf written
      rw [maxPayload] at short
      exact ⟨paired, by omega⟩
    · rintro ⟨paired, few⟩
      obtain ⟨payload, written⟩ := accepted.mpr ⟨paired, Nat.le_trans few (by decide)⟩
      have sized := Schema.length_of_encode_balancesOf written
      refine ⟨payload, written, ?_⟩
      rw [maxPayload]
      omega

/-- Five pairs are encoded by the schema and do not fit into a frame, four do. -/
theorem encoding_fits_frame_five :
    let token : Value := .bytes (List.replicate 20 1)
    let pairs (n : Nat) := Schema.balancesOf (List.replicate n token) (List.replicate n (.int 7))
    (∃ payload, Schema.balances.encode (pairs 5) = .ok payload) ∧
      (¬∃ data, (Registry.ofSet .swapVm).encode (.opcode .staticBalancesXD) (pairs 5) =
        .ok data) ∧
      ∃ data, (Registry.ofSet .swapVm).encode (.opcode .staticBalancesXD) (pairs 4) =
        .ok data := by
  intro token pairs
  have addresses (n : Nat) : ∀ v ∈ List.replicate n token, ArgType.address.check v = .ok () :=
    List.forall_mem_replicate.mpr (.inr rfl)
  have words (n : Nat) : ∀ v ∈ List.replicate n (.int 7), ArgType.uint256.check v = .ok () :=
    List.forall_mem_replicate.mpr (.inr rfl)
  obtain ⟨-, -, balanced⟩ := encoding_fits_frame
  obtain ⟨framed, written, -⟩ := balanced .staticBalancesXD (.inl rfl) _ _ (addresses 5) (words 5)
  obtain ⟨four, -, -⟩ := balanced .staticBalancesXD (.inl rfl) _ _ (addresses 4) (words 4)
  exact ⟨written.mpr (by decide), fun encoded => absurd (framed.mp encoded) (by decide),
    four.mpr (by decide)⟩

end SwapCodec
