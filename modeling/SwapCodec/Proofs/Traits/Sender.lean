import SwapCodec.Proofs.Traits.Wire

/-!
# Orders for one sender

A maker restricts an order to one sender by the low eighty bits of the address, its last ten
bytes. These bits determine the bytes (`Traits.senderBits_eq_iff`), so an address is allowed
exactly if its last ten bytes are those of the address that the order was restricted to.

There is one exception, since zero allows everyone: the last ten bytes of an address may all be
zero, and restricting an order to such an address leaves it open (`open_to_others`). With this
exception, which sender may fill an order is settled by the last ten bytes, also after the traits
went through their bytes (`restricted_sender`).
-/

set_option autoImplicit false

namespace SwapCodec

theorem ofBigEndian_eq_iff {first second : List UInt8} (sized : first.length = second.length) :
    ofBigEndian first = ofBigEndian second ↔ first = second := by
  constructor
  · intro same
    rw [← bigEndian_ofBigEndian first, ← bigEndian_ofBigEndian second, sized, same]
  · rintro rfl
    rfl

theorem ofBigEndian_replicate_zero (count : Nat) : ofBigEndian (List.replicate count 0) = 0 := by
  induction count with
  | zero => rfl
  | succ count ih =>
      rw [List.replicate_succ', ofBigEndian_concat, ih]
      rfl

/-- Every field takes its initial value. -/
theorem BitField.isSome_bits?_initial (f : BitField) : (f.bits? f.initial).isSome = true := by
  by_cases flag : f.isFlag = true
  · simp [initial, bits?, flag]
  · rw [initial, if_neg flag, bits?, if_neg flag, if_pos ⟨Int.le_refl 0, Nat.two_pow_pos _⟩]
    rfl

theorem isSome_packBits?_initial (fs : List BitField) :
    (packBits? fs (fs.map (·.initial))).isSome = true :=
  isSome_packBits? <| List.forall₂_map_right_iff.mpr <|
    List.forall₂_same.mpr fun f _ => f.isSome_bits?_initial

namespace Traits

variable {a b : List UInt8} {t u : Traits}

/-! ## The bits of a sender -/

theorem senderBits_eq_iff (ha : a.length = 20) (hb : b.length = 20) :
    senderBits a = senderBits b ↔ a.drop 10 = b.drop 10 :=
  ofBigEndian_eq_iff (by rw [List.length_drop, List.length_drop, ha, hb])

theorem senderBits_eq_zero_iff (ha : a.length = 20) :
    senderBits a = 0 ↔ a.drop 10 = List.replicate 10 0 := by
  rw [← ofBigEndian_replicate_zero 10]
  exact ofBigEndian_eq_iff (by rw [List.length_drop, List.length_replicate, ha])

theorem senderBits_lt (ha : a.length = 20) : senderBits a < 2 ^ 80 := by
  have bounded := ofBigEndian_lt (a.drop 10)
  rwa [List.length_drop, ha] at bounded

/-! ## Restricted traits -/

/-- The integer of a field is found beside its name. -/
theorem intField_eq (t : Traits) (name : String) :
    t.intField name =
      (((t.kind.layout.names.zip (t.values.map FieldValue.toInt)).find? (·.1 == name)).map
        (·.2)).getD 0 := by
  rw [intField, fields, List.zip_map_right, List.find?_map, Option.map_map]
  rfl

theorem intField_of_agrees (same : u.agrees t = true) (name : String) :
    u.intField name = t.intField name := by
  simp only [agrees, Bool.and_eq_true, beq_iff_eq] at same
  rw [intField_eq, intField_eq, same.1, same.2]

/-- The maker's traits can be restricted to any sender, whatever their other values are. -/
theorem exists_restricted (maker : t.kind = .maker) {allowed : Nat} (small : allowed < 2 ^ 80) :
    ∃ u : Traits, u.kind = .maker ∧ u.intField "allowed_sender" = allowed ∧
      u.values.tail = t.values.tail := by
  obtain ⟨kind, values, packs⟩ := t
  obtain rfl := maker
  obtain ⟨word, packed⟩ := Option.isSome_iff_exists.mp packs
  obtain ⟨v, rest, bits, low, rfl, -, others, -⟩ := packBits?_cons packed
  have taken : (BitField.uint "allowed_sender" 0 80).bits? (.int allowed) = some allowed := by
    simpa [BitField.uint, BitField.bits?, BitField.size] using small
  have packs' : packBits? makerLayout.fields (.int allowed :: rest) =
      some ((BitField.uint "allowed_sender" 0 80).place allowed ||| low) := by
    rw [makerLayout, packBits?, taken, others]
    rfl
  exact ⟨⟨.maker, .int allowed :: rest, Option.isSome_iff_exists.mpr ⟨_, packs'⟩⟩, rfl, rfl, rfl⟩

/-- Restricted traits allow the senders with the same last ten bytes, or everyone if these bytes
are zero. -/
theorem isAllowedSender_eq (ha : a.length = 20) (hb : b.length = 20)
    (restricted : t.intField "allowed_sender" = senderBits a) :
    t.isAllowedSender b =
      .ok (decide (a.drop 10 = b.drop 10 ∨ a.drop 10 = List.replicate 10 0)) := by
  rw [isAllowedSender, if_neg (not_not.mpr hb), restricted]
  apply congrArg Except.ok
  rw [Bool.eq_iff_iff]
  simp only [Bool.or_eq_true, beq_iff_eq, decide_eq_true_eq, Int.natCast_inj, Int.natCast_eq_zero]
  rw [senderBits_eq_zero_iff ha, senderBits_eq_iff hb ha, or_comm, eq_comm (a := b.drop 10)]

/-- Traits that were read from bytes allow the senders that the written traits allow. -/
theorem isAllowedSender_normal (t : Traits) (sender : List UInt8) :
    t.normal.isAllowedSender sender = t.isAllowedSender sender := by
  rw [isAllowedSender, isAllowedSender, intField_of_agrees t.agrees_normal]

/-! ## Who may fill an order -/

/-- **Restricted orders.** An order can be restricted to any address, and its other fields may have
any values. Then an address is allowed exactly if its last ten bytes are those of the address that
the order is restricted to, or these are all zero. The traits that are read from the bytes of the
order allow the same addresses. -/
theorem restricted_sender (ha : a.length = 20) (hb : b.length = 20) :
    ∃ allowed : Nat, allowedSenderOf a = .ok allowed ∧
      (∀ s : Traits, s.kind = .maker → ∃ t : Traits, t.kind = .maker ∧
        t.intField "allowed_sender" = allowed ∧ t.values.tail = s.values.tail) ∧
      ∀ t : Traits, t.kind = .maker → t.intField "allowed_sender" = allowed →
        t.isAllowedSender b =
          .ok (decide (a.drop 10 = b.drop 10 ∨ a.drop 10 = List.replicate 10 0)) ∧
        ∃ data u, t.toBytes = .ok data ∧ ofBytes .maker data = .ok u ∧
          u.isAllowedSender b =
            .ok (decide (a.drop 10 = b.drop 10 ∨ a.drop 10 = List.replicate 10 0)) := by
  have computed : allowedSenderOf a = .ok (senderBits a) := if_neg (not_not.mpr ha)
  refine ⟨senderBits a, computed, fun s maker => exists_restricted maker (senderBits_lt ha), ?_⟩
  intro t maker restricted
  have allows := isAllowedSender_eq ha hb restricted
  refine ⟨allows, _, t.normal, t.toBytes_eq, ?_, ?_⟩
  · rw [← maker]
    exact t.ofBytes_wordBytes
  · rw [isAllowedSender_normal, allows]

/-- An order that is restricted to an address is closed to another one, also when it is read
again. -/
theorem restricted_sender_closed :
    (List.replicate 20 (0x11 : UInt8)).length = 20 ∧
    (List.replicate 20 (0x22 : UInt8)).length = 20 ∧
    ∃ allowed : Nat, allowedSenderOf (List.replicate 20 0x11) = .ok allowed ∧
      ∃ t : Traits, t.kind = .maker ∧ t.intField "allowed_sender" = allowed ∧
        t.isAllowedSender (List.replicate 20 0x22) = .ok false ∧
        ∃ data u, t.toBytes = .ok data ∧ ofBytes .maker data = .ok u ∧
          u.isAllowedSender (List.replicate 20 0x22) = .ok false := by
  refine ⟨rfl, rfl, ?_⟩
  obtain ⟨allowed, computed, any, allows⟩ :=
    restricted_sender (a := List.replicate 20 0x11) (b := List.replicate 20 0x22) rfl rfl
  obtain ⟨t, maker, restricted, -⟩ := any ⟨.maker, _, isSome_packBits?_initial _⟩ rfl
  exact ⟨allowed, computed, t, maker, restricted, allows t maker restricted⟩

/-- **Open orders.** The last ten bytes of the first address are zero, so an order that is
restricted to it is open to the second address, which has other last bytes. -/
theorem open_to_others :
    let restrictedTo : List UInt8 := List.replicate 10 0x11 ++ List.replicate 10 0
    let other : List UInt8 := List.replicate 20 0x22
    restrictedTo.length = 20 ∧ other.length = 20 ∧ restrictedTo.drop 10 ≠ other.drop 10 ∧
      allowedSenderOf restrictedTo = .ok 0 ∧
      ∃ t : Traits, ofFields .maker [("allowed_sender", .int 0)] = .ok t ∧
        t.isAllowedSender other = .ok true := by
  exact ⟨rfl, rfl, by decide, rfl, ⟨.maker, _, isSome_packBits?_initial _⟩, rfl, rfl⟩

end Traits

end SwapCodec
