import SwapCodec.Proofs.Refusal
import SwapCodec.Proofs.Registry.Frame

/-!
# The published registries

Every schema of an instruction is lawful: it names each field of its record once,
and its relation looks only at integers and at lengths, which are the same for
equal records (`Opcode.schema_lawful`). So the published registries are what
registering the opcodes of a table one by one and then freezing the registry
leads to (`Registry.ofSet_reachable`). What they read and write for an opcode is
laid down by its schema alone (`Registry.ofSet_wire_iff`).

Every schema of an instruction is over narrow types, too, so its relation can quote
what it refuses (`Opcode.schema_refusing`).
-/

set_option autoImplicit false

namespace SwapCodec

/-! ## Relations that respect equality -/

theorem Value.Agrees.size_eq {v w : Value} (h : v.Agrees w) : v.size = w.size := by
  cases h with
  | refl => rfl
  | traits => rfl
  | tuple each => exact each.length_eq

theorem Value.Agrees.asInt?_eq {v w : Value} (h : v.Agrees w) : v.asInt? = w.asInt? := by
  cases h with
  | refl => rfl
  | traits => rfl
  | tuple => rfl

theorem integerField_eq {names : List String} {name : String} {f g : Fields}
    (h : Fields.Agree names f g) (mem : name ∈ names) :
    integerField name f = integerField name g := by
  rw [integerField, integerField, (h name mem).asInt?_eq]

namespace Schema

theorem balances_respects : balances.RespectsAgreement := by
  intro f g h
  have tokens := (h "tokens" (by decide)).size_eq
  have amounts := (h "balances" (by decide)).size_eq
  show balancesMatch f = _ ↔ balancesMatch g = _
  rw [balancesMatch, balancesMatch, tokens, amounts]

theorem dutchAuction_respects : dutchAuction.RespectsAgreement := by
  intro f g h
  show durationIsPositive f = _ ↔ durationIsPositive g = _
  rw [durationIsPositive, durationIsPositive, integerField_eq h (by decide)]

theorem flatFee_respects : flatFee.RespectsAgreement := by
  intro f g h
  show feeIsBounded f = _ ↔ feeIsBounded g = _
  rw [feeIsBounded, feeIsBounded, integerField_eq h (by decide)]

end Schema

theorem Opcode.schema_isBuilt (o : Opcode) : o.schema.IsBuilt := by
  cases o <;> decide

theorem Opcode.schema_respects (o : Opcode) : o.schema.RespectsAgreement := by
  cases o with
  | staticBalancesXD => exact Schema.balances_respects
  | dynamicBalancesXD => exact Schema.balances_respects
  | dutchAuctionBalanceIn1D => exact Schema.dutchAuction_respects
  | dutchAuctionBalanceOut1D => exact Schema.dutchAuction_respects
  | flatFeeAmountInXD => exact Schema.flatFee_respects
  | flatFeeAmountOutXD => exact Schema.flatFee_respects
  | _ => exact fun _ _ _ => Iff.rfl

/-- **Published schemas** are lawful. -/
theorem Opcode.schema_lawful (o : Opcode) : o.schema.Lawful :=
  ⟨o.schema_isBuilt, o.schema_respects⟩

/-! ## Relations that refuse -/

namespace Schema

/-- A fee that has been checked is short enough to be quoted. -/
theorem onlyRefusals_feeIsBounded {given : Fields}
    (checked : checkFields flatFee.record.name given flatFee.entries = .ok ()) :
    OnlyRefusals False (feeIsBounded given) := by
  obtain ⟨first, _⟩ := checkFields_cons_eq_ok_iff.mp checked
  obtain ⟨n, same, fits⟩ := ArgType.check_word_eq_ok_iff.mp first
  have fee : integerField "fee" given = n := by rw [integerField, same, Value.asInt?, Option.getD]
  obtain ⟨lower, upper⟩ := fits_iff.mp fits
  simp only [Signedness.lower, Signedness.upper, Nat.pow_eq] at lower upper
  have short : n.natAbs < Text.tooLong :=
    Nat.lt_of_lt_of_le (by omega) Text.two_pow_256_le_tooLong
  simp only [feeIsBounded, fee]
  split
  · exact .ok ()
  · exact .fail (Option.isSome_map.trans (Text.isSome_decimal? short)) (.inr rfl)

theorem onlyRefusals_balancesMatch (given : Fields) : OnlyRefusals False (balancesMatch given) := by
  rw [balancesMatch]
  split
  · exact .ok ()
  · exact .fail rfl (.inl rfl)

theorem onlyRefusals_durationIsPositive (given : Fields) :
    OnlyRefusals False (durationIsPositive given) := by
  rw [durationIsPositive]
  split
  · exact .ok ()
  · exact .fail rfl (.inl rfl)

end Schema

theorem Opcode.schema_types_narrow (o : Opcode) : ∀ entry ∈ o.schema.entries, entry.2.Narrow := by
  cases o <;> decide

/-- **Published schemas** refuse what they do not accept. -/
theorem Opcode.schema_refusing (o : Opcode) : o.schema.Refusing := by
  refine ⟨o.schema_isBuilt, o.schema_types_narrow, ?_⟩
  cases o with
  | staticBalancesXD => exact fun _ _ => Schema.onlyRefusals_balancesMatch _
  | dynamicBalancesXD => exact fun _ _ => Schema.onlyRefusals_balancesMatch _
  | dutchAuctionBalanceIn1D => exact fun _ _ => Schema.onlyRefusals_durationIsPositive _
  | dutchAuctionBalanceOut1D => exact fun _ _ => Schema.onlyRefusals_durationIsPositive _
  | flatFeeAmountInXD => exact fun _ => Schema.onlyRefusals_feeIsBounded
  | flatFeeAmountOutXD => exact fun _ => Schema.onlyRefusals_feeIsBounded
  | _ => exact fun _ _ => .ok ()

/-- **Published schemas** are narrow. -/
theorem Opcode.schema_narrow (o : Opcode) : o.schema.Narrow := o.schema_refusing.narrow

/-! ## Registering a table -/

namespace Registry

/-- The operations that publish a table: every registration, and then freezing. -/
def publication (set : OpcodeSet) : List Call :=
  set.opcodes.map (fun o => .registerOpcode o o.schema) ++ [.freeze]

/-- Opcodes that are not known yet are entered one after the other. -/
theorem run_registrations {R : Registry} {os : List Opcode} (indexed : R.Indexed)
    (unfrozen : R.frozen = false) (nodup : (R.opcodes ++ os).Nodup) :
    R.run (os.map fun o => .registerOpcode o o.schema) =
      os.foldl (fun S o => S.enter o o.schema) R := by
  induction os generalizing R with
  | nil => rfl
  | cons o os ih =>
      have fresh : R.indexOf? o = none := indexed.indexOf?_eq_none_iff.mpr fun mem =>
        List.disjoint_of_nodup_append nodup mem List.mem_cons_self
      have step : R.call (.registerOpcode o o.schema) = R.enter o o.schema := by
        rw [call, afterRegister, enrol_fresh unfrozen fresh indexed.size_lt]
      show (R.call (.registerOpcode o o.schema)).run _ = _
      rw [step, ih (indexed.enter fresh) unfrozen]
      · rfl
      · simpa using nodup

theorem ofSet_eq_run (set : OpcodeSet) :
    ofSet set = run { name := set.name } (publication set) := by
  have nodup : (({ name := set.name } : Registry).opcodes ++ set.opcodes).Nodup := by
    cases set <;> decide
  rw [publication, run_append, run_registrations (.empty set.name) rfl nodup]
  cases set <;> rfl

/-- **Published registries** are reachable. -/
theorem ofSet_reachable (set : OpcodeSet) : (ofSet set).Reachable := by
  refine ⟨set.name, publication set, fun c mem => ?_, ofSet_eq_run set⟩
  rcases List.mem_append.mp mem with registration | last
  · obtain ⟨o, _, rfl⟩ := List.mem_map.mp registration
    exact o.schema_lawful
  · rw [List.mem_singleton.mp last]
    trivial

/-! ## Entries of a table -/

variable {set : OpcodeSet} {o : Opcode} {schema : Schema} {index : Nat}

theorem opcodes_ofSet (set : OpcodeSet) : (ofSet set).opcodes = set.opcodes := by
  rw [opcodes, ofSet, List.map_map]
  exact List.map_id _

theorem getElem?_ofSet_iff :
    (ofSet set).table[index]? = some (o, schema) ↔
      set.opcodes[index]? = some o ∧ schema = o.schema := by
  simp only [ofSet, List.getElem?_map, Option.map_eq_some_iff, Prod.mk.injEq]
  constructor
  · rintro ⟨_, found, rfl, rfl⟩
    exact ⟨found, rfl⟩
  · rintro ⟨found, rfl⟩
    exact ⟨o, found, rfl, rfl⟩

/-- A frame holds the place of the opcode in the table and the wire form of its
arguments. -/
theorem ofSet_wire_iff {i : Instruction} {data : List UInt8} :
    (ofSet set).Wire i data ↔
      ∃ index payload, set.opcodes[index]? = some i.opcode ∧
        i.opcode.schema.Wire i.args payload ∧ payload.length ≤ maxPayload ∧
        data = frame index payload := by
  simp only [Wire, getElem?_ofSet_iff]
  constructor
  · rintro ⟨index, schema, payload, ⟨found, rfl⟩, formed⟩
    exact ⟨index, payload, found, formed⟩
  · rintro ⟨index, payload, found, formed⟩
    exact ⟨index, _, payload, ⟨found, rfl⟩, formed⟩

end Registry

end SwapCodec
