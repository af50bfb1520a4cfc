import SwapCodec.Proofs.Registry.Frame

/-!
# What a registry holds after any operations

An operation reports something and leaves a registry behind (`Registry.reply`,
`Registry.call`). There are three things that it can do (`Registry.call_cases`):
enter an opcode and report its discriminator, be refused and change nothing, or
freeze the registry.

So what is in the table at the end is what the first successful registration of
each opcode put there (`Registry.getElem?_run_iff`), and a frozen registry stays
as it is (`Registry.run_of_frozen`). The main statement
(`registry_run_consistent`) reads this off for every sequence of operations on
an empty registry, with any identities and any schemas.
-/

set_option autoImplicit false

namespace SwapCodec

namespace Registry

/-! ## What an operation does -/

/-- What an operation reports: a registration reports the discriminator. -/
def reply (R : Registry) : Call → Except Error (Option Nat)
  | .register identity schema => (enrol identity schema R).1.map some
  | .registerOpcode o schema => (enrol (.opcode o) schema R).1.map some
  | .freeze => .ok none

/-- The identity and the schema that an operation offers. -/
def Call.offer? : Call → Option (Value × Schema)
  | .register identity schema => some (identity, schema)
  | .registerOpcode o schema => some (.opcode o, schema)
  | .freeze => none

/-- The discriminator that the first successful registration of an opcode
reported, and the schema that it was given. -/
def firstRegistration? (R : Registry) (o : Opcode) : List Call → Option (Nat × Schema)
  | [] => none
  | c :: calls =>
    match c.offer?, R.reply c with
    | some (.opcode p, schema), .ok (some index) =>
      if p = o then some (index, schema) else (R.call c).firstRegistration? o calls
    | _, _ => (R.call c).firstRegistration? o calls

variable {R : Registry} {c : Call} {calls : List Call} {o p : Opcode} {identity : Value}
  {schema : Schema} {index : Nat}

theorem reply_of_offer (offered : c.offer? = some (identity, schema)) :
    R.reply c = (enrol identity schema R).1.map some := by
  cases c with
  | register v s =>
      cases offered
      rfl
  | registerOpcode p s =>
      cases offered
      rfl
  | freeze => cases offered

theorem call_of_offer (offered : c.offer? = some (identity, schema)) :
    R.call c = (enrol identity schema R).2 := by
  cases c with
  | register v s =>
      cases offered
      rfl
  | registerOpcode p s =>
      cases offered
      rfl
  | freeze => cases offered

theorem offer?_eq_none_iff : c.offer? = none ↔ c = .freeze := by
  cases c <;> simp [Call.offer?]

/-- An operation enters an opcode, is refused, or freezes the registry. -/
theorem call_cases (R : Registry) (c : Call) :
    (∃ o schema, c.offer? = some (.opcode o, schema) ∧ R.frozen = false ∧ R.indexOf? o = none ∧
      R.reply c = .ok (some R.size) ∧ R.call c = R.enter o schema) ∨
    (∃ e, R.reply c = .error e ∧ R.call c = R) ∨
    (c = .freeze ∧ R.reply c = .ok none ∧ R.call c = R.freeze) := by
  cases offered : c.offer? with
  | none =>
      obtain rfl := offer?_eq_none_iff.mp offered
      exact .inr (.inr ⟨rfl, rfl, rfl⟩)
  | some request =>
      obtain ⟨identity, schema⟩ := request
      rw [reply_of_offer offered, call_of_offer offered]
      rcases R.enrol_cases identity schema with ⟨e, refused⟩ | ⟨o, rfl, unfrozen, fresh, -, entered⟩
      · rw [refused]
        exact .inr (.inl ⟨e, rfl, rfl⟩)
      · rw [entered]
        exact .inl ⟨o, schema, rfl, unfrozen, fresh, rfl, rfl⟩

theorem call_of_error {e : Error} (refused : R.reply c = .error e) : R.call c = R := by
  rcases R.call_cases c with ⟨o, schema, -, -, -, replied, -⟩ | ⟨_, -, same⟩ | ⟨-, replied, -⟩
  · cases refused.symm.trans replied
  · exact same
  · cases refused.symm.trans replied

theorem reply_eq_some (replied : R.reply c = .ok (some index)) :
    index = R.size ∧ (R.call c).size = R.size + 1 := by
  rcases R.call_cases c with ⟨o, schema, -, -, -, given, entered⟩ | ⟨_, refused, -⟩ | ⟨-, given, -⟩
  · cases replied.symm.trans given
    exact ⟨rfl, by rw [entered, size_enter]⟩
  · cases replied.symm.trans refused
  · cases replied.symm.trans given

/-! ## Which error is reported -/

theorem reply_of_ne_opcode (offered : c.offer? = some (identity, schema))
    (other : ∀ o, identity ≠ .opcode o) : FailsWith (R.reply c) .validation := by
  rw [reply_of_offer offered, enrol_of_ne_opcode other]
  exact (failsWith_fail rfl).map some

theorem reply_of_frozen (offered : c.offer? = some (.opcode o, schema))
    (frozen : R.frozen = true) : FailsWith (R.reply c) .registryFrozen := by
  rw [reply_of_offer offered, enrol_opcode, if_pos frozen]
  exact (failsWith_fail rfl).map some

theorem Indexed.reply_of_mem (h : R.Indexed) (offered : c.offer? = some (.opcode o, schema))
    (unfrozen : R.frozen = false) (known : o ∈ R.opcodes) :
    FailsWith (R.reply c) .duplicateOpcode := by
  have found : (R.indexOf? o).isSome = true := by
    rw [Option.isSome_iff_ne_none, ne_eq, h.indexOf?_eq_none_iff, not_not]
    exact known
  rw [reply_of_offer offered, enrol_opcode, if_neg (by simp [unfrozen]), if_pos found]
  exact (failsWith_fail rfl).map some

theorem Indexed.reply_of_not_mem (h : R.Indexed) (offered : c.offer? = some (.opcode o, schema))
    (unfrozen : R.frozen = false) (fresh : o ∉ R.opcodes) :
    R.reply c = .ok (some R.size) ∧ R.call c = R.enter o schema := by
  rw [reply_of_offer offered, call_of_offer offered,
    enrol_fresh unfrozen (h.indexOf?_eq_none_iff.mpr fresh) h.size_lt]
  exact ⟨rfl, rfl⟩

/-! ## What is looked up -/

theorem Indexed.discriminatorOf_iff (h : R.Indexed) :
    R.discriminatorOf identity = .ok index ↔
      ∃ o, identity = .opcode o ∧ R.opcodes[index]? = some o := by
  cases identity with
  | opcode o =>
      simp only [h.discriminatorOf_eq_ok_iff, getElem?_opcodes, Value.opcode.injEq, exists_eq_left']
  | _ => simp [discriminatorOf, fail]

theorem Indexed.resolve_iff (h : R.Indexed) :
    R.resolve identity = .ok schema ↔
      ∃ (o : Opcode) (index : Nat), identity = .opcode o ∧
        R.table[index]? = some (o, schema) := by
  simp only [resolve, Except.bind_eq_ok_iff, entryAt_eq_ok_iff]
  constructor
  · rintro ⟨index, found, ⟨p, s⟩, there, same⟩
    cases same
    obtain ⟨o, rfl, place⟩ := h.discriminatorOf_iff.mp found
    obtain ⟨_, here⟩ := getElem?_opcodes.mp place
    cases here.symm.trans there
    exact ⟨p, index, rfl, there⟩
  · rintro ⟨o, index, rfl, there⟩
    have found := h.discriminatorOf_iff.mpr ⟨o, rfl, getElem?_opcodes.mpr ⟨schema, there⟩⟩
    exact ⟨index, found, (o, schema), there, rfl⟩

theorem lookUp_int_iff {n : Int} {entry : Opcode × Schema} :
    R.lookUp (.int n) = .ok entry ↔ 0 ≤ n ∧ R.table[n.toNat]? = some entry := by
  simp only [lookUp, Value.asInt?]
  by_cases natural : 0 ≤ n
  · rw [if_pos natural]
    cases R.table[n.toNat]? with
    | none => simp [fail]
    | some there => simp [natural]
  · simp [natural, fail]

theorem exists_lookUp_int_iff {n : Int} :
    (∃ entry, R.lookUp (.int n) = .ok entry) ↔ 0 ≤ n ∧ n < R.size := by
  simp only [lookUp_int_iff, exists_and_left]
  refine and_congr_right fun natural => ?_
  rw [← Option.isSome_iff_exists, Option.isSome_iff_ne_none, ne_eq, List.getElem?_eq_none_iff, size]
  omega

/-! ## Runs -/

theorem getElem?_enter_iff {entry : Opcode × Schema} :
    (R.enter p schema).table[index]? = some entry ↔
      R.table[index]? = some entry ∨ (index = R.size ∧ entry = (p, schema)) := by
  rw [enter, List.getElem?_append, size]
  split
  · rename_i inside
    exact ⟨.inl, fun either => either.resolve_right fun last => by omega⟩
  · rename_i outside
    rw [List.getElem?_eq_none (Nat.le_of_not_lt outside), List.getElem?_singleton]
    simp only [reduceCtorEq, false_or, Option.ite_none_right_eq_some, Option.some.injEq]
    refine and_congr ?_ eq_comm
    omega

/-- The entry of an opcode is the one it had, or what its first successful
registration was given. -/
theorem Indexed.getElem?_run (h : R.Indexed) (calls : List Call) :
    (R.run calls).table[index]? = some (o, schema) ↔
      R.table[index]? = some (o, schema) ∨
        (o ∉ R.opcodes ∧ R.firstRegistration? o calls = some (index, schema)) := by
  induction calls generalizing R with
  | nil =>
      show R.table[index]? = _ ↔ _
      simp [firstRegistration?]
  | cons c calls ih =>
      show ((R.call c).run calls).table[index]? = _ ↔ _
      rw [ih (h.call c), firstRegistration?]
      rcases R.call_cases c with ⟨p, given, offered, -, fresh, replied, entered⟩ |
        ⟨e, refused, same⟩ | ⟨rfl, replied, frozen⟩
      · have unknown := h.indexOf?_eq_none_iff.mp fresh
        rw [offered, replied, entered, getElem?_enter_iff, opcodes_enter]
        by_cases own : p = o
        · subst own
          simp [unknown, eq_comm]
        · have apart : o ≠ p := Ne.symm own
          simp [own, apart]
      · rw [refused, same]
        cases c.offer? <;> simp
      · rw [replied, frozen]
        rfl

/-- The table is made of the first successful registrations. -/
theorem getElem?_run_iff {name : String} :
    (run { name := name } calls).table[index]? = some (o, schema) ↔
      firstRegistration? { name := name } o calls = some (index, schema) := by
  rw [(Indexed.empty name).getElem?_run]
  simp [opcodes]

theorem frozen_call_iff : (R.call c).frozen = true ↔ R.frozen = true ∨ c = .freeze := by
  rcases R.call_cases c with
    ⟨o, schema, offered, unfrozen, -, -, entered⟩ | ⟨e, refused, same⟩ | ⟨rfl, -, frozen⟩
  · have other : c ≠ .freeze := by
      rintro rfl
      cases offered
    rw [entered]
    simp [enter, other]
  · have other : c ≠ .freeze := by
      rintro rfl
      cases refused
    rw [same]
    simp [other]
  · rw [frozen]
    simp [freeze]

theorem frozen_run_iff : (R.run calls).frozen = true ↔ R.frozen = true ∨ .freeze ∈ calls := by
  induction calls generalizing R with
  | nil => simp [run]
  | cons c calls ih =>
      show ((R.call c).run calls).frozen = true ↔ _
      rw [ih, frozen_call_iff, List.mem_cons, or_assoc, eq_comm (b := Call.freeze)]

theorem call_of_frozen (frozen : R.frozen = true) (c : Call) : R.call c = R := by
  rcases R.call_cases c with ⟨o, schema, -, unfrozen, -⟩ | ⟨e, -, same⟩ | ⟨-, -, same⟩
  · cases frozen.symm.trans unfrozen
  · exact same
  · rw [same, freeze, ← frozen]

/-- A frozen registry stays as it is. -/
theorem run_of_frozen (frozen : R.frozen = true) (calls : List Call) : R.run calls = R := by
  induction calls with
  | nil => rfl
  | cons c calls ih =>
      show (R.call c).run calls = R
      rw [call_of_frozen frozen, ih]

end Registry

/-- **Registry runs.** This holds of a registry whatever has been done to an empty
one, with any identities and any schemas.

No opcode is registered twice, and there is always room for another. An identity
has a discriminator exactly if it is the opcode at that place of the table, and its
schema and its discriminator are those of its first successful registration. The
integers that have an entry are those from zero up to the size.

A successful registration reports the size that the registry had before. What is no
opcode is refused with a validation error, an opcode is refused by a frozen registry,
a known opcode is refused as a duplicate, and every other one is entered. An
operation that fails changes nothing, and a frozen registry never changes. -/
theorem registry_run_consistent (name : String) (calls : List Registry.Call) :
    let empty : Registry := { name := name }
    let R := empty.run calls
    (R.opcodes.Nodup ∧ R.size < maxOpcodes) ∧
    (∀ identity index, R.discriminatorOf identity = .ok index ↔
      ∃ o, identity = .opcode o ∧ R.opcodes[index]? = some o) ∧
    (∀ identity schema, R.resolve identity = .ok schema ↔
      ∃ o index, identity = .opcode o ∧
        empty.firstRegistration? o calls = some (index, schema)) ∧
    (∀ o index schema, empty.firstRegistration? o calls = some (index, schema) →
      R.discriminatorOf (.opcode o) = .ok index) ∧
    (∀ n : Int, (∃ entry, R.lookUp (.int n) = .ok entry) ↔ 0 ≤ n ∧ n < R.size) ∧
    (∀ (n : Int) entry, R.lookUp (.int n) = .ok entry → R.table[n.toNat]? = some entry) ∧
    (∀ c index, R.reply c = .ok (some index) → index = R.size ∧ (R.call c).size = R.size + 1) ∧
    (∀ c identity schema, c.offer? = some (identity, schema) →
      ((∀ o, identity ≠ .opcode o) → FailsWith (R.reply c) .validation) ∧
      ∀ o, identity = .opcode o →
        (R.frozen = true → FailsWith (R.reply c) .registryFrozen) ∧
        (R.frozen = false → o ∈ R.opcodes → FailsWith (R.reply c) .duplicateOpcode) ∧
        (R.frozen = false → o ∉ R.opcodes →
          R.reply c = .ok (some R.size) ∧ R.call c = R.enter o schema)) ∧
    (∀ c e, R.reply c = .error e → R.call c = R) ∧
    (R.frozen = true ↔ .freeze ∈ calls) ∧
    (R.frozen = true → ∀ later, R.run later = R) := by
  intro empty R
  have indexed : R.Indexed := Registry.indexed_run name calls
  have table {o index schema} : R.table[index]? = some (o, schema) ↔
      empty.firstRegistration? o calls = some (index, schema) := Registry.getElem?_run_iff
  refine ⟨⟨indexed.nodup, indexed.size_lt⟩, fun _ _ => indexed.discriminatorOf_iff, ?_, ?_,
    fun _ => Registry.exists_lookUp_int_iff, fun _ _ found => (Registry.lookUp_int_iff.mp found).2,
    fun _ _ => Registry.reply_eq_some, ?_, fun _ _ => Registry.call_of_error, ?_,
    Registry.run_of_frozen⟩
  · intro identity schema
    simp only [indexed.resolve_iff, table]
  · intro o index schema first
    have there := table.mpr first
    exact indexed.discriminatorOf_iff.mpr ⟨o, rfl, Registry.getElem?_opcodes.mpr ⟨schema, there⟩⟩
  · intro c identity schema offered
    refine ⟨Registry.reply_of_ne_opcode offered, ?_⟩
    rintro o rfl
    exact ⟨Registry.reply_of_frozen offered, indexed.reply_of_mem offered,
      indexed.reply_of_not_mem offered⟩
  · rw [Registry.frozen_run_iff]
    simp [empty]

/-- Two registrations, one of something that is no opcode, a duplicate, and a
registration that comes after the freezing. -/
def mixedCalls : List Registry.Call :=
  [.register (.opcode .salt) .salt, .register (.str "Controls.jump") .jump,
    .registerOpcode .jump .jump, .registerOpcode .salt .jump, .freeze,
    .registerOpcode .deadline .deadline]

theorem registry_run_consistent_mixed :
    let R := Registry.run { name := "test" } mixedCalls
    R.resolve (.opcode .salt) = .ok .salt ∧ R.discriminatorOf (.opcode .jump) = .ok 1 ∧
      (∃ entry, R.lookUp (.int 1) = .ok entry) ∧
      FailsWith (R.reply (.registerOpcode .deadline .deadline)) .registryFrozen ∧
      R.run mixedCalls = R := by
  intro R
  obtain ⟨_, _, resolved, reported, entries, _, _, errors, _, freezing, unchanged⟩ :=
    registry_run_consistent "test" mixedCalls
  have frozen : R.frozen = true := freezing.mpr (by simp [mixedCalls])
  refine ⟨(resolved _ _).mpr ⟨.salt, 0, rfl, rfl⟩, reported .jump 1 .jump rfl, (entries 1).mpr ?_,
    ((errors _ _ _ rfl).2 .deadline rfl).1 frozen, unchanged frozen mixedCalls⟩
  decide

end SwapCodec
