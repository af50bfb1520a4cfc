import SwapCodec.Proofs.Schema.Wire
import SwapCodec.Registry
import Mathlib.Data.List.Nodup
import Mathlib.Data.List.Perm.Subperm

/-!
# Runs of a registry

A registry starts empty and changes by registrations and by being frozen
(`Registry.call`). A registration is refused or enters the opcode into both
tables, and one that is refused changes nothing (`Registry.enrol_cases`). A registry
is reachable when a sequence of operations leads to it from an empty one and the
schemas that were offered on the way are lawful (`Registry.Reachable`).

What every operation preserves is that no opcode is registered twice and that the
tables are inverse to each other (`Registry.Indexed`), so every registry that
operations lead to is indexed, whatever they offer (`Registry.indexed_run`). A
reachable registry has lawful schemas, too (`Registry.Reachable.wellFormed`).
-/

set_option autoImplicit false

namespace SwapCodec

namespace Registry

/-! ## Operations -/

/-- An operation that may change a registry. -/
inductive Call where
  /-- Registering an opcode, given as any value. -/
  | register (identity : Value) (schema : Schema)
  /-- Registering an opcode together with its schema. -/
  | registerOpcode (o : Opcode) (schema : Schema)
  /-- Freezing the registry. -/
  | freeze

/-- The registry behind a registration, whether or not it was refused. -/
def afterRegister (R : Registry) (identity : Value) (schema : Schema) : Registry :=
  (enrol identity schema R).2

/-- The registry after an operation. -/
def call (R : Registry) : Call → Registry
  | .register identity schema => R.afterRegister identity schema
  | .registerOpcode o schema => R.afterRegister (.opcode o) schema
  | .freeze => R.freeze

/-- The registry after a sequence of operations. -/
def run (R : Registry) (calls : List Call) : Registry := calls.foldl call R

/-- The schemas that an operation offers are lawful. -/
def Call.Lawful : Call → Prop
  | .register _ schema => schema.Lawful
  | .registerOpcode _ schema => schema.Lawful
  | .freeze => True

/-- Operations with lawful schemas lead to the registry from an empty one. -/
def Reachable (R : Registry) : Prop :=
  ∃ name calls, (∀ c ∈ calls, Call.Lawful c) ∧ R = run { name := name } calls

theorem run_append (R : Registry) (first second : List Call) :
    R.run (first ++ second) = (R.run first).run second :=
  List.foldl_append

/-! ## One registration -/

/-- The registry with an opcode in both of its tables. -/
def enter (R : Registry) (o : Opcode) (schema : Schema) : Registry where
  name := R.name
  table := R.table ++ [(o, schema)]
  discriminators := R.discriminators ++ [(o, R.size)]
  frozen := R.frozen

variable {R next : Registry} {identity : Value} {schema : Schema} {o : Opcode}

@[simp]
theorem opcodes_enter : (R.enter o schema).opcodes = R.opcodes ++ [o] := by
  simp [opcodes, enter]

@[simp]
theorem size_enter : (R.enter o schema).size = R.size + 1 := by
  simp [size, enter]

theorem length_opcodes : R.opcodes.length = R.size := by
  simp [opcodes, size]

/-- An opcode is refused by a frozen registry, then for being known, then for lack
of room, and entered otherwise. -/
theorem enrol_opcode (R : Registry) (o : Opcode) (schema : Schema) :
    enrol (.opcode o) schema R =
      if R.frozen then (fail (.registryClosed R.name o), R)
      else if (R.indexOf? o).isSome then (fail (.alreadyRegistered R.name o), R)
      else if maxOpcodes ≤ R.size then (fail (.registryFull R.name), R)
      else (.ok R.size, R.enter o schema) := by
  -- The steps of the registration, each applied to the registry that it starts from.
  show (if R.frozen = true then (refuse (.registryClosed R.name o) : Update Nat)
    else if (R.indexOf? o).isSome = true then refuse (.alreadyRegistered R.name o)
    else if maxOpcodes ≤ R.size then refuse (.registryFull R.name)
    else _) R = _
  split
  · rfl
  · split
    · rfl
    · split <;> rfl

theorem enrol_of_ne_opcode (other : ∀ o, identity ≠ .opcode o) :
    enrol identity schema R = (fail (.opcodeRequired identity), R) := by
  cases identity with
  | opcode o => exact absurd rfl (other o)
  | _ => rfl

theorem enrol_fresh (unfrozen : R.frozen = false) (fresh : R.indexOf? o = none)
    (room : R.size < maxOpcodes) :
    enrol (.opcode o) schema R = (.ok R.size, R.enter o schema) := by
  rw [enrol_opcode, unfrozen, fresh, if_neg Bool.false_ne_true, if_neg (by decide),
    if_neg (Nat.not_le_of_lt room)]

/-- A registration is refused and changes nothing, or enters an opcode that was not
known into a registry that is open and has room. -/
theorem enrol_cases (R : Registry) (identity : Value) (schema : Schema) :
    (∃ e, enrol identity schema R = (.error e, R)) ∨
    ∃ o, identity = .opcode o ∧ R.frozen = false ∧ R.indexOf? o = none ∧ R.size < maxOpcodes ∧
      enrol identity schema R = (.ok R.size, R.enter o schema) := by
  cases identity with
  | opcode o =>
      cases closed : R.frozen with
      | true => exact .inl ⟨_, by rw [enrol_opcode, if_pos closed]; rfl⟩
      | false =>
          have unfrozen : ¬ R.frozen = true := by simp [closed]
          cases known : R.indexOf? o with
          | some index =>
              have found : (R.indexOf? o).isSome = true := by rw [known]; rfl
              exact .inl ⟨_, by rw [enrol_opcode, if_neg unfrozen, if_pos found]; rfl⟩
          | none =>
              have fresh : ¬ (R.indexOf? o).isSome = true := by simp [known]
              rcases Nat.lt_or_ge R.size maxOpcodes with room | full
              · exact .inr ⟨o, rfl, rfl, known, room, enrol_fresh closed known room⟩
              · refine .inl ⟨(Error.registryFull R.name).settled, ?_⟩
                rw [enrol_opcode, if_neg unfrozen, if_neg fresh, if_pos full]
                rfl
  | _ => exact .inl ⟨_, rfl⟩

theorem afterRegister_cases (R : Registry) (identity : Value) (schema : Schema) :
    R.afterRegister identity schema = R ∨
      ∃ o, R.frozen = false ∧ R.indexOf? o = none ∧
        R.afterRegister identity schema = R.enter o schema := by
  rcases R.enrol_cases identity schema with ⟨e, refused⟩ | ⟨o, -, unfrozen, fresh, -, entered⟩
  · exact .inl (by rw [afterRegister, refused])
  · exact .inr ⟨o, unfrozen, fresh, by rw [afterRegister, entered]⟩

/-! ## The two tables -/

/-- No opcode is registered twice, and the second table leads from an opcode to
its place in the first. -/
structure Indexed (R : Registry) : Prop where
  /-- No opcode is registered twice. -/
  nodup : R.opcodes.Nodup
  /-- The discriminator of an opcode is its place in the table. -/
  discriminators_eq : R.discriminators = R.opcodes.zipIdx

theorem lookup_eq_some_iff_mem {α β : Type} [BEq α] [LawfulBEq α] {pairs : List (α × β)}
    (distinct : (pairs.map Prod.fst).Nodup) {a : α} {b : β} :
    pairs.lookup a = some b ↔ (a, b) ∈ pairs := by
  constructor
  · intro found
    obtain ⟨before, after, rfl, _⟩ := List.lookup_eq_some_iff.mp found
    simp
  · intro mem
    obtain ⟨other, found⟩ := Option.isSome_iff_exists.mp
      (List.lookup_isSome_iff.mpr ⟨(a, b), mem, beq_self_eq_true a⟩)
    obtain ⟨before, after, rfl, _⟩ := List.lookup_eq_some_iff.mp found
    have same := List.inj_on_of_nodup_map distinct mem (by simp : (a, other) ∈ _) rfl
    rw [found, (Prod.mk.inj same).2]

theorem Indexed.indexOf?_eq_some_iff (h : R.Indexed) {index : Nat} :
    R.indexOf? o = some index ↔ R.opcodes[index]? = some o := by
  have distinct : (R.opcodes.zipIdx.map Prod.fst).Nodup := by
    rw [List.zipIdx_map_fst]
    exact h.nodup
  rw [indexOf?, h.discriminators_eq, lookup_eq_some_iff_mem distinct,
    List.mem_zipIdx_iff_getElem?]

theorem Indexed.indexOf?_eq_none_iff (h : R.Indexed) : R.indexOf? o = none ↔ o ∉ R.opcodes := by
  rw [Option.eq_none_iff_forall_ne_some, List.mem_iff_getElem?, not_exists]
  exact forall_congr' fun index => not_congr h.indexOf?_eq_some_iff

/-- There is room for every opcode. -/
theorem Indexed.size_lt (h : R.Indexed) : R.size < maxOpcodes := by
  have known : R.opcodes ⊆ Opcode.all := fun o _ => by cases o <;> decide
  have bound := (List.subperm_of_subset h.nodup known).length_le
  rw [length_opcodes] at bound
  exact Nat.lt_of_le_of_lt bound (by decide)

theorem Indexed.empty (name : String) : Indexed { name := name } where
  nodup := List.nodup_nil
  discriminators_eq := rfl

theorem Indexed.enter (h : R.Indexed) (fresh : R.indexOf? o = none) :
    (R.enter o schema).Indexed where
  nodup := by
    rw [opcodes_enter]
    exact List.nodup_append_comm.mp (List.nodup_cons.mpr ⟨h.indexOf?_eq_none_iff.mp fresh, h.nodup⟩)
  discriminators_eq := by
    rw [opcodes_enter, List.zipIdx_append, ← h.discriminators_eq, length_opcodes]
    simp [Registry.enter]

theorem Indexed.afterRegister (h : R.Indexed) : (R.afterRegister identity schema).Indexed := by
  rcases R.afterRegister_cases identity schema with same | ⟨o, -, fresh, entered⟩
  · rwa [same]
  · rw [entered]
    exact h.enter fresh

theorem Indexed.call (h : R.Indexed) (c : Call) : (R.call c).Indexed := by
  cases c with
  | register identity schema => exact h.afterRegister
  | registerOpcode o schema => exact h.afterRegister
  | freeze => exact ⟨h.nodup, h.discriminators_eq⟩

theorem Indexed.run (h : R.Indexed) (calls : List Call) : (R.run calls).Indexed := by
  induction calls generalizing R with
  | nil => exact h
  | cons c calls ih => exact ih (h.call c)

/-- **Indexed registries.** Whatever is done to an empty registry, its tables are
inverse to each other. -/
theorem indexed_run (name : String) (calls : List Call) : (run { name := name } calls).Indexed :=
  (Indexed.empty name).run calls

/-! ## What every operation preserves -/

/-- The tables are inverse to each other, and the schemas are lawful. -/
structure WellFormed (R : Registry) : Prop extends Indexed R where
  /-- Every schema is lawful. -/
  lawful : ∀ entry ∈ R.table, entry.2.Lawful

theorem WellFormed.empty (name : String) : WellFormed { name := name } where
  toIndexed := .empty name
  lawful _ mem := nomatch mem

theorem WellFormed.afterRegister (h : R.WellFormed) (lawful : schema.Lawful) :
    (R.afterRegister identity schema).WellFormed := by
  refine ⟨h.toIndexed.afterRegister, fun entry mem => ?_⟩
  rcases R.afterRegister_cases identity schema with same | ⟨o, -, -, entered⟩
  · rw [same] at mem
    exact h.lawful entry mem
  · rw [entered] at mem
    rcases List.mem_append.mp mem with old | new
    · exact h.lawful entry old
    · rw [List.mem_singleton.mp new]
      exact lawful

theorem WellFormed.call (h : R.WellFormed) {c : Call} (lawful : c.Lawful) :
    (R.call c).WellFormed := by
  cases c with
  | register identity schema => exact h.afterRegister lawful
  | registerOpcode o schema => exact h.afterRegister lawful
  | freeze => exact ⟨h.toIndexed.call .freeze, h.lawful⟩

theorem WellFormed.run (h : R.WellFormed) {calls : List Call}
    (lawful : ∀ c ∈ calls, Call.Lawful c) : (R.run calls).WellFormed := by
  induction calls generalizing R with
  | nil => exact h
  | cons c calls ih =>
      obtain ⟨first, others⟩ := List.forall_mem_cons.mp lawful
      exact ih (h.call first) others

/-- **Reachable registries** are well-formed. -/
theorem Reachable.wellFormed (h : R.Reachable) : R.WellFormed := by
  obtain ⟨name, calls, lawful, rfl⟩ := h
  exact (WellFormed.empty name).run lawful

end Registry

end SwapCodec
