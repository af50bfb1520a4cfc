import SwapCodec.Proofs.Failure
import SwapCodec.Schema
import Mathlib.Data.List.Forall2

/-!
# Equality of arguments

Traits are equal when their fields stand for the same integers, so a flag may be
given as a truth value or as zero or one. Tuples are equal element by element,
and records of one type are equal field by field (`RecordType.Agrees`). Nothing
else that an argument can hold is equal to anything but itself
(`Value.Agrees`).

The relation of a schema is a function from outside. It respects equality when
it accepts a record exactly if it accepts the records equal to it
(`Schema.RespectsAgreement`). A schema is lawful when it was built for its
record type and its relation respects equality (`Schema.Lawful`).
-/

set_option autoImplicit false

namespace SwapCodec

/-! ## Values -/

/-- The values are equal as arguments. -/
inductive Value.Agrees : Value → Value → Prop where
  /-- A value is equal to itself. -/
  | refl (v : Value) : Agrees v v
  /-- The fields of both stand for the same integers. -/
  | traits {t u : Traits} (same : t.agrees u = true) : Agrees (.traits t) (.traits u)
  /-- The elements are equal one by one. -/
  | tuple {xs ys : List Value} (each : List.Forall₂ Agrees xs ys) : Agrees (.tuple xs) (.tuple ys)

/-! ## Records -/

/-- The fields with the given names are equal; an absent one is null. -/
def Fields.Agree (names : List String) (f g : Fields) : Prop :=
  ∀ name ∈ names, ((fieldOf? name f).getD .null).Agrees ((fieldOf? name g).getD .null)

/-- Both values are records of the type, and their fields are equal. -/
def RecordType.Agrees (r : RecordType) (v w : Value) : Prop :=
  ∃ f g, v = .args r.name f ∧ w = .args r.name g ∧ Fields.Agree r.fields f g

theorem fieldOf?_cons_self (name : String) (v : Value) (rest : Fields) :
    fieldOf? name ((name, v) :: rest) = some v := by
  simp [fieldOf?]

theorem fieldOf?_cons_of_ne {name other : String} (h : name ≠ other) (v : Value) (rest : Fields) :
    fieldOf? other ((name, v) :: rest) = fieldOf? other rest := by
  simp [fieldOf?, h]

/-- Fields that are built from their names have the values they were built with. -/
theorem fieldOf?_map {names : List String} {name : String} (value : String → Value)
    (h : name ∈ names) : fieldOf? name (names.map fun n => (n, value n)) = some (value name) := by
  induction names with
  | nil => cases h
  | cons first names ih =>
      by_cases same : first = name
      · subst same
        exact fieldOf?_cons_self _ _ _
      · rw [List.map_cons, fieldOf?_cons_of_ne same]
        exact ih ((List.mem_cons.mp h).resolve_left (Ne.symm same))

namespace Schema

/-! ## Schemas -/

variable {s : Schema}

@[simp]
theorem fieldOf?_recordFields {name : String} (fields : Fields) (h : name ∈ s.record.fields) :
    fieldOf? name (s.recordFields fields) = some ((fieldOf? name fields).getD .null) :=
  fieldOf?_map (fun n => (fieldOf? n fields).getD .null) h

/-- The relation accepts a record if it accepts one that is equal to it. -/
def RespectsAgreement (s : Schema) : Prop :=
  ∀ f g, Fields.Agree s.record.fields f g → (s.relation f = .ok () ↔ s.relation g = .ok ())

/-- The schema was accepted for its record type. -/
def IsBuilt (s : Schema) : Prop :=
  ∃ record entries relation, build record entries relation = .ok s

theorem build_eq_ok_iff {record : Option RecordType} {entries : List (String × ArgType)}
    {relation : Fields → Except Error Unit} :
    build record entries relation = .ok s ↔
      ∃ r, record = some r ∧ covers (entries.map (·.1)) r.fields = true ∧
        s = ⟨r, entries, relation⟩ := by
  cases record with
  | none => simp [build, fail]
  | some r =>
      by_cases covered : covers (entries.map (·.1)) r.fields = true
      · simp only [build, covered, if_true, Except.ok.injEq, Option.some.injEq]
        constructor
        · rintro rfl
          exact ⟨r, rfl, covered, rfl⟩
        · rintro ⟨_, rfl, _, rfl⟩
          rfl
      · simp only [build, covered, Option.some.injEq]
        refine ⟨fun failed => absurd failed fail_ne_ok, ?_⟩
        rintro ⟨_, rfl, covers, _⟩
        exact absurd covers covered

/-- A schema is built when its names are those of the record type, each of them
once. -/
theorem isBuilt_iff : s.IsBuilt ↔ covers s.names s.record.fields = true := by
  constructor
  · rintro ⟨record, entries, relation, built⟩
    obtain ⟨r, _, covered, rfl⟩ := build_eq_ok_iff.mp built
    exact covered
  · intro covered
    exact ⟨some s.record, s.entries, s.relation, build_eq_ok_iff.mpr ⟨_, rfl, covered, rfl⟩⟩

instance : Decidable s.IsBuilt := decidable_of_iff _ isBuilt_iff.symm

theorem IsBuilt.mem_fields_iff (built : s.IsBuilt) {name : String} :
    name ∈ s.record.fields ↔ name ∈ s.names := by
  have covered := isBuilt_iff.mp built
  rw [covers, Bool.and_eq_true] at covered
  exact (List.isPerm_iff.mp covered.1).mem_iff.symm

theorem IsBuilt.nodup (built : s.IsBuilt) : s.names.Nodup := by
  have covered := isBuilt_iff.mp built
  rw [covers, Bool.and_eq_true] at covered
  exact of_decide_eq_true covered.2

/-- The schema was accepted for its record type and its relation respects
equality. -/
structure Lawful (s : Schema) : Prop where
  /-- The names of the entries are those of the record type. -/
  built : s.IsBuilt
  /-- The relation sees no difference between equal records. -/
  respects : s.RespectsAgreement

end Schema

end SwapCodec
