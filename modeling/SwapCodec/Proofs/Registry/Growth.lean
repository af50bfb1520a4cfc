import SwapCodec.Proofs.Registry.Frame

/-!
# Registries that grow

Every operation leaves the table of a registry where it is and may add an entry
at its end (`Registry.GrowsTo.call`), so a run of operations does the same
(`Registry.GrowsTo.run`). What was found at a place is found there ever after.

A result persists when a later one is the same, unless it was an unknown opcode
(`Persists`). The encoding of an instruction persists as the registry grows
(`Registry.GrowsTo.encode_persists`).
-/

set_option autoImplicit false

namespace SwapCodec

/-! ## Results that persist -/

/-- The later result is the earlier one, unless that was an unknown opcode. -/
def Persists {α : Type} (earlier later : Except Error α) : Prop :=
  later = earlier ∨ FailsWith earlier .unknownOpcode

section Persists

variable {α β : Type} {x y : Except Error α}

theorem Persists.refl (x : Except Error α) : Persists x x := .inl rfl

theorem Persists.eq_ok (h : Persists x y) {a : α} (given : x = .ok a) : y = .ok a := by
  rcases h with same | unknown
  · rw [same, given]
  · exact absurd given unknown.ne_ok

theorem Persists.eq_error (h : Persists x y) {e : Error} (failed : x = .error e)
    (known : e.kind ≠ .unknownOpcode) : y = .error e := by
  rcases h with same | unknown
  · rw [same, failed]
  · exact absurd (unknown.kind_eq failed) known

theorem Persists.bind (h : Persists x y) (f : α → Except Error β) :
    Persists (x >>= f) (y >>= f) := by
  rcases h with rfl | unknown
  · exact .refl _
  · exact .inr (unknown.bind f)

end Persists

namespace Registry

/-! ## Growing -/

/-- The second registry has the entries of the first, at the same places. -/
structure GrowsTo (R S : Registry) : Prop where
  name_eq : S.name = R.name
  table_prefix : R.table <+: S.table

variable {R S T : Registry}

theorem GrowsTo.refl (R : Registry) : R.GrowsTo R := ⟨rfl, List.prefix_rfl⟩

theorem GrowsTo.trans (first : R.GrowsTo S) (second : S.GrowsTo T) : R.GrowsTo T :=
  ⟨second.name_eq.trans first.name_eq, first.table_prefix.trans second.table_prefix⟩

theorem GrowsTo.afterRegister (R : Registry) (identity : Value) (schema : Schema) :
    R.GrowsTo (R.afterRegister identity schema) := by
  rcases R.afterRegister_cases identity schema with same | ⟨o, -, -, entered⟩
  · rw [same]
    exact .refl R
  · rw [entered]
    exact ⟨rfl, List.prefix_append _ _⟩

theorem GrowsTo.call (R : Registry) (c : Call) : R.GrowsTo (R.call c) := by
  cases c with
  | register identity schema => exact .afterRegister R identity schema
  | registerOpcode o schema => exact .afterRegister R (.opcode o) schema
  | freeze => exact ⟨rfl, List.prefix_rfl⟩

/-- **Runs.** Operations only ever add entries at the end of the table. -/
theorem GrowsTo.run (R : Registry) (calls : List Call) : R.GrowsTo (R.run calls) := by
  induction calls generalizing R with
  | nil => exact .refl R
  | cons c calls ih => exact (GrowsTo.call R c).trans (ih (R.call c))

theorem GrowsTo.getElem? (h : R.GrowsTo S) {index : Nat} {entry : Opcode × Schema}
    (found : R.table[index]? = some entry) : S.table[index]? = some entry := by
  obtain ⟨inside, rfl⟩ := List.getElem?_eq_some_iff.mp found
  exact List.prefix_iff_getElem?.mp h.table_prefix index inside

/-! ## Encoding -/

variable {o : Opcode} {args : Value}

theorem encode_of_unregistered (unregistered : R.indexOf? o = none) :
    FailsWith (R.encode (.opcode o) args) .unknownOpcode := by
  have unknown : FailsWith (R.discriminatorOf (.opcode o)) .unknownOpcode := by
    rw [discriminatorOf, unregistered]
    exact failsWith_fail rfl
  rw [encode_opcode]
  exact unknown.bind _

/-- **Encoding persists.** A registry that has grown encodes every instruction as
before, and only an opcode that was unknown may have become known. -/
theorem GrowsTo.encode_persists (h : R.GrowsTo S) (before : R.Indexed) (after : S.Indexed)
    (identity args : Value) : Persists (R.encode identity args) (S.encode identity args) := by
  by_cases known : ∃ o, identity = .opcode o
  · obtain ⟨o, rfl⟩ := known
    cases place : R.indexOf? o with
    | none => exact .inr (encode_of_unregistered place)
    | some index =>
        obtain ⟨schema, found⟩ := getElem?_opcodes.mp (before.indexOf?_eq_some_iff.mp place)
        left
        rw [encode_of_getElem? before found, encode_of_getElem? after (h.getElem? found)]
  · have other := not_exists.mp known
    left
    rw [encode_of_ne_opcode other, encode_of_ne_opcode other, h.name_eq]

end Registry

end SwapCodec
