import SwapCodec.Proofs.Refusal
import SwapCodec.Proofs.Traits

/-!
# Values that can be quoted

Many messages quote the value that they refuse. A value is quoted unless it holds an integer
with too many digits, among its parts or as a key of a dictionary (`Value.Spelled.isSome_quoted?`).
The integers of traits never have too many digits, since traits fit into a word
(`Traits.isSome_decimal?_of_mem`).
-/

set_option autoImplicit false

namespace SwapCodec

/-! ## Traits -/

namespace Traits

variable {t : Traits} {n : Int}

/-- No value of traits is greater than their word. -/
theorem exists_le_word_of_mem (mem : .int n ∈ t.values) :
    ∃ bits : Nat, n = bits ∧ bits ≤ t.word := by
  have sound := t.kind.layout_sound
  have given := extract_of_packBits? sound.placed sound.disjoint t.packBits?_values
  have integer : n ∈ t.values.map FieldValue.toInt := List.mem_map.mpr ⟨_, mem, rfl⟩
  rw [given] at integer
  obtain ⟨f, -, rfl⟩ := List.mem_map.mp integer
  refine ⟨_, rfl, ?_⟩
  rw [BitField.extract]
  exact Nat.and_le_left.trans (Nat.shiftRight_le _ _)

theorem isSome_decimal?_of_mem (mem : .int n ∈ t.values) : (Text.decimal? n).isSome = true := by
  obtain ⟨bits, rfl, small⟩ := exists_le_word_of_mem mem
  exact Text.isSome_decimal? <| Nat.lt_of_le_of_lt small <|
    Nat.lt_of_lt_of_le t.word_lt Text.two_pow_256_le_tooLong

end Traits

theorem isSome_mapM {α β : Type} {f : α → Option β} {xs : List α}
    (each : ∀ x ∈ xs, (f x).isSome = true) : (xs.mapM f).isSome = true := by
  induction xs with
  | nil => rfl
  | cons x xs ih =>
      obtain ⟨first, others⟩ := List.forall_mem_cons.mp each
      obtain ⟨y, made⟩ := Option.isSome_iff_exists.mp first
      obtain ⟨ys, rest⟩ := Option.isSome_iff_exists.mp (ih others)
      rw [List.mapM_cons, made, rest]
      rfl

namespace Value

/-! ## Values -/

/-- The integers that stand in the value itself have numerals, those of its parts aside. -/
def isSpelled : Value → Bool
  | int n => (Text.decimal? n).isSome
  | dict entries => entries.all fun e => e.1.quoted?.isSome
  | _ => true

/-- All integers of the value have numerals, be they parts of it or keys. -/
def Spelled (v : Value) : Prop := ∀ p ∈ v.parts, p.isSpelled = true

instance (v : Value) : Decidable v.Spelled :=
  inferInstanceAs (Decidable (∀ p ∈ v.parts, p.isSpelled = true))

theorem Spelled.mono {v w : Value} (spelled : w.Spelled) (inside : v.parts ⊆ w.parts) :
    v.Spelled :=
  fun p part => spelled p (inside part)

theorem Spelled.isSome_quoted?_key {entries : List (Key × Value)} (spelled : (dict entries).Spelled)
    {e : Key × Value} (mem : e ∈ entries) : e.1.quoted?.isSome = true :=
  List.all_eq_true.mp (spelled _ List.mem_cons_self) e mem

theorem isSome_quoted?_traits (t : Traits) : (traits t).quoted?.isSome = true := by
  rw [quoted?, bind_pure_comp]
  refine Option.isSome_map.trans (isSome_mapM ?_)
  rintro ⟨name, x⟩ mem
  have inside : x ∈ t.values := (List.of_mem_zip mem).2
  cases x with
  | int n => exact Option.isSome_map.trans (Traits.isSome_decimal?_of_mem inside)
  | bool b => rfl

mutual

theorem isSome_quoted? : ∀ v : Value, v.Spelled → v.quoted?.isSome = true
  | null, _ => rfl
  | bool _, _ => rfl
  | int n, spelled => by
      have numeral := spelled (.int n) (List.mem_singleton_self _)
      rw [isSpelled] at numeral
      rwa [quoted?]
  | float _, _ => rfl
  | str _, _ => rfl
  | bytes _, _ => rfl
  | list items, spelled => by
      obtain ⟨parts, quoted⟩ := Option.isSome_iff_exists.mp
        (isSome_quotedAll? items (List.forall_mem_cons.mp spelled).2)
      rw [quoted?, quoted]
      rfl
  | tuple items, spelled => by
      obtain ⟨parts, quoted⟩ := Option.isSome_iff_exists.mp
        (isSome_quotedAll? items (List.forall_mem_cons.mp spelled).2)
      rw [quoted?, quoted]
      rfl
  | dict entries, spelled => by
      obtain ⟨keys, each⟩ := List.forall_mem_cons.mp spelled
      obtain ⟨parts, quoted⟩ := Option.isSome_iff_exists.mp
        (isSome_quotedEntries? entries (List.all_eq_true.mp keys) each)
      rw [quoted?, quoted]
      rfl
  | traits t, _ => isSome_quoted?_traits t
  | args _ fields, spelled => by
      obtain ⟨parts, quoted⟩ := Option.isSome_iff_exists.mp
        (isSome_quotedFields? fields (List.forall_mem_cons.mp spelled).2)
      rw [quoted?, quoted]
      rfl
  | opcode _, _ => rfl

theorem isSome_quotedAll? : ∀ items : List Value, (∀ p ∈ partsOfAll items, p.isSpelled = true) →
    (quotedAll? items).isSome = true
  | [], _ => rfl
  | v :: items, each => by
      obtain ⟨first, others⟩ := List.forall_mem_append.mp each
      obtain ⟨s, quoted⟩ := Option.isSome_iff_exists.mp (isSome_quoted? v first)
      obtain ⟨more, rest⟩ := Option.isSome_iff_exists.mp (isSome_quotedAll? items others)
      rw [quotedAll?, quoted, rest]
      rfl

theorem isSome_quotedEntries? : ∀ entries : List (Key × Value),
    (∀ e ∈ entries, e.1.quoted?.isSome = true) →
    (∀ p ∈ partsOfEntries entries, p.isSpelled = true) → (quotedEntries? entries).isSome = true
  | [], _, _ => rfl
  | (k, v) :: entries, keys, each => by
      obtain ⟨key, keys⟩ := List.forall_mem_cons.mp keys
      obtain ⟨first, others⟩ := List.forall_mem_append.mp each
      obtain ⟨name, named⟩ := Option.isSome_iff_exists.mp key
      obtain ⟨s, quoted⟩ := Option.isSome_iff_exists.mp (isSome_quoted? v first)
      obtain ⟨more, rest⟩ := Option.isSome_iff_exists.mp (isSome_quotedEntries? entries keys others)
      rw [quotedEntries?, named, quoted, rest]
      rfl

theorem isSome_quotedFields? : ∀ fields : List (String × Value),
    (∀ p ∈ partsOfFields fields, p.isSpelled = true) → (quotedFields? fields).isSome = true
  | [], _ => rfl
  | (_, v) :: fields, each => by
      obtain ⟨first, others⟩ := List.forall_mem_append.mp each
      obtain ⟨s, quoted⟩ := Option.isSome_iff_exists.mp (isSome_quoted? v first)
      obtain ⟨more, rest⟩ := Option.isSome_iff_exists.mp (isSome_quotedFields? fields others)
      rw [quotedFields?, quoted, rest]
      rfl

end

theorem Spelled.isSome_quoted? {v : Value} (spelled : v.Spelled) : v.quoted?.isSome = true :=
  Value.isSome_quoted? v spelled

end Value

end SwapCodec
