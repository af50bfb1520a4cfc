import SwapCodec.Proofs.Refusal.Packing
import SwapCodec.Proofs.Schema.Document

/-!
# Refusing documents

Documents of any form are offered as arguments (`Value.IsJson`), and what is not
accepted is refused. As with arguments themselves, a message may have to quote an
integer that has no numeral. It takes an integer of the document with too many
digits, which may also be spelled by a text: one with a marker, for instance, since
it has fewer digits in another base (`Value.SpellsLong`).

Every type is read with refusals only (`ArgType.Narrow.onlyRefusals_ofJson`). What has
been read is in the wire form, so nothing in it is too long and the checks that come
after cannot quote it (`Schema.Refusing.ofJson`).
-/

set_option autoImplicit false

namespace SwapCodec

/-! ## Documents -/

namespace Value

/-- The kinds of values that documents are made of. The keys of a dictionary are texts. -/
def isJsonNode : Value → Bool
  | null | bool _ | int _ | float _ | str _ | list _ => true
  | dict entries => entries.all fun e => !Schema.isOddKey e.1
  | _ => false

/-- The value has the form of a document. -/
def IsJson (v : Value) : Prop := ∀ p ∈ v.parts, p.isJsonNode = true

/-- Some integer of the document has too many digits, be it given as a number or as a
text. -/
def SpellsLong (v : Value) : Prop :=
  ∃ n, (.int n ∈ v.parts ∨ ∃ s, .str s ∈ v.parts ∧ Text.readMarked s = some n) ∧
    Text.decimal? n = none

theorem IsJson.mono {v w : Value} (json : w.IsJson) (inside : v.parts ⊆ w.parts) : v.IsJson :=
  fun p part => json p (inside part)

theorem HoldsLong.spellsLong {v : Value} (long : v.HoldsLong) : v.SpellsLong := by
  obtain ⟨n, part, unspelled⟩ := long
  exact ⟨n, .inl part, unspelled⟩

theorem SpellsLong.mono {v w : Value} (long : v.SpellsLong) (inside : v.parts ⊆ w.parts) :
    w.SpellsLong := by
  obtain ⟨n, given, unspelled⟩ := long
  refine ⟨n, given.imp (fun part => inside part) ?_, unspelled⟩
  rintro ⟨s, part, read⟩
  exact ⟨s, inside part, read⟩

theorem IsJson.even {entries : List (Key × Value)} (json : (dict entries).IsJson) :
    ∀ e ∈ entries, Schema.isOddKey e.1 = false := by
  intro e mem
  have top := json _ List.mem_cons_self
  rw [isJsonNode, List.all_eq_true] at top
  simpa using top e mem

/-! ## Quoting a document -/

/-- The keys of a document are texts, so only its parts can have too many digits. -/
theorem IsJson.spelled {v : Value} (json : v.IsJson) (short : ¬v.HoldsLong) : v.Spelled := by
  intro p part
  cases p with
  | int n =>
      rw [isSpelled, Option.isSome_iff_ne_none]
      exact fun unspelled => short ⟨n, part, unspelled⟩
  | dict entries =>
      have texts := List.all_eq_true.mp (json _ part)
      refine List.all_eq_true.mpr fun e mem => ?_
      have text := texts e mem
      cases key : e.1 with
      | str name => rfl
      | _ =>
          rw [key] at text
          cases text
  | _ => rfl

end Value

/-! ## Traits -/

namespace Layout

variable {L : Layout} {entries : List (Key × Value)} {f : BitField}

/-- The width of a field of a narrow layout has a numeral, so only the value that is refused can
have none. -/
theorem onlyRefusals_refusal {v : Value} (placed : f.Placed L.wordBits)
    (narrow : L.wordBits ≤ 256) (json : v.IsJson) :
    OnlyRefusals v.HoldsLong (fail (f.refusal L.name v) : Except Error Nat) := by
  have ⟨width_pos, offset_nonneg, _, stop_le⟩ := placed
  rw [BitField.stop] at stop_le
  have short : f.width.natAbs < Text.tooLong :=
    Nat.lt_of_lt_of_le (by omega) Text.two_pow_256_le_tooLong
  exact .fail_quoting (fun quotable => BitField.isSome_message?_refusal (json.spelled quotable)
    L.name fun _ _ _ => Text.isSome_decimal? short) (f.refusal_known L.name v)
    (f.isWordless_refusal L.name v) (f.unworded_refusal L.name v)

theorem onlyRefusals_pack (sound : L.Sound) (narrow : L.wordBits ≤ 256)
    (json : (Value.dict entries).IsJson) :
    OnlyRefusals (Value.dict entries).HoldsLong (L.pack entries) := by
  by_cases known : L.Knows entries
  · by_cases accepted : ∀ f ∈ L.fields, f.Accepts entries
    · obtain ⟨word, packed⟩ := exists_pack_iff.mpr ⟨known, accepted⟩
      rw [packed]
      exact .ok word
    · obtain ⟨f, v, offence⟩ := known.exists_firstOffence accepted
      have inside := offence.parts_subset
      rw [offence.pack_eq]
      exact (onlyRefusals_refusal (sound.placed f offence.mem) narrow (json.mono inside)).mono
        (·.mono inside)
  · obtain ⟨e, mem, reported⟩ := exists_pack_eq_unknownField known
    rw [reported]
    refine .fail_quoting (fun quotable => Option.isSome_map.trans ?_) (.inl rfl) rfl rfl
    rw [Key.quoted?_toValue]
    exact (json.spelled quotable).isSome_quoted?_key mem

end Layout

/-- A word that was packed holds traits. -/
theorem Traits.onlyRefusals_ofJson (kind : TraitKind) {j : Value} (json : j.IsJson) :
    OnlyRefusals j.HoldsLong (ofJson kind j) := by
  cases j with
  | dict entries =>
      have narrow : kind.layout.wordBits ≤ 256 := Int.le_of_eq kind.wordBits_eq
      refine (Layout.onlyRefusals_pack kind.layout_sound narrow json).bind fun word packed => ?_
      obtain ⟨_, used, _⟩ := kind.layout_sound.readFields_of_pack packed
      obtain ⟨t, same, plain, rfl⟩ := exists_of_used used
      rw [ofWord_of_pack packed, ofWord_strict_eq_ok_iff.mpr ⟨same, plain, rfl⟩]
      exact .ok t
  | _ => exact .fail rfl (.inl rfl)

/-! ## Types -/

theorem onlyRefusals_integerOfJson (j : Value) : OnlyRefusals False (integerOfJson j) := by
  cases j with
  | int n => exact .ok n
  | str s =>
      rw [integerOfJson]
      split
      · exact .ok _
      · exact .fail rfl (.inl rfl)
  | _ => exact .fail rfl (.inl rfl)

theorem spellsLong_of_integerOfJson {j : Value} {n : Int} (read : integerOfJson j = .ok n)
    (long : Text.decimal? n = none) : j.SpellsLong := by
  cases j with
  | int m =>
      cases read
      exact ⟨n, .inl (List.mem_singleton_self _), long⟩
  | str s =>
      refine ⟨n, .inr ⟨s, List.mem_singleton_self _, ?_⟩, long⟩
      rw [integerOfJson] at read
      split at read
      · cases read
        assumption
      · exact absurd read fail_ne_ok
  | _ => exact absurd read fail_ne_ok

theorem onlyRefusals_addressOfJson (j : Value) : OnlyRefusals False (addressOfJson j) := by
  cases j with
  | str s =>
      rw [addressOfJson]
      split
      · exact .ok _
      · exact .fail rfl (.inl rfl)
  | _ => exact .fail rfl (.inl rfl)

theorem OnlyRefusals.convertEach {long : Prop} {convert : Value → Except Error Value}
    {items : List Value} (h : ∀ v ∈ items, OnlyRefusals long (convert v)) :
    OnlyRefusals long (SwapCodec.convertEach convert items) := by
  induction items with
  | nil => exact .ok []
  | cons v items ih =>
      obtain ⟨first, others⟩ := List.forall_mem_cons.mp h
      exact first.bind fun x _ => (ih others).bind fun xs _ => .ok (x :: xs)

namespace ArgType

theorem onlyRefusals_checked {T : ArgType} {v : Value} {long : Prop}
    (h : OnlyRefusals long (T.check v)) : OnlyRefusals long (T.checked v) :=
  h.bind fun _ _ => .ok v

/-- Reading a narrow type from a document of any form. -/
theorem Narrow.onlyRefusals_ofJson {T : ArgType} (narrow : T.Narrow) {j : Value}
    (json : j.IsJson) : OnlyRefusals j.SpellsLong (T.ofJson j) := by
  induction T generalizing j with
  | word s w =>
      refine ((onlyRefusals_integerOfJson j).mono False.elim).bind fun n read => ?_
      exact (onlyRefusals_checked (narrow.onlyRefusals (.int n))).mono fun long =>
        spellsLong_of_integerOfJson read (Value.holdsLong_int_iff.mp long)
  | bool =>
      cases j with
      | bool b => exact .ok _
      | _ => exact .fail rfl (.inl rfl)
  | address =>
      refine ((onlyRefusals_addressOfJson j).mono False.elim).bind fun data _ => ?_
      refine (onlyRefusals_checked (narrow.onlyRefusals (.bytes data))).mono ?_
      rintro ⟨n, part, -⟩
      cases List.mem_singleton.mp part
  | traits kind =>
      refine ((Traits.onlyRefusals_ofJson kind json).mono (·.spellsLong)).bind fun t _ => ?_
      refine (onlyRefusals_checked (narrow.onlyRefusals (.traits t))).mono ?_
      rintro ⟨n, part, -⟩
      cases List.mem_singleton.mp part
  | array inner ih =>
      cases j with
      | list items =>
          have each : OnlyRefusals (Value.list items).SpellsLong (convertEach inner.ofJson items) :=
            .convertEach fun v mem => (ih narrow (json.mono (Value.parts_subset_list mem))).mono
              (·.mono (Value.parts_subset_list mem))
          refine each.bind fun values converted => onlyRefusals_checked ?_
          -- The elements have been checked before, so only their number can be wrong.
          have accepted : ∀ v ∈ values, inner.check v = .ok () := by
            have checked : List.Forall₂ (fun v j => inner.check v = .ok () ∧ inner.ofJson j = .ok v)
                values items := by
              refine (convertEach_eq_ok_iff.mp converted).flip.imp fun v j read => ?_
              obtain ⟨data, formed⟩ := exists_wire_of_ofJson read
              exact ⟨formed.check_eq_ok, read⟩
            exact ((List.forall₂_and_left values items).mp checked).1
          rw [check]
          split
          · exact .fail rfl (.inl rfl)
          · rw [checkEach_eq_ok_iff.mpr accepted]
            exact .ok ()
      | _ => exact .fail rfl (.inl rfl)

end ArgType

/-! ## Records -/

namespace Schema

variable {s : Schema} {given : List (Key × Value)}

theorem onlyRefusals_readDocument {entries : List (String × ArgType)}
    (narrow : ∀ entry ∈ entries, entry.2.Narrow) (record : String)
    (json : (Value.dict given).IsJson) :
    OnlyRefusals (Value.dict given).SpellsLong (readDocument record given entries) := by
  induction entries with
  | nil => exact .ok []
  | cons entry entries ih =>
      obtain ⟨name, T⟩ := entry
      obtain ⟨first, others⟩ := List.forall_mem_cons.mp narrow
      rw [readDocument]
      split
      · exact .fail rfl (.inl rfl)
      · rename_i j found
        obtain ⟨e, taken, rfl⟩ := Option.map_eq_some_iff.mp found
        have inside := Value.parts_subset_dict (List.mem_of_find?_eq_some taken)
        exact ((first.onlyRefusals_ofJson (json.mono inside)).mono (·.mono inside)).bind
          fun v _ => (ih others).bind fun more _ => .ok ((name, v) :: more)

/-- **Documents.** Reading arguments from a document of any form. -/
theorem Refusing.ofJson (h : s.Refusing) {j : Value} (json : j.IsJson) :
    OnlyRefusals j.SpellsLong (s.ofJson j) := by
  cases j with
  | dict given =>
      have even : (given.any fun e => isOddKey e.1) = false := by
        rw [List.any_eq_false]
        intro e mem
        rw [json.even e mem]
        exact Bool.false_ne_true
      rw [Schema.ofJson, even, if_neg Bool.false_ne_true]
      split
      · exact .fail rfl (.inl rfl)
      · refine (onlyRefusals_readDocument h.types s.record.name json).bind fun fields read => ?_
        obtain ⟨data, formed⟩ := exists_fieldsWire_of_readDocument read
        have checked := (formed.check_and_emits s.record.name
          fun field mem => formed.recordFields_of_mem h.built mem).1
        exact ((h.check_of_checkFields checked).mono False.elim).bind fun _ _ => .ok _
  | _ => exact .fail rfl (.inl rfl)

end Schema

end SwapCodec
