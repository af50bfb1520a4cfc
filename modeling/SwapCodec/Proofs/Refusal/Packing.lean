import SwapCodec.Proofs.Refusal.Quoted

/-!
# Refusing dictionaries

A dictionary is packed if every key names a field and every field accepts the value that it is
given (`Layout.exists_pack_iff`). Otherwise one offence is reported, and which one it is does not
depend on the order of the entries, an unknown key aside.

A key that names no field comes first (`Layout.exists_pack_eq_unknownField`). The values are looked
at in the order of the layout, so the first field that does not accept its value is reported, with
the value (`Layout.FirstOffence.pack_eq`), whatever the fields after it are given. The reports have
their messages if the integers in the dictionary have numerals, and then their kinds say what was
wrong (`packing_accepts_in_range`).
-/

set_option autoImplicit false

namespace SwapCodec

variable {L : Layout} {entries : List (Key × Value)} {f : BitField}
  {fs before after : List BitField} {v : Value}

/-! ## One field -/

namespace BitField

/-- A flag takes the truth values and the integers zero and one; a number takes the integers that
fit. -/
def Takes (f : BitField) (v : Value) : Prop :=
  if f.isFlag then (∃ b, v = .bool b) ∨ v = .int 0 ∨ v = .int 1
  else ∃ n : Int, v = .int n ∧ 0 ≤ n ∧ n < 2 ^ f.size

/-- The field takes the value that a dictionary gives it, if there is one. -/
def Accepts (f : BitField) (entries : List (Key × Value)) : Prop :=
  ∀ v, valueAt? (.str f.name) entries = some v → f.Takes v

/-- What is reported for a value that the field does not take. -/
def refusal (f : BitField) (layout : String) (v : Value) : Error :=
  if f.isFlag then .flagRequired layout f.name v
  else match v with
    | .int n => .fieldOverflow layout f.name n f.width
    | _ => .fieldIntegerRequired layout f.name v

theorem isSome_bits?_int_iff {n : Int} : (f.bits? (.int n)).isSome = true ↔ f.Takes (.int n) := by
  by_cases flag : f.isFlag = true
  · simp [bits?, Takes, flag]
  · simp only [bits?, Takes, flag, Bool.false_eq_true, if_false, Nat.pow_eq, Value.int.injEq,
      exists_eq_left', Option.isSome_ite]
    constructor
    · rintro ⟨natural, small⟩
      refine ⟨natural, ?_⟩
      rw [← Int.toNat_of_nonneg natural]
      exact_mod_cast small
    · rintro ⟨natural, small⟩
      refine ⟨natural, ?_⟩
      rw [← Int.toNat_of_nonneg natural] at small
      exact_mod_cast small

theorem isSome_bits?_bool_iff {b : Bool} :
    (f.bits? (.bool b)).isSome = true ↔ f.Takes (.bool b) := by
  by_cases flag : f.isFlag = true <;> simp [bits?, Takes, flag]

theorem takes_iff : f.Takes v ↔ ∃ x, v.asField? = some x ∧ (f.bits? x).isSome = true := by
  cases v with
  | int n => simp [Value.asField?, isSome_bits?_int_iff]
  | bool b => simp [Value.asField?, isSome_bits?_bool_iff]
  | _ => by_cases flag : f.isFlag = true <;> simp [Takes, Value.asField?, flag]

theorem takes_zero (f : BitField) : f.Takes (.int 0) := by
  by_cases flag : f.isFlag = true
  · simp [Takes, flag]
  · rw [Takes, if_neg flag]
    exact ⟨0, rfl, Int.le_refl 0, Int.pow_pos (by decide)⟩

/-- A missing field is zero, which every field takes. -/
theorem accepts_iff : f.Accepts entries ↔ f.Takes (Layout.givenValue entries f) := by
  rw [Accepts, Layout.givenValue]
  cases valueAt? (.str f.name) entries with
  | none => simp [takes_zero]
  | some v => simp

end BitField

namespace Layout

theorem exists_fieldValue_iff : (∃ x, L.fieldValue f v = .ok x) ↔ f.Takes v := by
  simp only [fieldValue_eq_ok_iff, BitField.takes_iff]

theorem fieldValue_eq_fail (refused : ¬ f.Takes v) :
    L.fieldValue f v = fail (f.refusal L.name v) := by
  have untaken : ∀ x, v.asField? = some x → ¬ (f.bits? x).isSome = true :=
    fun x given taken => refused (BitField.takes_iff.mpr ⟨x, given, taken⟩)
  unfold fieldValue BitField.refusal
  cases v with
  | int n => simp only [Value.asField?, if_neg (untaken (.int n) rfl), apply_ite fail]
  | bool b => simp only [Value.asField?, if_neg (untaken (.bool b) rfl), apply_ite fail]
  | _ => simp only [Value.asField?, apply_ite fail]

/-! ## All fields -/

theorem exists_fieldValues_iff :
    (∃ vs, L.fieldValues entries fs = .ok vs) ↔ ∀ f ∈ fs, f.Accepts entries := by
  induction fs with
  | nil => simp [fieldValues]
  | cons f fs ih =>
      rw [List.forall_mem_cons, ← ih, BitField.accepts_iff, ← exists_fieldValue_iff]
      simp only [fieldValues, Except.bind_eq_ok_iff, pure, Except.pure, Except.ok.injEq]
      constructor
      · rintro ⟨_, x, first, xs, rest, -⟩
        exact ⟨⟨x, first⟩, xs, rest⟩
      · rintro ⟨⟨x, first⟩, xs, rest⟩
        exact ⟨_, x, first, xs, rest, rfl⟩

/-- The values before the first offence are taken, and those after it are not looked at. -/
theorem fieldValues_eq_fail (accepted : ∀ g ∈ before, g.Accepts entries)
    (given : valueAt? (.str f.name) entries = some v) (refused : ¬ f.Takes v) :
    L.fieldValues entries (before ++ f :: after) = fail (f.refusal L.name v) := by
  induction before with
  | nil =>
      have value : givenValue entries f = v := by rw [givenValue, given, Option.getD_some]
      rw [List.nil_append, fieldValues, value, fieldValue_eq_fail refused]
      rfl
  | cons g before ih =>
      obtain ⟨first, others⟩ := List.forall_mem_cons.mp accepted
      obtain ⟨x, taken⟩ := exists_fieldValue_iff.mpr (BitField.accepts_iff.mp first)
      rw [List.cons_append, fieldValues, taken, Except.ok_bind, ih others]
      rfl

/-! ## Keys -/

/-- Every key names a field. -/
def Knows (L : Layout) (entries : List (Key × Value)) : Prop :=
  ∀ e ∈ entries, ∃ f ∈ L.fields, e.1 = .str f.name

theorem knows_iff {key : Key} : L.knows key = true ↔ ∃ f ∈ L.fields, key = .str f.name := by
  cases key with
  | str name =>
      simp only [knows, find?, List.find?_isSome, beq_iff_eq, Key.str.injEq]
      exact exists_congr fun f => and_congr_right fun _ => eq_comm
  | _ => simp [knows]

theorem Knows.find?_eq_none (known : L.Knows entries) :
    (entries.find? fun e => !L.knows e.1) = none := by
  rw [List.find?_eq_none]
  intro e mem
  rw [knows_iff.mpr (known e mem)]
  exact Bool.false_ne_true

/-! ## Dictionaries -/

/-- **Accepted dictionaries.** -/
theorem exists_pack_iff :
    (∃ word, L.pack entries = .ok word) ↔
      L.Knows entries ∧ ∀ f ∈ L.fields, f.Accepts entries := by
  simp only [pack_eq_ok_iff, knows_iff]
  rw [← exists_fieldValues_iff (L := L)]
  constructor
  · rintro ⟨word, known, vs, given, -⟩
    exact ⟨known, vs, fieldValues_eq_ok_iff.mpr given⟩
  · rintro ⟨known, vs, taken⟩
    have given := fieldValues_eq_ok_iff.mp taken
    obtain ⟨word, packed⟩ := Option.isSome_iff_exists.mp
      (isSome_packBits? (given.imp fun _ _ field => field.taken))
    exact ⟨word, known, vs, given, packed⟩

/-- An unknown key is reported before any value is looked at. -/
theorem exists_pack_eq_unknownField (unknown : ¬ L.Knows entries) :
    ∃ e ∈ entries, L.pack entries = fail (.unknownField L.name e.1.toValue) := by
  rw [pack]
  cases found : entries.find? fun e => !L.knows e.1 with
  | some e => exact ⟨e, List.mem_of_find?_eq_some found, rfl⟩
  | none =>
      refine absurd (fun e mem => knows_iff.mp ?_) unknown
      simpa using List.find?_eq_none.mp found e mem

/-- Every key names a field, and `f` is the first field in layout order that does not take the
value it is given, which is `v`. -/
structure FirstOffence (L : Layout) (entries : List (Key × Value)) (f : BitField) (v : Value) :
    Prop where
  /-- No key is unknown. -/
  known : L.Knows entries
  /-- The fields before this one accept what they are given. -/
  first : ∃ before after, L.fields = before ++ f :: after ∧ ∀ g ∈ before, g.Accepts entries
  /-- The field is given the value. -/
  given : valueAt? (.str f.name) entries = some v
  /-- It does not take the value. -/
  refused : ¬ f.Takes v

theorem FirstOffence.mem (offence : L.FirstOffence entries f v) : f ∈ L.fields := by
  obtain ⟨before, after, fields, -⟩ := offence.first
  rw [fields]
  exact List.mem_append_right before List.mem_cons_self

theorem FirstOffence.parts_subset (offence : L.FirstOffence entries f v) :
    v.parts ⊆ (Value.dict entries).parts := by
  obtain ⟨e, found, rfl⟩ := Option.map_eq_some_iff.mp offence.given
  exact Value.parts_subset_dict (List.mem_of_find?_eq_some found)

/-- The first offence is what packing reports. -/
theorem FirstOffence.pack_eq (offence : L.FirstOffence entries f v) :
    L.pack entries = fail (f.refusal L.name v) := by
  obtain ⟨known, ⟨before, after, fields, accepted⟩, given, refused⟩ := offence
  rw [pack, known.find?_eq_none, fields]
  show L.fieldValues entries (before ++ f :: after) >>= _ = _
  rw [fieldValues_eq_fail accepted given refused]
  rfl

/-- If every key names a field and the dictionary is not accepted, then there is a first offence. -/
theorem Knows.exists_firstOffence (known : L.Knows entries)
    (refused : ¬ ∀ f ∈ L.fields, f.Accepts entries) : ∃ f v, L.FirstOffence entries f v := by
  classical
  push Not at refused
  obtain ⟨g, mem, offends⟩ := refused
  have found : (L.fields.find? fun f => decide ¬ f.Accepts entries).isSome = true :=
    List.find?_isSome.mpr ⟨g, mem, decide_eq_true offends⟩
  obtain ⟨f, found⟩ := Option.isSome_iff_exists.mp found
  obtain ⟨stops, before, after, fields, passed⟩ := List.find?_eq_some_iff_append.mp found
  obtain ⟨v, given, refused⟩ : ∃ v, valueAt? (.str f.name) entries = some v ∧ ¬ f.Takes v := by
    simpa [BitField.Accepts] using stops
  exact ⟨f, v, known, ⟨before, after, fields, fun b inside => by simpa using passed b inside⟩,
    given, refused⟩

end Layout

/-! ## The kinds of reports -/

namespace BitField

theorem refusal_kind_of_flag (flag : f.isFlag = true) (layout : String) (v : Value) :
    (f.refusal layout v).kind = .range := by
  unfold refusal
  rw [if_pos flag]
  rfl

theorem refusal_kind_of_int (flag : f.isFlag = false) (layout : String) (n : Int) :
    (f.refusal layout (.int n)).kind = .range := by
  simp only [refusal, flag, Bool.false_eq_true, if_false]
  rfl

theorem refusal_kind_of_ne_int (flag : f.isFlag = false) (layout : String)
    (other : ∀ n, v ≠ .int n) : (f.refusal layout v).kind = .validation := by
  cases v with
  | int n => exact absurd rfl (other n)
  | _ =>
      simp only [refusal, flag, Bool.false_eq_true, if_false]
      rfl

theorem refusal_known (f : BitField) (layout : String) (v : Value) :
    (f.refusal layout v).kind = .validation ∨ (f.refusal layout v).kind = .range := by
  cases flag : f.isFlag with
  | true => exact .inr (refusal_kind_of_flag flag layout v)
  | false =>
      by_cases integer : ∃ n, v = .int n
      · obtain ⟨n, rfl⟩ := integer
        exact .inr (refusal_kind_of_int flag layout n)
      · exact .inl (refusal_kind_of_ne_int flag layout fun n same => integer ⟨n, same⟩)

theorem isWordless_refusal (f : BitField) (layout : String) (v : Value) :
    (f.refusal layout v).isWordless = false := by
  unfold refusal
  split
  · rfl
  · split <;> rfl

theorem unworded_refusal (f : BitField) (layout : String) (v : Value) :
    (f.refusal layout v).unworded = .numeralTooLong := by
  unfold refusal
  split
  · rfl
  · split <;> rfl

/-- A flag quotes what it refuses. A number quotes an integer and how wide the field is. -/
theorem isSome_message?_refusal (spelled : v.Spelled) (layout : String)
    (numeral : f.isFlag = false → ∀ n, v = .int n → (Text.decimal? f.width).isSome = true) :
    (f.refusal layout v).message?.isSome = true := by
  obtain ⟨text, quoted⟩ := Option.isSome_iff_exists.mp spelled.isSome_quoted?
  unfold refusal
  split
  · simp [Error.message?, quoted]
  · rename_i number
    split
    · rename_i n
      obtain ⟨bits, counted⟩ := Option.isSome_iff_exists.mp
        (numeral (Bool.eq_false_iff.mpr number) n rfl)
      rw [Value.quoted?] at quoted
      simp [Error.message?, quoted, counted]
    · rfl

end BitField

theorem Key.quoted?_toValue (key : Key) : key.toValue.quoted? = key.quoted? := by
  cases key <;> rfl

namespace Layout

theorem failsWith_pack_of_unknown (spelled : (Value.dict entries).Spelled)
    (unknown : ¬ L.Knows entries) : FailsWith (L.pack entries) .validation := by
  obtain ⟨e, mem, reported⟩ := exists_pack_eq_unknownField unknown
  rw [reported]
  refine failsWith_fail (e := .unknownField L.name e.1.toValue) (Option.isSome_map.trans ?_)
  rw [Key.quoted?_toValue]
  exact spelled.isSome_quoted?_key mem

theorem FirstOffence.failsWith (offence : L.FirstOffence entries f v)
    (spelled : (Value.dict entries).Spelled)
    (numeral : f.isFlag = false → ∀ n, v = .int n → (Text.decimal? f.width).isSome = true) :
    FailsWith (L.pack entries) (f.refusal L.name v).kind := by
  rw [offence.pack_eq]
  exact failsWith_fail
    (BitField.isSome_message?_refusal (spelled.mono offence.parts_subset) L.name numeral)

end Layout

/-- **Accepted and refused dictionaries.** Take any layout and any dictionary.

It is packed exactly if every key names a field and every field takes the value that it is given:
a flag takes the truth values and the integers zero and one, and a number takes the integers that
fit. An unknown key is reported as a validation error, whatever else is wrong. Otherwise there is a
field that comes first in the layout among those that do not take their value, and it decides. For
a flag, and for an integer that does not fit, a range error is reported, and for a value of another
kind in a number a validation error. A range error about a number also quotes the width of the
field. -/
theorem packing_accepts_in_range (L : Layout) (entries : List (Key × Value)) :
    ((∃ word, L.pack entries = .ok word) ↔
      L.Knows entries ∧ ∀ f ∈ L.fields, f.Accepts entries) ∧
    ((Value.dict entries).Spelled → ¬ L.Knows entries → FailsWith (L.pack entries) .validation) ∧
    (L.Knows entries → (¬ ∃ word, L.pack entries = .ok word) →
      ∃ f v, L.FirstOffence entries f v) ∧
    ∀ f v, L.FirstOffence entries f v → (Value.dict entries).Spelled →
      (f.isFlag = true → FailsWith (L.pack entries) .range) ∧
      (f.isFlag = false → ∀ n, v = .int n → (Text.decimal? f.width).isSome = true →
        FailsWith (L.pack entries) .range) ∧
      (f.isFlag = false → (∀ n, v ≠ .int n) → FailsWith (L.pack entries) .validation) := by
  refine ⟨Layout.exists_pack_iff, Layout.failsWith_pack_of_unknown, fun known refused => ?_, ?_⟩
  · exact known.exists_firstOffence fun accepted =>
      refused (Layout.exists_pack_iff.mpr ⟨known, accepted⟩)
  · intro f v offence spelled
    refine ⟨fun flag => ?_, fun flag n integer numeral => ?_, fun flag other => ?_⟩
    · rw [← BitField.refusal_kind_of_flag flag L.name v]
      exact offence.failsWith spelled fun number => absurd flag (by simp [number])
    · subst integer
      rw [← BitField.refusal_kind_of_int flag L.name n]
      exact offence.failsWith spelled fun _ _ _ => numeral
    · rw [← BitField.refusal_kind_of_ne_int flag L.name other]
      exact offence.failsWith spelled fun _ n integer => absurd integer (other n)

/-- The field that is first in the layout decides, not the first entry, and an unknown key comes
before both. -/
theorem packing_accepts_in_range_small :
    let L : Layout := ⟨"Small", [.uint "a" 0 4, .flag "b" 4], 8⟩
    let unknown : List (Key × Value) := [(.str "a", .int 16), (.str "c", .int 0)]
    let both : List (Key × Value) := [(.str "b", .int 2), (.str "a", .bool true)]
    let flagged : List (Key × Value) := [(.str "b", .int 2), (.str "a", .int 15)]
    let wide : List (Key × Value) := [(.str "b", .null), (.str "a", .int 16)]
    (∃ word, L.pack [(.str "b", .int 1)] = .ok word) ∧
      FailsWith (L.pack unknown) .validation ∧ FailsWith (L.pack both) .validation ∧
      FailsWith (L.pack flagged) .range ∧ FailsWith (L.pack wide) .range := by
  intro L unknown both flagged wide
  have known : ∀ v w, L.Knows [(.str "b", v), (.str "a", w)] := by
    simp [L, Layout.Knows, BitField.uint, BitField.flag]
  have offenceA : ∀ v w, ¬ (BitField.uint "a" 0 4).Takes w →
      L.FirstOffence [(.str "b", v), (.str "a", w)] (.uint "a" 0 4) w :=
    fun v w refused => ⟨known v w, ⟨[], _, rfl, by simp⟩, rfl, refused⟩
  have offenceB : L.FirstOffence flagged (.flag "b" 4) (.int 2) := by
    refine ⟨known _ _, ⟨[.uint "a" 0 4], [], rfl, ?_⟩, rfl, ?_⟩
    · simp [flagged, BitField.accepts_iff, Layout.givenValue, valueAt?_cons, Key.same_str,
        BitField.Takes, BitField.uint, BitField.size]
    · simp [BitField.Takes, BitField.flag]
  refine ⟨(packing_accepts_in_range L _).1.mpr ⟨?_, ?_⟩,
    (packing_accepts_in_range L unknown).2.1 ?_ ?_,
    ((packing_accepts_in_range L both).2.2.2 _ _ (offenceA _ _ ?_) ?_).2.2 rfl ?_,
    ((packing_accepts_in_range L flagged).2.2.2 _ _ offenceB ?_).1 rfl,
    ((packing_accepts_in_range L wide).2.2.2 _ _ (offenceA _ _ ?_) ?_).2.1 rfl _ rfl ?_⟩
  · simp [L, Layout.Knows, BitField.uint, BitField.flag]
  · simp [L, BitField.Accepts, valueAt?, Key.same_str, BitField.Takes, BitField.uint, BitField.flag]
  · decide +kernel
  · simp [L, unknown, Layout.Knows, BitField.uint, BitField.flag]
  · simp [BitField.Takes, BitField.uint]
  · decide +kernel
  · simp
  · decide +kernel
  · simp [BitField.Takes, BitField.uint, BitField.size]
  · decide +kernel
  · decide +kernel

end SwapCodec
