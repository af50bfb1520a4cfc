import SwapCodec.Proofs.Layout.Packing
import SwapCodec.Proofs.Flaws

/-!
# Layouts that are accepted

Fields fit together in a word if their names are distinct, each of them lies inside the word,
and no bit belongs to two of them (`FieldsFit`). Nothing of this depends on the order of the
fields (`FieldsFit.perm`).

A layout is built field by field, with the word of the bits that are taken so far. For a field
inside the word, the bits of its mask are the bits that it covers
(`BitField.Placed.testBit_mask_iff`). So masks without a common bit are ranges without one
(`BitField.Placed.mask_and_mask_eq_zero_iff`), and a layout is built exactly of fields that fit
together (`Layout.build_eq_ok_iff_fieldsFit`).

Of the faults, only a field beyond the word is reported with numbers in the message, and there
the fault bounds the width of the word (`BitField.of_fault?_eq_beyondWord`). So every fault is
reported as one of the layout, unless the numbers of the field have too many digits
(`Layout.failsWith_build`).
-/

set_option autoImplicit false

namespace SwapCodec

/-! ## Bits of fields -/

namespace BitField

/-- The bit is in the range of the field. -/
def Covers (f : BitField) (bit : Int) : Prop := f.offset ≤ bit ∧ bit < f.offset + f.width

instance (f : BitField) (bit : Int) : Decidable (f.Covers bit) :=
  inferInstanceAs (Decidable (_ ∧ _))

/-- No bit is in the ranges of both fields. -/
def Apart (f g : BitField) : Prop := ∀ bit, ¬ (f.Covers bit ∧ g.Covers bit)

variable {f g : BitField} {wordBits : Int}

theorem Apart.symm (apart : f.Apart g) : g.Apart f := by
  intro bit both
  exact apart bit both.symm

theorem Placed.testBit_mask_iff (h : f.Placed wordBits) (bit : Nat) :
    f.mask.testBit bit = true ↔ f.Covers bit := by
  have width_pos := h.width_pos
  have offset_nonneg := h.offset_nonneg
  rw [testBit_mask, decide_eq_true_eq, Covers, start, size]
  omega

theorem Placed.mask_and_mask_eq_zero_iff (hf : f.Placed wordBits) (hg : g.Placed wordBits) :
    f.mask &&& g.mask = 0 ↔ f.Apart g := by
  constructor
  · rintro clear bit ⟨here, there⟩
    obtain ⟨i, rfl⟩ := Int.eq_ofNat_of_zero_le (Int.le_trans hf.offset_nonneg here.1)
    have common : (f.mask &&& g.mask).testBit i = true := by
      rw [Nat.testBit_and, (hf.testBit_mask_iff i).mpr here, (hg.testBit_mask_iff i).mpr there]
      rfl
    rw [clear, Nat.zero_testBit] at common
    cases common
  · intro apart
    apply Nat.eq_of_testBit_eq
    intro i
    rw [Nat.testBit_and, Nat.zero_testBit, Bool.and_eq_false_iff]
    by_contra common
    simp only [not_or, Bool.not_eq_false, hf.testBit_mask_iff, hg.testBit_mask_iff] at common
    exact apart i common

end BitField

/-! ## Fields that fit together -/

/-- The fields have distinct names, each of them lies inside the word, and no bit belongs to two
of them. -/
structure FieldsFit (wordBits : Int) (fields : List BitField) : Prop where
  /-- No two fields have the same name. -/
  distinct : (fields.map (·.name)).Nodup
  /-- Every field has at least one bit, all of its bits inside the word, and one bit if it is a
  flag. -/
  placed : ∀ f ∈ fields, f.Placed wordBits
  /-- No two fields share a bit. -/
  apart : fields.Pairwise BitField.Apart

theorem FieldsFit.perm {wordBits : Int} {fields reordered : List BitField}
    (fit : FieldsFit wordBits fields) (same : fields.Perm reordered) :
    FieldsFit wordBits reordered where
  distinct := (same.map _).nodup_iff.mp fit.distinct
  placed := fun f mem => fit.placed f (same.mem_iff.mpr mem)
  apart := (same.pairwise_iff BitField.Apart.symm).mp fit.apart

theorem Layout.sound_iff_fieldsFit {L : Layout} : L.Sound ↔ FieldsFit L.wordBits L.fields := by
  have separate (placed : ∀ f ∈ L.fields, f.Placed L.wordBits) :
      (L.fields.Pairwise fun f g => f.mask &&& g.mask = 0) ↔ L.fields.Pairwise BitField.Apart :=
    List.Pairwise.iff_of_mem fun mem mem' =>
      (placed _ mem).mask_and_mask_eq_zero_iff (placed _ mem')
  constructor
  · intro sound
    exact ⟨sound.distinct, sound.placed, (separate sound.placed).mp sound.disjoint⟩
  · intro fit
    exact ⟨fit.placed, (separate fit.placed).mpr fit.apart, fit.distinct⟩

theorem Layout.build_eq_ok_iff_fieldsFit {name : String} {fields : List BitField}
    {wordBits : Int} {L : Layout} :
    build name fields wordBits = .ok L ↔
      L = ⟨name, fields, wordBits⟩ ∧ FieldsFit wordBits fields := by
  rw [build_eq_ok_iff]
  refine and_congr_right fun same => ?_
  rw [same, sound_iff_fieldsFit]

theorem Layout.exists_build_iff {name : String} {fields : List BitField} {wordBits : Int} :
    (∃ L, build name fields wordBits = .ok L) ↔ FieldsFit wordBits fields := by
  simp only [build_eq_ok_iff_fieldsFit]
  exact ⟨fun ⟨_, _, fit⟩ => fit, fun fit => ⟨_, rfl, fit⟩⟩

/-! ## Fields at fault -/

/-- A field at fault is one of the fields. -/
theorem exists_fault?_of_layoutFault? {wordBits : Int} {names : List String} {used : Nat}
    {fs : List BitField} {f : BitField} {flaw : LayoutFault}
    (found : layoutFault? wordBits names used fs = some (f, flaw)) :
    f ∈ fs ∧ ∃ names used, f.fault? wordBits names used = some flaw := by
  induction fs generalizing names used with
  | nil => cases found
  | cons first fs ih =>
      rw [layoutFault?] at found
      cases fault : first.fault? wordBits names used with
      | some own =>
          rw [fault] at found
          cases found
          exact ⟨List.mem_cons_self, names, used, fault⟩
      | none =>
          rw [fault] at found
          obtain ⟨mem, faulty⟩ := ih found
          exact ⟨List.mem_cons_of_mem first mem, faulty⟩

/-- The range of a field is looked at before its end is compared with that of the word. -/
theorem BitField.of_fault?_eq_beyondWord {wordBits : Int} {names : List String} {used : Nat}
    {f : BitField} (found : f.fault? wordBits names used = some .beyondWord) :
    0 < f.width ∧ 0 ≤ f.offset ∧ wordBits < f.stop := by
  simp only [fault?, ite_some_eq_some_iff, reduceCtorEq, and_false, false_or, or_false, and_true,
    Bool.or_eq_true, decide_eq_true_eq, not_or, Int.not_le, Int.not_lt] at found
  obtain ⟨-, ⟨width_pos, offset_nonneg⟩, -, beyond⟩ := found
  exact ⟨width_pos, offset_nonneg, beyond⟩

theorem isSome_layoutMessage? {layout : String} {f : BitField} {wordBits : Int}
    {flaw : LayoutFault}
    (numerals : flaw = .beyondWord → (Text.decimal? f.offset).isSome = true ∧
      (Text.decimal? (f.stop - 1)).isSome = true ∧ (Text.decimal? wordBits).isSome = true) :
    (layoutMessage? layout f wordBits flaw).isSome = true := by
  cases flaw with
  | beyondWord =>
      obtain ⟨offset, stop, limit⟩ := numerals rfl
      obtain ⟨first, firstNumeral⟩ := Option.isSome_iff_exists.mp offset
      obtain ⟨last, lastNumeral⟩ := Option.isSome_iff_exists.mp stop
      obtain ⟨bits, bitsNumeral⟩ := Option.isSome_iff_exists.mp limit
      simp [layoutMessage?, firstNumeral, lastNumeral, bitsNumeral]
  | _ => rfl

theorem Text.two_mul_short_le_tooLong : 2 * 10 ^ 3999 ≤ Text.tooLong := by
  decide +kernel

/-- Fields whose numbers have fewer than 4000 digits and do not fit together are refused as a
faulty layout. -/
theorem Layout.failsWith_build {name : String} {fields : List BitField} {wordBits : Int}
    (natural : 0 ≤ wordBits)
    (short : ∀ f ∈ fields, f.offset.natAbs < 10 ^ 3999 ∧ f.width.natAbs < 10 ^ 3999)
    (unfit : ¬ FieldsFit wordBits fields) : FailsWith (build name fields wordBits) .layout := by
  cases fault : layoutFault? wordBits [] 0 fields with
  | none =>
      have built : build name fields wordBits = .ok ⟨name, fields, wordBits⟩ := by
        rw [build, fault]
      exact absurd (exists_build_iff.mp ⟨_, built⟩) unfit
  | some found =>
      obtain ⟨f, flaw⟩ := found
      obtain ⟨mem, names, used, faulty⟩ := exists_fault?_of_layoutFault? fault
      rw [build, fault]
      refine failsWith_fail (e := .badLayout name f wordBits flaw) (isSome_layoutMessage? ?_)
      rintro rfl
      obtain ⟨width_pos, offset_nonneg, beyond⟩ := BitField.of_fault?_eq_beyondWord faulty
      obtain ⟨offset, width⟩ := short f mem
      have limit := Text.two_mul_short_le_tooLong
      rw [BitField.stop] at *
      generalize 10 ^ 3999 = bound at *
      exact ⟨Text.isSome_decimal? (by omega), Text.isSome_decimal? (by omega),
        Text.isSome_decimal? (by omega)⟩

/-- **Accepted layouts.** A layout is built exactly of fields with distinct names that lie inside
the word, where a flag has one bit and no bit belongs to two fields, and all other fields are
refused as a faulty layout. A bit of the mask of a layout that was built is set exactly if a
field covers it. Whether a layout is built does not depend on the order of the fields. -/
theorem layout_accepted_iff_fit (name : String) {fields : List BitField} {wordBits : Int}
    (natural : 0 ≤ wordBits)
    (short : ∀ f ∈ fields, f.offset.natAbs < 10 ^ 3999 ∧ f.width.natAbs < 10 ^ 3999) :
    ((∃ L, Layout.build name fields wordBits = .ok L) ↔ FieldsFit wordBits fields) ∧
    (¬ FieldsFit wordBits fields → FailsWith (Layout.build name fields wordBits) .layout) ∧
    (∀ L, Layout.build name fields wordBits = .ok L →
      L = ⟨name, fields, wordBits⟩ ∧
        ∀ bit : Nat, L.usedMask.testBit bit = true ↔ ∃ f ∈ fields, f.Covers bit) ∧
    ∀ reordered, fields.Perm reordered →
      ((∃ L, Layout.build name reordered wordBits = .ok L) ↔
        ∃ L, Layout.build name fields wordBits = .ok L) := by
  refine ⟨Layout.exists_build_iff, Layout.failsWith_build natural short, ?_, ?_⟩
  · intro L built
    obtain ⟨rfl, fit⟩ := Layout.build_eq_ok_iff_fieldsFit.mp built
    refine ⟨rfl, fun bit => ?_⟩
    rw [Layout.usedMask_eq, testBit_maskOf_iff]
    refine exists_congr fun f => and_congr_right fun mem => ?_
    exact (fit.placed f mem).testBit_mask_iff bit
  · intro reordered same
    rw [Layout.exists_build_iff, Layout.exists_build_iff]
    exact ⟨fun fit => fit.perm same.symm, fun fit => fit.perm same⟩

/-- A number and a flag right after it fit together, in either order. One bit earlier the flag
shares a bit with the number. -/
theorem layout_accepted_iff_fit_adjacent :
    let fields : List BitField := [.uint "a" 0 4, .flag "b" 4]
    let overlapping : List BitField := [.uint "a" 0 4, .flag "b" 3]
    (∀ f ∈ fields, f.offset.natAbs < 10 ^ 3999 ∧ f.width.natAbs < 10 ^ 3999) ∧
      (∀ f ∈ overlapping, f.offset.natAbs < 10 ^ 3999 ∧ f.width.natAbs < 10 ^ 3999) ∧
      (∃ L, Layout.build "Small" fields.reverse 8 = .ok L) ∧
      (⟨"Small", fields, 8⟩ : Layout).usedMask.testBit 4 = true ∧
      ¬ (⟨"Small", fields, 8⟩ : Layout).usedMask.testBit 5 = true ∧
      FailsWith (Layout.build "Small" overlapping 8) .layout := by
  intro fields overlapping
  have short : ∀ f ∈ fields, f.offset.natAbs < 10 ^ 3999 ∧ f.width.natAbs < 10 ^ 3999 := by
    decide +kernel
  have shortToo : ∀ f ∈ overlapping, f.offset.natAbs < 10 ^ 3999 ∧ f.width.natAbs < 10 ^ 3999 := by
    decide +kernel
  have natural : (0 : Int) ≤ 8 := by decide
  have built : Layout.build "Small" fields 8 = .ok ⟨"Small", fields, 8⟩ := rfl
  have shared : ¬ FieldsFit 8 overlapping := by
    intro fit
    have apart := List.rel_of_pairwise_cons fit.apart List.mem_cons_self
    exact apart 3 ⟨by decide, by decide⟩
  obtain ⟨-, -, bits, reordered⟩ := layout_accepted_iff_fit "Small" natural short
  obtain ⟨-, covered⟩ := bits _ built
  obtain ⟨-, refused, -⟩ := layout_accepted_iff_fit "Small" natural shortToo
  refine ⟨short, shortToo, (reordered _ (List.reverse_perm fields).symm).mpr ⟨_, built⟩, ?_, ?_,
    refused shared⟩
  · exact (covered 4).mpr ⟨.flag "b" 4, by decide, by decide⟩
  · rw [covered 5]
    decide

end SwapCodec
