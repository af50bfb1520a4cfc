import SwapCodec.Layout.Packing
import Mathlib.Data.Nat.Bitwise
import Mathlib.Data.List.Pairwise

/-!
# Packing loses nothing

A field of a word is described bit by bit: the bits of its mask, of a value put
in its place and of the value taken out of a word (`BitField.testBit_mask`,
`BitField.testBit_place`, `BitField.testBit_extract`).

A layout is sound when its fields lie inside the word, a flag has one bit, and
no two fields share a bit or a name. These are the layouts that have no fault
(`Layout.sound_iff`). Over a sound layout the word of packed values gives every
value back (`extract_of_packBits?`), and packing the fields of any word gives
the part of the word that belongs to fields (`packBits?_read`).
-/

set_option autoImplicit false

namespace SwapCodec

/-! ## The bits of one field -/

namespace BitField

theorem testBit_ones (n i : Nat) : (Nat.pow 2 n - 1).testBit i = decide (i < n) := by
  rw [Nat.pow_eq, Nat.testBit_two_pow_sub_one]

theorem testBit_mask (f : BitField) (i : Nat) :
    f.mask.testBit i = decide (f.start ≤ i ∧ i < f.start + f.size) := by
  rw [mask, Nat.testBit_shiftLeft, testBit_ones, Bool.decide_and]
  by_cases above : f.start ≤ i
  · simp only [above, decide_true, Bool.true_and, decide_eq_decide]
    omega
  · simp [above]

theorem testBit_place (f : BitField) (bits i : Nat) :
    (f.place bits).testBit i = (decide (f.start ≤ i) && bits.testBit (i - f.start)) := by
  rw [place, Nat.testBit_shiftLeft]

theorem testBit_extract (f : BitField) (word i : Nat) :
    (f.extract word).testBit i = (word.testBit (f.start + i) && decide (i < f.size)) := by
  rw [extract, Nat.testBit_and, Nat.testBit_shiftRight, testBit_ones]

theorem extract_lt (f : BitField) (word : Nat) : f.extract word < 2 ^ f.size :=
  Nat.and_lt_two_pow _ (Nat.sub_lt (Nat.two_pow_pos _) (by decide))

/-- The value of a field, put back in its place, is the part of the word that
the field covers. -/
theorem place_extract (f : BitField) (word : Nat) :
    f.place (f.extract word) = word &&& f.mask := by
  apply Nat.eq_of_testBit_eq
  intro i
  rw [testBit_place, testBit_extract, Nat.testBit_and, testBit_mask]
  by_cases above : f.start ≤ i
  · have back : f.start + (i - f.start) = i := by omega
    have inside : i - f.start < f.size ↔ i < f.start + f.size := by omega
    simp [above, back, inside]
  · simp [above]

/-- Words that agree on the mask of a field have the same value there. -/
theorem extract_congr {f : BitField} {word other : Nat}
    (same : word &&& f.mask = other &&& f.mask) : f.extract word = f.extract other := by
  apply Nat.eq_of_testBit_eq
  intro i
  rw [testBit_extract, testBit_extract]
  by_cases inside : i < f.size
  · have here := congrArg (·.testBit (f.start + i)) same
    simpa [testBit_mask, inside] using here
  · simp [inside]

theorem extract_place {f : BitField} {bits : Nat} (small : bits < 2 ^ f.size) :
    f.extract (f.place bits) = bits := by
  apply Nat.eq_of_testBit_eq
  intro i
  rw [testBit_extract, testBit_place, Nat.add_sub_cancel_left]
  by_cases inside : i < f.size
  · simp [inside]
  · have beyond : bits < 2 ^ i := small.trans_le (Nat.pow_le_pow_right (by decide) (by omega))
    simp [inside, Nat.testBit_eq_false_of_lt beyond]

theorem place_and_mask {f : BitField} {bits : Nat} (small : bits < 2 ^ f.size) :
    f.place bits &&& f.mask = f.place bits := by
  rw [← place_extract, extract_place small]

end BitField

/-! ## Fields that fit together -/

/-- A field with at least one bit, all of its bits inside the word, and one bit
if it is a flag. -/
structure BitField.Placed (wordBits : Int) (f : BitField) : Prop where
  width_pos : 0 < f.width
  offset_nonneg : 0 ≤ f.offset
  flag_width : f.isFlag = true → f.width = 1
  stop_le : f.stop ≤ wordBits

/-- The fields lie inside the word and share neither bits nor names. -/
structure Layout.Sound (L : Layout) : Prop where
  placed : ∀ f ∈ L.fields, f.Placed L.wordBits
  disjoint : L.fields.Pairwise fun f g => f.mask &&& g.mask = 0
  distinct : L.names.Nodup

/-- A chain of faults finds none when its first test fails and so do the others. -/
theorem ite_some_eq_none_iff {α : Type} {c : Prop} [Decidable c] {a : α} {x : Option α} :
    (if c then some a else x) = none ↔ ¬ c ∧ x = none := by
  split <;> simp [*]

/-- What a chain of faults finds, it finds in its first test or in the others. -/
theorem ite_some_eq_some_iff {α : Type} {c : Prop} [Decidable c] {a b : α} {x : Option α} :
    (if c then some a else x) = some b ↔ c ∧ a = b ∨ ¬ c ∧ x = some b := by
  split <;> simp [*]

theorem BitField.fault?_eq_none_iff {wordBits : Int} {names : List String} {used : Nat}
    {f : BitField} :
    f.fault? wordBits names used = none ↔
      f.name ∉ names ∧ f.Placed wordBits ∧ used &&& f.mask = 0 := by
  simp only [BitField.fault?, ite_some_eq_none_iff, List.contains_eq_mem, decide_eq_true_eq,
    Bool.or_eq_true, not_or, Int.not_le, Int.not_lt, Bool.and_eq_true, bne_iff_ne, ne_eq, not_and,
    not_not, and_true]
  constructor
  · rintro ⟨fresh, ⟨width_pos, offset_nonneg⟩, flag_width, stop_le, clear⟩
    exact ⟨fresh, ⟨width_pos, offset_nonneg, flag_width, stop_le⟩, clear⟩
  · rintro ⟨fresh, ⟨width_pos, offset_nonneg, flag_width, stop_le⟩, clear⟩
    exact ⟨fresh, ⟨width_pos, offset_nonneg⟩, flag_width, stop_le, clear⟩

theorem or_and_eq_zero_iff {first second mask : Nat} :
    (first ||| second) &&& mask = 0 ↔ first &&& mask = 0 ∧ second &&& mask = 0 := by
  rw [Nat.and_or_distrib_right, Nat.or_eq_zero_iff]

theorem layoutFault?_eq_none_iff {wordBits : Int} {names : List String} {used : Nat}
    {fs : List BitField} :
    layoutFault? wordBits names used fs = none ↔
      (∀ f ∈ fs, f.name ∉ names ∧ f.Placed wordBits ∧ used &&& f.mask = 0) ∧
      (fs.Pairwise fun f g => f.mask &&& g.mask = 0) ∧ (fs.map (·.name)).Nodup := by
  induction fs generalizing names used with
  | nil => simp [layoutFault?]
  | cons f fs ih =>
      simp only [layoutFault?]
      cases flaw : f.fault? wordBits names used with
      | some fault =>
          constructor
          · intro h
            cases h
          · rintro ⟨each, -, -⟩
            rw [BitField.fault?_eq_none_iff.mpr (each f List.mem_cons_self)] at flaw
            cases flaw
      | none =>
          have first := BitField.fault?_eq_none_iff.mp flaw
          simp only [ih, List.mem_cons, not_or, or_and_eq_zero_iff, List.pairwise_cons,
            List.map_cons, List.nodup_cons, List.mem_map, not_exists, not_and]
          constructor
          · rintro ⟨each, disjoint, distinct⟩
            refine ⟨?_, ⟨fun g hg => (each g hg).2.2.2, disjoint⟩, fun g hg => (each g hg).1.1,
              distinct⟩
            rintro g (rfl | hg)
            · exact first
            · exact ⟨(each g hg).1.2, (each g hg).2.1, (each g hg).2.2.1⟩
          · rintro ⟨each, ⟨apart, disjoint⟩, fresh, distinct⟩
            refine ⟨fun g hg => ?_, disjoint, distinct⟩
            obtain ⟨unused, placed, clear⟩ := each g (.inr hg)
            exact ⟨⟨fresh g hg, unused⟩, placed, clear, apart g hg⟩

/-- **Sound layouts.** They are the ones in which no field is at fault. -/
theorem Layout.sound_iff {L : Layout} : L.Sound ↔ layoutFault? L.wordBits [] 0 L.fields = none := by
  rw [layoutFault?_eq_none_iff]
  constructor
  · intro sound
    exact ⟨fun f hf => ⟨by simp, sound.placed f hf, Nat.zero_and _⟩, sound.disjoint, sound.distinct⟩
  · rintro ⟨each, disjoint, distinct⟩
    exact ⟨fun f hf => (each f hf).2.1, disjoint, distinct⟩

/-! ## Packing and reading -/

namespace BitField

variable {wordBits : Int} {f : BitField}

theorem Placed.flag_size (h : f.Placed wordBits) (flag : f.isFlag = true) : f.size = 1 := by
  rw [size, h.flag_width flag]
  rfl

theorem bits?_lt (h : f.Placed wordBits) {v : FieldValue} {bits : Nat}
    (taken : f.bits? v = some bits) : bits < 2 ^ f.size := by
  cases v with
  | bool b =>
      by_cases flag : f.isFlag = true
      · simp only [bits?, flag, if_true, Option.some.injEq] at taken
        rw [h.flag_size flag, ← taken]
        cases b <;> decide
      · simp [bits?, flag] at taken
  | int n =>
      by_cases flag : f.isFlag = true
      · simp only [bits?, flag, if_true, Option.ite_none_right_eq_some, Option.some.injEq] at taken
        rw [h.flag_size flag, ← taken.2]
        omega
      · simp only [bits?, flag, Bool.false_eq_true, if_false, Option.ite_none_right_eq_some,
          Option.some.injEq, Nat.pow_eq] at taken
        rw [← taken.2]
        exact taken.1.2

theorem toInt_of_bits? {v : FieldValue} {bits : Nat} (taken : f.bits? v = some bits) :
    v.toInt = bits := by
  cases v with
  | bool b =>
      by_cases flag : f.isFlag = true
      · simp only [bits?, flag, if_true, Option.some.injEq] at taken
        rw [← taken]
        cases b <;> rfl
      · simp [bits?, flag] at taken
  | int n =>
      have natural : 0 ≤ n ∧ n.toNat = bits := by
        by_cases flag : f.isFlag = true
        · simp only [bits?, flag, if_true, Option.ite_none_right_eq_some, Option.some.injEq]
            at taken
          exact ⟨by omega, taken.2⟩
        · simp only [bits?, flag, Bool.false_eq_true, if_false, Option.ite_none_right_eq_some,
            Option.some.injEq] at taken
          exact ⟨taken.1.1, taken.2⟩
      rw [FieldValue.toInt, ← natural.2, Int.toNat_of_nonneg natural.1]

/-- What is read from a field is a value that the field takes. -/
theorem bits?_read (h : f.Placed wordBits) (word : Nat) :
    f.bits? (f.read word) = some (f.extract word) := by
  have small := f.extract_lt word
  by_cases flag : f.isFlag = true
  · rw [h.flag_size flag] at small
    have bit : f.extract word = 0 ∨ f.extract word = 1 := by omega
    rcases bit with clear | set
    · simp [read, bits?, flag, clear]
    · simp [read, bits?, flag, set]
  · simp [read, bits?, flag, small]

end BitField

/-- The word in which the bits of the listed fields are set. -/
def maskOf : List BitField → Nat
  | [] => 0
  | f :: fs => f.mask ||| maskOf fs

theorem foldl_mask_eq (used : Nat) (fs : List BitField) :
    fs.foldl (fun mask f => mask ||| f.mask) used = used ||| maskOf fs := by
  induction fs generalizing used with
  | nil => simp [maskOf]
  | cons f fs ih => rw [List.foldl_cons, ih, maskOf, Nat.or_assoc]

/-- A bit of the mask of several fields is a bit of one of them. -/
theorem testBit_maskOf_iff {fs : List BitField} {i : Nat} :
    (maskOf fs).testBit i = true ↔ ∃ f ∈ fs, f.mask.testBit i = true := by
  induction fs with
  | nil => simp [maskOf]
  | cons f fs ih => simp [maskOf, Nat.testBit_or, ih]

theorem Layout.usedMask_eq (L : Layout) : L.usedMask = maskOf L.fields := by
  rw [Layout.usedMask, foldl_mask_eq, Nat.zero_or]

theorem BitField.Placed.mask_lt {wordBits : Int} {f : BitField} (h : f.Placed wordBits) :
    f.mask < 2 ^ wordBits.toNat := by
  obtain ⟨width_pos, offset_nonneg, -, stop_le⟩ := h
  have stop : f.start + f.size ≤ wordBits.toNat := by
    simp only [start, size, BitField.stop] at *
    omega
  apply Nat.lt_of_lt_of_le _ (Nat.pow_le_pow_right (by decide) stop)
  apply Nat.lt_pow_two_of_testBit
  intro i beyond
  rw [testBit_mask]
  simp only [decide_eq_false_iff_not]
  omega

theorem maskOf_lt {wordBits : Int} {fs : List BitField} (placed : ∀ f ∈ fs, f.Placed wordBits) :
    maskOf fs < 2 ^ wordBits.toNat := by
  induction fs with
  | nil => exact Nat.two_pow_pos _
  | cons f fs ih =>
      exact Nat.or_lt_two_pow (placed f List.mem_cons_self).mask_lt
        (ih fun g hg => placed g (List.mem_cons_of_mem f hg))

theorem and_maskOf_eq_zero {mask : Nat} {fs : List BitField}
    (apart : ∀ g ∈ fs, mask &&& g.mask = 0) : mask &&& maskOf fs = 0 := by
  induction fs with
  | nil => exact Nat.and_zero _
  | cons g fs ih =>
      rw [maskOf, Nat.and_or_distrib_left, apart g List.mem_cons_self,
        ih fun g' hg' => apart g' (List.mem_cons_of_mem g hg'), Nat.zero_or]

theorem packBits?_cons {f : BitField} {fs : List BitField} {vs : List FieldValue} {word : Nat}
    (packed : packBits? (f :: fs) vs = some word) :
    ∃ v rest bits low, vs = v :: rest ∧ f.bits? v = some bits ∧ packBits? fs rest = some low ∧
      word = f.place bits ||| low := by
  cases vs with
  | nil => cases packed
  | cons v rest =>
      simp only [packBits?, Option.bind_eq_bind, Option.bind_eq_some_iff, Option.pure_def,
        Option.some.injEq] at packed
      obtain ⟨bits, taken, low, packed, rfl⟩ := packed
      exact ⟨v, rest, bits, low, rfl, taken, packed, rfl⟩

/-- **Reading, then packing.** The values that are read from a word pack into
the part of the word that belongs to fields. -/
theorem packBits?_read {wordBits : Int} {fs : List BitField}
    (placed : ∀ f ∈ fs, f.Placed wordBits) (word : Nat) :
    packBits? fs (fs.map (·.read word)) = some (word &&& maskOf fs) := by
  induction fs with
  | nil => simp [packBits?, maskOf]
  | cons f fs ih =>
      have first := BitField.bits?_read (placed f List.mem_cons_self) word
      have rest := ih fun g hg => placed g (List.mem_cons_of_mem f hg)
      simp only [List.map_cons, packBits?, first, rest, Option.bind_eq_bind, Option.bind_some,
        Option.pure_def, maskOf, BitField.place_extract, Nat.and_or_distrib_left]

theorem and_or_of_and_left {word mask other : Nat} (inside : word &&& mask = word) :
    word &&& (mask ||| other) = word := by
  apply Nat.eq_of_testBit_eq
  intro i
  have here := congrArg (·.testBit i) inside
  simp only [Nat.testBit_and, Nat.testBit_or] at here ⊢
  cases h : word.testBit i <;> simp_all

/-- A packed word has no bit outside its fields. -/
theorem and_maskOf_of_packBits? {wordBits : Int} {fs : List BitField} {vs : List FieldValue}
    {word : Nat} (placed : ∀ f ∈ fs, f.Placed wordBits) (packed : packBits? fs vs = some word) :
    word &&& maskOf fs = word := by
  induction fs generalizing vs word with
  | nil =>
      cases vs with
      | nil =>
          cases packed
          rfl
      | cons v vs => cases packed
  | cons f fs ih =>
      obtain ⟨v, rest, bits, low, rfl, taken, packedRest, rfl⟩ := packBits?_cons packed
      have here := BitField.place_and_mask
        (BitField.bits?_lt (placed f List.mem_cons_self) taken)
      have there := ih (fun g hg => placed g (List.mem_cons_of_mem f hg)) packedRest
      rw [maskOf, Nat.and_or_distrib_right, and_or_of_and_left here, Nat.or_comm f.mask,
        and_or_of_and_left there]

namespace Layout.Sound

variable {L : Layout} {vs : List FieldValue} {word : Nat}

theorem usedMask_lt (sound : L.Sound) : L.usedMask < 2 ^ L.wordBits.toNat := by
  rw [usedMask_eq]
  exact maskOf_lt sound.placed

theorem packBits?_read (sound : L.Sound) (word : Nat) :
    packBits? L.fields (L.fields.map (·.read word)) = some (word &&& L.usedMask) := by
  rw [usedMask_eq]
  exact SwapCodec.packBits?_read sound.placed word

theorem and_usedMask_of_packBits? (sound : L.Sound) (packed : packBits? L.fields vs = some word) :
    word &&& L.usedMask = word := by
  rw [usedMask_eq]
  exact and_maskOf_of_packBits? sound.placed packed

end Layout.Sound

/-- **Packing, then reading.** When no two fields share a bit, the bits of
every field of a packed word are those of the value that was given. -/
theorem extract_of_packBits? {wordBits : Int} {fs : List BitField} {vs : List FieldValue}
    {word : Nat} (placed : ∀ f ∈ fs, f.Placed wordBits)
    (disjoint : fs.Pairwise fun f g => f.mask &&& g.mask = 0)
    (packed : packBits? fs vs = some word) :
    vs.map FieldValue.toInt = fs.map fun f => (f.extract word : Int) := by
  induction fs generalizing vs word with
  | nil =>
      cases vs with
      | nil => rfl
      | cons v vs => cases packed
  | cons f fs ih =>
      obtain ⟨v, rest, bits, low, rfl, taken, packedRest, rfl⟩ := packBits?_cons packed
      obtain ⟨apart, disjoint⟩ := List.pairwise_cons.mp disjoint
      have placedRest : ∀ g ∈ fs, g.Placed wordBits :=
        fun g hg => placed g (List.mem_cons_of_mem f hg)
      have small := BitField.bits?_lt (placed f List.mem_cons_self) taken
      have lowClear : low &&& f.mask = 0 := by
        rw [← and_maskOf_of_packBits? placedRest packedRest, Nat.and_assoc,
          Nat.and_comm (maskOf fs),
          and_maskOf_eq_zero apart, Nat.and_zero]
      have own : f.extract (f.place bits ||| low) = bits := by
        rw [← BitField.extract_place small]
        apply BitField.extract_congr
        rw [BitField.extract_place small, Nat.and_or_distrib_right, lowClear, Nat.or_zero]
      have others : ∀ g ∈ fs, g.extract (f.place bits ||| low) = g.extract low := by
        intro g hg
        have placeClear : f.place bits &&& g.mask = 0 := by
          rw [← BitField.place_and_mask small, Nat.and_assoc, apart g hg, Nat.and_zero]
        apply BitField.extract_congr
        rw [Nat.and_or_distrib_right, placeClear, Nat.zero_or]
      rw [List.map_cons, List.map_cons, own, BitField.toInt_of_bits? taken,
        ih placedRest disjoint packedRest]
      congr 1
      exact List.map_congr_left fun g hg => by rw [others g hg]

end SwapCodec
