import SwapCodec.Proofs.Layout.Packing
import SwapCodec.Proofs.Stream
import SwapCodec.Traits.Codec

/-!
# Order traits and their words

A word determines the traits it holds up to the way in which a flag is given:
a flag may be a truth value, or zero or one. Traits are plain when every flag is
a truth value, and the plain traits of a word are what reading it gives
(`Traits.ofWord_strict_eq_ok_iff`). Every value of traits agrees with plain
traits that have the same word (`Traits.normal`), and with no others
(`Traits.Plain.eq_normal`).
-/

set_option autoImplicit false

namespace SwapCodec

theorem TraitKind.layout_sound (kind : TraitKind) : kind.layout.Sound := by
  rw [Layout.sound_iff]
  cases kind <;> decide +kernel

theorem TraitKind.wordBits_eq (kind : TraitKind) : kind.layout.wordBits = 256 := by
  cases kind <;> rfl

theorem TraitKind.wordBits_nonneg (kind : TraitKind) : 0 ≤ kind.layout.wordBits := by
  rw [kind.wordBits_eq]
  decide

/-! ## Plain traits -/

namespace Traits

theorem packBits?_values (t : Traits) :
    packBits? t.kind.layout.fields t.values = some t.word :=
  (Option.some_get t.packs).symm

/-- The fields of traits are packed into their word. -/
theorem pack_fields (t : Traits) : t.kind.layout.pack (fieldEntries t.fields) = .ok t.word :=
  Layout.pack_zip t.kind.layout_sound.distinct t.packBits?_values

theorem word_and_usedMask (t : Traits) : t.word &&& t.kind.layout.usedMask = t.word :=
  t.kind.layout_sound.and_usedMask_of_packBits? t.packBits?_values

theorem word_lt (t : Traits) : t.word < 2 ^ 256 := by
  have bounded := t.kind.layout_sound.usedMask_lt
  rw [TraitKind.wordBits_eq] at bounded
  rw [← t.word_and_usedMask]
  exact Nat.lt_of_le_of_lt Nat.and_le_right bounded

/-- The values are those that are read from the word: every flag is a truth
value. -/
def Plain (t : Traits) : Prop :=
  t.values = t.kind.layout.fields.map (·.read t.word)

theorem packBits?_read_word (kind : TraitKind) (word : Nat) :
    packBits? kind.layout.fields (kind.layout.fields.map (·.read word)) =
      some (word &&& kind.layout.usedMask) :=
  kind.layout_sound.packBits?_read word

/-- The plain traits with the word of the given ones. -/
def normal (t : Traits) : Traits where
  kind := t.kind
  values := t.kind.layout.fields.map (·.read t.word)
  packs := by rw [packBits?_read_word]; rfl

theorem word_eq_of_packBits? {t : Traits} {word : Nat}
    (packed : packBits? t.kind.layout.fields t.values = some word) : t.word = word :=
  Option.some.inj (t.packBits?_values.symm.trans packed)

@[simp]
theorem normal_kind (t : Traits) : t.normal.kind = t.kind := rfl

@[simp]
theorem normal_word (t : Traits) : t.normal.word = t.word := by
  apply word_eq_of_packBits?
  rw [← t.word_and_usedMask]
  exact packBits?_read_word t.kind t.word

theorem normal_plain (t : Traits) : t.normal.Plain := by
  rw [Plain, normal_word]
  rfl

/-- **Flags given as integers.** Traits agree with the plain traits of their
word. -/
theorem agrees_normal (t : Traits) : t.agrees t.normal = true := by
  have sound := t.kind.layout_sound
  have given := extract_of_packBits? sound.placed sound.disjoint t.packBits?_values
  have read : t.normal.values.map FieldValue.toInt =
      t.kind.layout.fields.map fun f => (f.extract t.word : Int) := by
    rw [normal, List.map_map]
    exact List.map_congr_left fun f hf =>
      BitField.toInt_of_bits? (BitField.bits?_read (sound.placed f hf) t.word)
  simp [agrees, given, read]

theorem ofTaken_eq_ok_iff {kind : TraitKind} {values : List FieldValue} {t : Traits} :
    ofTaken kind values = .ok t ↔ t.kind = kind ∧ t.values = values := by
  simp only [ofTaken, ofValues?]
  constructor
  · intro h
    split at h
    · rename_i u made
      split at made
      · cases made
        cases h
        exact ⟨rfl, rfl⟩
      · cases made
    · exact absurd h fail_ne_ok
  · rintro ⟨rfl, rfl⟩
    rw [dif_pos t.packs]

/-- **Reading a word.** A strict read gives exactly the plain traits that have
the word. -/
theorem ofWord_strict_eq_ok_iff {kind : TraitKind} {n : Int} {t : Traits} :
    ofWord kind true (.int n) = .ok t ↔ t.kind = kind ∧ t.Plain ∧ n = t.word := by
  simp only [ofWord, Layout.unpackAs, if_true, Except.bind_eq_ok_iff,
    Layout.unpackStrict_eq_ok_iff kind.wordBits_nonneg, ofTaken_eq_ok_iff]
  constructor
  · rintro ⟨_, ⟨word, rfl, small, clear, rfl⟩, rfl, values⟩
    rw [Layout.readFields, List.map_map] at values
    have packed := packBits?_read_word t.kind word
    rw [clear] at packed
    have same : t.word = word := by
      apply word_eq_of_packBits?
      rw [values]
      exact packed
    exact ⟨rfl, by rw [Plain, same]; exact values, by rw [same]⟩
  · rintro ⟨rfl, plain, rfl⟩
    refine ⟨_, ⟨t.word, rfl, ?_, t.word_and_usedMask, rfl⟩, rfl, ?_⟩
    · rw [TraitKind.wordBits_eq]
      exact t.word_lt
    · rw [Layout.readFields, List.map_map]
      exact plain

/-- A strict read makes no difference for a word without stray bits. -/
theorem ofWord_of_used {kind : TraitKind} {word : Nat}
    (used : word &&& kind.layout.usedMask = word) :
    ofWord kind false (.int word) = ofWord kind true (.int word) := by
  simp only [ofWord, Layout.unpackAs, Bool.false_eq_true, if_false, if_true,
    Layout.unpack_eq_unpackStrict kind.wordBits_nonneg used]

/-- A strict read makes no difference for a word that was packed. -/
theorem ofWord_of_pack {kind : TraitKind} {entries : List (Key × Value)} {word : Nat}
    (packed : kind.layout.pack entries = .ok word) :
    ofWord kind false (.int word) = ofWord kind true (.int word) :=
  ofWord_of_used (kind.layout_sound.and_usedMask_of_pack packed)

/-- Plain traits are the plain form of all traits that they agree with. -/
theorem Plain.eq_normal {t u : Traits} (plain : u.Plain) (same : t.agrees u = true) :
    u = t.normal := by
  obtain ⟨kind, values, packs⟩ := u
  simp only [agrees, Bool.and_eq_true, beq_iff_eq] at same
  obtain ⟨rfl, integers⟩ := same
  have sound := t.kind.layout_sound
  have first := extract_of_packBits? sound.placed sound.disjoint t.packBits?_values
  have second := extract_of_packBits? sound.placed sound.disjoint
    (packBits?_values ⟨t.kind, values, packs⟩)
  have bits := List.map_inj_left.mp (first.symm.trans (integers.trans second))
  have read : values = t.normal.values := by
    refine plain.trans (List.map_congr_left fun f mem => ?_)
    simp only [BitField.read, Int.natCast_inj.mp (bits f mem)]
  subst read
  rfl

end Traits

end SwapCodec
