import SwapCodec.Proofs.Layout.Packing

/-!
# Fields do not interfere

The bits of a field in a packed word stand for the number that the dictionary gives to the
field, and for nothing else (`Layout.Sound.given?_of_pack`). So two dictionaries that give the
same number to every field but one are packed into words with the same bits outside that field
(`Layout.Sound.testBit_eq_of_pack`), and inside it they have the same bits exactly if they give
it the same number (`Layout.Sound.testBit_eq_iff_of_pack`).

The other way round, the value of a field is read from the bits of its own mask
(`BitField.read_congr`), and no field reads a bit outside the mask of the layout
(`Layout.readFields_and_usedMask`).
-/

set_option autoImplicit false

namespace SwapCodec

/-- Words agree on a mask if they have the same bits there. -/
theorem and_eq_and_iff {word other mask : Nat} :
    word &&& mask = other &&& mask ↔
      ∀ i, mask.testBit i = true → word.testBit i = other.testBit i := by
  constructor
  · intro same i inside
    have here := congrArg (·.testBit i) same
    simpa [Nat.testBit_and, inside] using here
  · intro same
    apply Nat.eq_of_testBit_eq
    intro i
    rw [Nat.testBit_and, Nat.testBit_and]
    cases inside : mask.testBit i with
    | false => rw [Bool.and_false, Bool.and_false]
    | true => rw [same i inside]

/-! ## The number of a field -/

theorem Value.asInt?_of_asField? {v : Value} {x : FieldValue} (field : v.asField? = some x) :
    v.asInt? = some x.toInt := by
  cases v with
  | int n =>
      cases field
      rfl
  | bool b =>
      cases field
      rfl
  | _ => cases field

namespace BitField

/-- The number that a dictionary gives to a field. A missing field counts as zero, and a truth
value as zero or one. -/
def given? (f : BitField) (entries : List (Key × Value)) : Option Int :=
  (Layout.givenValue entries f).asInt?

variable {f : BitField} {entries : List (Key × Value)} {x : FieldValue} {word other : Nat}

theorem Given.given?_eq (given : f.Given entries x) : f.given? entries = some x.toInt :=
  Value.asInt?_of_asField? given.value

/-- The value of a field depends on no bit outside its mask. -/
theorem read_congr (same : word &&& f.mask = other &&& f.mask) : f.read word = f.read other := by
  rw [read, read, extract_congr same]

theorem extract_eq_iff :
    f.extract word = f.extract other ↔
      ∀ i, f.mask.testBit i = true → word.testBit i = other.testBit i := by
  rw [← and_eq_and_iff]
  constructor
  · intro same
    rw [← place_extract, ← place_extract, same]
  · exact extract_congr

end BitField

namespace Layout

variable {L : Layout} {f : BitField} {entries changed : List (Key × Value)} {word other : Nat}

/-! ## Packed words -/

/-- The bits of a field of a packed word are the number that the field was given. -/
theorem Sound.given?_of_pack (sound : L.Sound) (packed : L.pack entries = .ok word)
    (mem : f ∈ L.fields) : f.given? entries = some (f.extract word : Int) := by
  obtain ⟨x, given, same⟩ := sound.exists_given_of_pack packed f mem
  rw [given.given?_eq, same]

theorem Sound.testBit_eq_iff_of_pack (sound : L.Sound) (packed : L.pack entries = .ok word)
    (packed' : L.pack changed = .ok other) (mem : f ∈ L.fields) :
    (∀ i, f.mask.testBit i = true → word.testBit i = other.testBit i) ↔
      f.given? entries = f.given? changed := by
  rw [sound.given?_of_pack packed mem, sound.given?_of_pack packed' mem, Option.some_inj,
    Int.natCast_inj, BitField.extract_eq_iff]

/-- A bit of a packed word belongs to a field or is not set. -/
theorem Sound.testBit_eq_of_pack (sound : L.Sound) (packed : L.pack entries = .ok word)
    (packed' : L.pack changed = .ok other)
    (others : ∀ g ∈ L.fields, g ≠ f → g.given? entries = g.given? changed) {i : Nat}
    (outside : f.mask.testBit i = false) : word.testBit i = other.testBit i := by
  by_cases used : L.usedMask.testBit i = true
  · rw [usedMask_eq] at used
    obtain ⟨g, mem, inside⟩ := testBit_maskOf_iff.mp used
    have apart : g ≠ f := by
      rintro rfl
      cases outside.symm.trans inside
    exact (sound.testBit_eq_iff_of_pack packed packed' mem).mpr (others g mem apart) i inside
  · have clear (w : Nat) (fields : w &&& L.usedMask = w) : w.testBit i = false := by
      rw [← fields, Nat.testBit_and, Bool.eq_false_iff.mpr used, Bool.and_false]
    rw [clear _ (sound.and_usedMask_of_pack packed), clear _ (sound.and_usedMask_of_pack packed')]

/-! ## Words that are read -/

theorem unpack_eq_ok (natural : 0 ≤ L.wordBits) (small : word < 2 ^ L.wordBits.toNat) :
    L.unpack (.int word) = .ok (L.readFields word) := by
  rw [unpack, (checkWord_eq_ok_iff natural).mpr ⟨rfl, small⟩]
  rfl

theorem valueAt?_readFields (distinct : L.names.Nodup) (mem : f ∈ L.fields) (word : Nat) :
    valueAt? (.str f.name) (fieldEntries (L.readFields word)) = some (f.read word).toValue := by
  apply valueAt?_fieldEntries
  · rw [readFields, List.map_map]
    exact distinct
  · exact List.mem_map.mpr ⟨f, mem, rfl⟩

/-- Bits that belong to no field are passed over. -/
theorem readFields_and_usedMask (L : Layout) (word : Nat) :
    L.readFields (word &&& L.usedMask) = L.readFields word := by
  refine List.map_congr_left fun f mem => ?_
  have own : (word &&& L.usedMask) &&& f.mask = word &&& f.mask := by
    refine and_eq_and_iff.mpr fun i inside => ?_
    have used : L.usedMask.testBit i = true := by
      rw [usedMask_eq]
      exact testBit_maskOf_iff.mpr ⟨f, mem, inside⟩
    rw [Nat.testBit_and, used, Bool.and_true]
  rw [BitField.read_congr own]

end Layout

/-- **Fields do not interfere.** Take a layout that was built, and one of its fields.

If two dictionaries are packed and give every other field the same number, the words have the
same bits outside the mask of the field. Inside the mask they have the same bits exactly if the
dictionaries give the same number to the field as well.

Two words with the same bits in the mask of the field are read with the same value of the field.

What is read from a word is what is read from its bits that belong to fields, and is packed into
these bits again. -/
theorem fields_never_interfere {name : String} {fields : List BitField} {wordBits : Int}
    {L : Layout} (built : Layout.build name fields wordBits = .ok L) {f : BitField}
    (mem : f ∈ L.fields) :
    (∀ entries changed word other, L.pack entries = .ok word → L.pack changed = .ok other →
      (∀ g ∈ L.fields, g ≠ f → g.given? entries = g.given? changed) →
      (∀ i, f.mask.testBit i = false → word.testBit i = other.testBit i) ∧
      ((∀ i, f.mask.testBit i = true → word.testBit i = other.testBit i) ↔
        f.given? entries = f.given? changed)) ∧
    (∀ word other : Nat, word < 2 ^ L.wordBits.toNat → other < 2 ^ L.wordBits.toNat →
      word &&& f.mask = other &&& f.mask →
      ∃ values values' x, L.unpack (.int word) = .ok values ∧
        L.unpack (.int other) = .ok values' ∧
        valueAt? (.str f.name) (fieldEntries values) = some x ∧
        valueAt? (.str f.name) (fieldEntries values') = some x) ∧
    ∀ word : Nat, word < 2 ^ L.wordBits.toNat →
      L.unpack (.int word) = L.unpack (.int (word &&& L.usedMask : Nat)) ∧
      ∃ values, L.unpack (.int word) = .ok values ∧
        L.pack (fieldEntries values) = .ok (word &&& L.usedMask) := by
  obtain ⟨-, sound⟩ := Layout.build_eq_ok_iff.mp built
  have natural := Int.le_of_lt (sound.wordBits_pos (List.ne_nil_of_mem mem))
  refine ⟨?_, ?_, ?_⟩
  · intro entries changed word other packed packed' others
    exact ⟨fun i outside => sound.testBit_eq_of_pack packed packed' others outside,
      sound.testBit_eq_iff_of_pack packed packed' mem⟩
  · intro word other small small' same
    refine ⟨_, _, (f.read word).toValue, Layout.unpack_eq_ok natural small,
      Layout.unpack_eq_ok natural small', Layout.valueAt?_readFields sound.distinct mem word, ?_⟩
    rw [BitField.read_congr same]
    exact Layout.valueAt?_readFields sound.distinct mem other
  · intro word small
    have fewer : word &&& L.usedMask < 2 ^ L.wordBits.toNat :=
      Nat.lt_of_le_of_lt Nat.and_le_left small
    refine ⟨?_, _, Layout.unpack_eq_ok natural small, sound.pack_readFields word⟩
    rw [Layout.unpack_eq_ok natural small, Layout.unpack_eq_ok natural fewer,
      Layout.readFields_and_usedMask]

/-- Another number in the low bits leaves the flag alone, whether it is given as true or as one.
A word with stray bits is read as if they were not set. -/
theorem fields_never_interfere_small :
    let f : BitField := .uint "a" 0 4
    let fields : List BitField := [.uint "a" 0 4, .flag "b" 7]
    let L : Layout := ⟨"Small", fields, 8⟩
    Layout.build "Small" fields 8 = .ok L ∧ f ∈ L.fields ∧
      L.pack [(.str "a", .int 3), (.str "b", .bool true)] = .ok 131 ∧
      L.pack [(.str "b", .int 1), (.str "a", .int 5)] = .ok 133 ∧
      (∀ i, f.mask.testBit i = false → (131).testBit i = (133).testBit i) ∧
      ¬ (∀ i, f.mask.testBit i = true → (131).testBit i = (133).testBit i) ∧
      (∃ values, L.unpack (.int 179) = .ok values ∧ L.pack (fieldEntries values) = .ok 131) ∧
      ∃ values values' x, L.unpack (.int 179) = .ok values ∧ L.unpack (.int 67) = .ok values' ∧
        valueAt? (.str "a") (fieldEntries values) = some x ∧
        valueAt? (.str "a") (fieldEntries values') = some x := by
  intro f fields L
  have built : Layout.build "Small" fields 8 = .ok L := rfl
  have mem : f ∈ L.fields := List.mem_cons_self
  have packed : L.pack [(.str "a", .int 3), (.str "b", .bool true)] = .ok 131 := rfl
  have packed' : L.pack [(.str "b", .int 1), (.str "a", .int 5)] = .ok 133 := rfl
  obtain ⟨packing, reading, passing⟩ := fields_never_interfere built mem
  have others : ∀ g ∈ L.fields, g ≠ f →
      g.given? [(.str "a", .int 3), (.str "b", .bool true)] =
        g.given? [(.str "b", .int 1), (.str "a", .int 5)] := by
    decide
  obtain ⟨outside, inside⟩ := packing _ _ _ _ packed packed' others
  obtain ⟨-, kept⟩ := passing 179 (by decide)
  have masked : 179 &&& L.usedMask = 131 := by decide
  rw [masked] at kept
  refine ⟨built, mem, packed, packed', outside, ?_, kept,
    reading 179 67 (by decide) (by decide) (by decide)⟩
  rw [inside]
  decide

end SwapCodec
