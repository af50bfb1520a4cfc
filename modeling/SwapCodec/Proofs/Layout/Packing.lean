import SwapCodec.Proofs.Failure
import SwapCodec.Proofs.Layout
import Mathlib.Data.List.Forall2

/-!
# Words of dictionaries

A layout packs a dictionary exactly if every key names a field and every field takes
its value, where a missing field is zero (`Layout.pack_eq_ok_iff`). Reading a word
strictly succeeds exactly if the word has as many bits as the layout and none
outside its fields (`Layout.unpackStrict_eq_ok_iff`).

The bits of each field of a packed word stand for the value that the field was given
(`Layout.Sound.exists_given_of_pack`). So a dictionary that has been packed is read back
completed: every field has a value, and the value of a flag is a truth value
(`Layout.Sound.readFields_of_pack`). What is read from a word is packed into its bits
that belong to fields (`Layout.Sound.pack_readFields`). So neither direction loses
anything.
-/

set_option autoImplicit false

namespace SwapCodec

/-- Fields with their values as the entries of a dictionary. -/
def fieldEntries (values : List (String × FieldValue)) : List (Key × Value) :=
  values.map fun e => (.str e.1, e.2.toValue)

/-- The value of a field of a dictionary as it is read back. A flag is a truth value,
and a missing field is false or zero. -/
def BitField.completed (f : BitField) (entries : List (Key × Value)) : FieldValue :=
  match valueAt? (.str f.name) entries with
  | some (.bool b) => .bool b
  | some (.int n) => if f.isFlag then .bool (n != 0) else .int n
  | _ => if f.isFlag then .bool false else .int 0

/-- Every field with its value in a dictionary, as it is read back. -/
def Layout.completed (L : Layout) (entries : List (Key × Value)) : List (String × FieldValue) :=
  L.fields.map fun f => (f.name, f.completed entries)

/-- The field takes the value that the dictionary gives it, or zero if it is missing,
as `x`. -/
structure BitField.Given (entries : List (Key × Value)) (f : BitField) (x : FieldValue) :
    Prop where
  value : (Layout.givenValue entries f).asField? = some x
  taken : (f.bits? x).isSome = true

variable {L : Layout} {entries : List (Key × Value)} {f : BitField} {fs : List BitField}
  {x : FieldValue} {vs : List FieldValue} {word : Nat}

/-! ## Layouts -/

theorem Layout.build_eq_ok_iff {name : String} {wordBits : Int} :
    build name fs wordBits = .ok L ↔ L = ⟨name, fs, wordBits⟩ ∧ L.Sound := by
  rw [sound_iff, build]
  cases fault : layoutFault? wordBits [] 0 fs with
  | none =>
      rw [Except.ok.injEq, eq_comm]
      refine ⟨fun same => ⟨same, ?_⟩, And.left⟩
      rw [same]
      exact fault
  | some flaw =>
      refine ⟨fun built => absurd built fail_ne_ok, ?_⟩
      rintro ⟨rfl, none⟩
      cases fault.symm.trans none

theorem Layout.Sound.wordBits_pos (sound : L.Sound) (nonempty : L.fields ≠ []) :
    0 < L.wordBits := by
  obtain ⟨f, mem⟩ := List.exists_mem_of_ne_nil _ nonempty
  have ⟨width_pos, offset_nonneg, _, stop_le⟩ := sound.placed f mem
  simp only [BitField.stop] at stop_le
  omega

/-! ## Packing a dictionary -/

theorem Layout.fieldValue_eq_ok_iff {v : Value} :
    L.fieldValue f v = .ok x ↔ v.asField? = some x ∧ (f.bits? x).isSome = true := by
  rw [fieldValue]
  cases v.asField? with
  | none => by_cases flag : f.isFlag = true <;> simp [flag, fail_ne_ok]
  | some y =>
      by_cases taken : (f.bits? y).isSome = true
      · simp only [taken, if_true, Except.ok.injEq, Option.some.injEq]
        constructor
        · rintro rfl
          exact ⟨rfl, taken⟩
        · exact And.left
      · constructor
        · intro given
          dsimp only at given
          rw [if_neg taken] at given
          split at given
          · exact absurd given fail_ne_ok
          · split at given <;> exact absurd given fail_ne_ok
        · rintro ⟨given, taken'⟩
          cases given
          exact absurd taken' taken

theorem Layout.fieldValues_eq_ok_iff :
    L.fieldValues entries fs = .ok vs ↔ List.Forall₂ (BitField.Given entries) fs vs := by
  induction fs generalizing vs with
  | nil =>
      rw [fieldValues, Except.ok.injEq, List.forall₂_nil_left_iff, eq_comm]
  | cons f fs ih =>
      simp only [fieldValues, Except.bind_eq_ok_iff, fieldValue_eq_ok_iff, ih,
        List.forall₂_cons_left_iff]
      constructor
      · rintro ⟨x, ⟨value, taken⟩, rest, others, made⟩
        cases made
        exact ⟨x, rest, ⟨value, taken⟩, others, rfl⟩
      · rintro ⟨x, rest, ⟨value, taken⟩, others, rfl⟩
        exact ⟨x, ⟨value, taken⟩, rest, others, rfl⟩

theorem Layout.pack_eq_ok_iff :
    L.pack entries = .ok word ↔
      (∀ e ∈ entries, L.knows e.1 = true) ∧
        ∃ vs, List.Forall₂ (BitField.Given entries) L.fields vs ∧
          packBits? L.fields vs = some word := by
  rw [pack]
  cases unknown : entries.find? fun e => !L.knows e.1 with
  | some e =>
      refine ⟨fun packed => absurd packed fail_ne_ok, ?_⟩
      rintro ⟨known, _⟩
      have stray := List.find?_some unknown
      rw [known e (List.mem_of_find?_eq_some unknown)] at stray
      cases stray
  | none =>
      have known : ∀ e ∈ entries, L.knows e.1 = true := by
        simpa using List.find?_eq_none.mp unknown
      simp only [Except.bind_eq_ok_iff, fieldValues_eq_ok_iff]
      rw [and_iff_right known]
      refine exists_congr fun vs => and_congr_right fun _ => ?_
      cases packBits? L.fields vs with
      | none => simp [fail_ne_ok]
      | some packed => simp

/-! ## Reading what has been packed -/

/-- A field whose bits stand for its value is read back completed. -/
theorem BitField.Given.read_eq_completed (given : f.Given entries x)
    (same : x.toInt = f.extract word) : f.read word = f.completed entries := by
  obtain ⟨value, taken⟩ := given
  rw [Layout.givenValue] at value
  cases found : valueAt? (.str f.name) entries with
  | none =>
      rw [found] at value
      cases value
      have clear : f.extract word = 0 := Int.natCast_eq_zero.mp same.symm
      simp [read, completed, found, clear]
  | some v =>
      rw [found] at value
      cases v with
      | bool b =>
          cases value
          have flag : f.isFlag = true := by
            by_contra number
            simp [bits?, number] at taken
          cases b with
          | false =>
              have clear : f.extract word = 0 := Int.natCast_eq_zero.mp same.symm
              simp [read, completed, found, flag, clear]
          | true =>
              have set : f.extract word = 1 := Int.natCast_inj.mp same.symm
              simp [read, completed, found, flag, set]
      | int n =>
          cases value
          obtain rfl : n = f.extract word := same
          by_cases flag : f.isFlag = true
          · have nonzero : (f.extract word != 0) = ((f.extract word : Int) != 0) := by
              rw [Bool.eq_iff_iff]
              simp
            simp only [read, completed, found, flag, if_true, nonzero]
          · simp [read, completed, found, flag]
      | _ => cases value

theorem forall_exists_given (given : List.Forall₂ (BitField.Given entries) fs vs)
    (same : vs.map FieldValue.toInt = fs.map fun f => (f.extract word : Int)) :
    ∀ f ∈ fs, ∃ x, f.Given entries x ∧ x.toInt = f.extract word := by
  induction given with
  | nil => simp
  | cons first _ ih =>
      obtain ⟨own, others⟩ := List.cons_eq_cons.mp same
      exact List.forall_mem_cons.mpr ⟨⟨_, first, own⟩, ih others⟩

/-- The bits of every field of a packed word stand for the value that it was given. -/
theorem Layout.Sound.exists_given_of_pack (sound : L.Sound) (packed : L.pack entries = .ok word) :
    ∀ f ∈ L.fields, ∃ x, f.Given entries x ∧ x.toInt = f.extract word := by
  obtain ⟨_, vs, given, packed⟩ := pack_eq_ok_iff.mp packed
  exact forall_exists_given given (extract_of_packBits? sound.placed sound.disjoint packed)

/-- A packed word has no bit outside the fields of the layout. -/
theorem Layout.Sound.and_usedMask_of_pack (sound : L.Sound) (packed : L.pack entries = .ok word) :
    word &&& L.usedMask = word := by
  obtain ⟨_, vs, _, packed⟩ := pack_eq_ok_iff.mp packed
  exact sound.and_usedMask_of_packBits? packed

/-- **Packing, then reading.** -/
theorem Layout.Sound.readFields_of_pack (sound : L.Sound) (packed : L.pack entries = .ok word) :
    word < 2 ^ L.wordBits.toNat ∧ word &&& L.usedMask = word ∧
      L.readFields word = L.completed entries := by
  have inside := sound.and_usedMask_of_pack packed
  refine ⟨?_, inside, List.map_congr_left fun f mem => ?_⟩
  · rw [← inside]
    exact Nat.lt_of_le_of_lt Nat.and_le_right sound.usedMask_lt
  · obtain ⟨x, given, same⟩ := sound.exists_given_of_pack packed f mem
    rw [given.read_eq_completed same]

/-! ## Packing what has been read -/

theorem Key.same_str (name other : String) :
    Key.same (.str name) (.str other) = decide (name = other) := by
  by_cases equal : name = other <;> simp [Key.same, asInt?, equal]

theorem valueAt?_cons (key : Key) (e : Key × Value) (entries : List (Key × Value)) :
    valueAt? key (e :: entries) = if e.1.same key then some e.2 else valueAt? key entries := by
  rw [valueAt?, List.find?_cons]
  cases e.1.same key with
  | true => rfl
  | false => rfl

theorem valueAt?_of_mem {values : List (String × Value)} (distinct : (values.map (·.1)).Nodup)
    {field : String × Value} (mem : field ∈ values) :
    valueAt? (.str field.1) (values.map fun e => (.str e.1, e.2)) = some field.2 := by
  induction values with
  | nil => cases mem
  | cons first values ih =>
      obtain ⟨fresh, distinct⟩ := List.nodup_cons.mp distinct
      simp only [List.map_cons, valueAt?_cons, Key.same_str, decide_eq_true_eq]
      rcases List.mem_cons.mp mem with rfl | later
      · rw [if_pos rfl]
      · have other : first.1 ≠ field.1 := fun same =>
          fresh (List.mem_map.mpr ⟨field, later, same.symm⟩)
        rw [if_neg other]
        exact ih distinct later

theorem valueAt?_fieldEntries {values : List (String × FieldValue)}
    (distinct : (values.map (·.1)).Nodup) {name : String} (mem : (name, x) ∈ values) :
    valueAt? (.str name) (fieldEntries values) = some x.toValue := by
  have named : ((values.map fun e => (e.1, e.2.toValue)).map (·.1)).Nodup := by
    rwa [List.map_map]
  have found := valueAt?_of_mem named (List.mem_map_of_mem mem)
  rwa [List.map_map] at found

theorem asField?_toValue (x : FieldValue) : x.toValue.asField? = some x := by
  cases x <;> rfl

theorem Layout.knows_of_mem (mem : f ∈ L.fields) : L.knows (.str f.name) = true := by
  rw [knows, find?, List.find?_isSome]
  exact ⟨f, mem, beq_self_eq_true _⟩

theorem forall₂_bits?_of_packBits? (packed : packBits? fs vs = some word) :
    List.Forall₂ (fun f x => (BitField.bits? f x).isSome = true) fs vs := by
  induction fs generalizing vs word with
  | nil =>
      cases vs with
      | nil => exact .nil
      | cons _ _ => cases packed
  | cons f fs ih =>
      cases vs with
      | nil => cases packed
      | cons x vs =>
          simp only [packBits?, Option.bind_eq_bind, Option.bind_eq_some_iff] at packed
          obtain ⟨bits, taken, others, rest, -⟩ := packed
          exact .cons (Option.isSome_iff_exists.mpr ⟨bits, taken⟩) (ih rest)

theorem isSome_packBits? (taken : List.Forall₂ (fun f x => (BitField.bits? f x).isSome = true) fs vs) :
    (packBits? fs vs).isSome = true := by
  induction taken with
  | nil => rfl
  | cons first _ rest =>
      obtain ⟨bits, taken⟩ := Option.isSome_iff_exists.mp first
      obtain ⟨word, packed⟩ := Option.isSome_iff_exists.mp rest
      rw [packBits?, taken, packed]
      rfl

/-- Values that can be packed are packed from a dictionary of them. -/
theorem Layout.pack_zip (distinct : L.names.Nodup) (packed : packBits? L.fields vs = some word) :
    L.pack (fieldEntries (L.names.zip vs)) = .ok word := by
  have taken := forall₂_bits?_of_packBits? packed
  obtain ⟨counted, each⟩ := List.forall₂_iff_zip.mp taken
  have firsts : (L.names.zip vs).map (·.1) = L.names :=
    List.map_fst_zip (by rw [names, List.length_map, counted])
  refine pack_eq_ok_iff.mpr ⟨?_, vs, List.forall₂_iff_zip.mpr ⟨counted, ?_⟩, packed⟩
  · intro e mem
    obtain ⟨value, inside, rfl⟩ := List.mem_map.mp mem
    have named : value.1 ∈ L.names := firsts ▸ List.mem_map_of_mem inside
    obtain ⟨f, found, same⟩ := List.mem_map.mp named
    rw [← same]
    exact knows_of_mem found
  · intro f x mem
    have named : (f.name, x) ∈ L.names.zip vs := by
      rw [names, List.zip_map_left]
      exact List.mem_map_of_mem mem
    have value := valueAt?_fieldEntries (firsts.symm ▸ distinct) named
    refine ⟨?_, each mem⟩
    rw [givenValue, value]
    exact asField?_toValue x

/-- **Reading, then packing.** -/
theorem Layout.Sound.pack_readFields (sound : L.Sound) (word : Nat) :
    L.pack (fieldEntries (L.readFields word)) = .ok (word &&& L.usedMask) := by
  have values : L.readFields word = L.names.zip (L.fields.map (·.read word)) := by
    rw [names, List.zip_map']
    rfl
  rw [values]
  exact pack_zip sound.distinct (sound.packBits?_read word)

/-! ## Words that are read -/

namespace Layout

theorem checkWord_eq_ok_iff (natural : 0 ≤ L.wordBits) {n : Int} :
    L.checkWord (.int n) = .ok word ↔ n = word ∧ word < 2 ^ L.wordBits.toNat := by
  simp only [checkWord, if_neg (Int.not_lt.mpr natural), Nat.pow_eq]
  by_cases negative : n < 0
  · simp only [negative, if_true, fail_ne_ok, false_iff]
    omega
  · by_cases long : 2 ^ L.wordBits.toNat ≤ n.toNat
    · simp only [negative, long, if_true, if_false, fail_ne_ok, false_iff]
      omega
    · simp only [negative, long, if_false, Except.ok.injEq]
      omega

theorem stray_eq_zero_iff : L.stray word = 0 ↔ word &&& L.usedMask = word := by
  rw [stray, Nat.xor_eq_zero_iff]
  exact eq_comm

/-- A strict read makes no difference for a word without stray bits. -/
theorem unpack_eq_unpackStrict (natural : 0 ≤ L.wordBits) (inside : word &&& L.usedMask = word) :
    L.unpack (.int word) = L.unpackStrict (.int word) := by
  rw [unpack, unpackStrict]
  cases checked : L.checkWord (.int word) with
  | error e => rfl
  | ok read =>
      obtain ⟨same, _⟩ := (checkWord_eq_ok_iff natural).mp checked
      obtain rfl := Int.natCast_inj.mp same
      exact (if_pos (stray_eq_zero_iff.mpr inside)).symm

theorem unpackStrict_eq_ok_iff (natural : 0 ≤ L.wordBits) {n : Int}
    {fields : List (String × FieldValue)} :
    L.unpackStrict (.int n) = .ok fields ↔
      ∃ word : Nat, n = word ∧ word < 2 ^ L.wordBits.toNat ∧ word &&& L.usedMask = word ∧
        fields = L.readFields word := by
  rw [unpackStrict, Except.bind_eq_ok_iff]
  constructor
  · rintro ⟨word, checked, read⟩
    obtain ⟨same, small⟩ := (checkWord_eq_ok_iff natural).mp checked
    by_cases clear : L.stray word = 0
    · rw [if_pos clear] at read
      cases read
      exact ⟨word, same, small, stray_eq_zero_iff.mp clear, rfl⟩
    · rw [if_neg clear] at read
      exact absurd read fail_ne_ok
  · rintro ⟨word, same, small, clear, rfl⟩
    refine ⟨word, (checkWord_eq_ok_iff natural).mpr ⟨same, small⟩, ?_⟩
    rw [if_pos (stray_eq_zero_iff.mpr clear)]
    rfl

end Layout

/-- No bit is outside a mask when the mask leaves all of the word. -/
theorem ldiff_eq_zero_iff {mask : Nat} : Nat.ldiff word mask = 0 ↔ word &&& mask = word := by
  constructor
  · intro clear
    apply Nat.eq_of_testBit_eq
    intro i
    have bit := congrArg (·.testBit i) clear
    simpa [Nat.testBit_ldiff] using bit
  · intro inside
    apply Nat.eq_of_testBit_eq
    intro i
    have bit := congrArg (·.testBit i) inside
    simpa [Nat.testBit_ldiff] using bit

theorem Layout.isWord_iff (natural : 0 ≤ L.wordBits) {w : Int} :
    (∃ values, L.unpackStrict (.int w) = .ok values) ↔
      0 ≤ w ∧ w < 2 ^ L.wordBits.toNat ∧ Nat.ldiff w.toNat L.usedMask = 0 := by
  simp only [unpackStrict_eq_ok_iff natural, ldiff_eq_zero_iff]
  constructor
  · rintro ⟨_, word, rfl, small, inside, -⟩
    exact ⟨Int.natCast_nonneg word, by exact_mod_cast small, inside⟩
  · rintro ⟨nonneg, small, inside⟩
    obtain ⟨word, rfl⟩ := Int.eq_ofNat_of_zero_le nonneg
    exact ⟨_, word, rfl, by exact_mod_cast small, inside, rfl⟩

/-- **Lossless packing.** Take any layout that is accepted and has a field.

A dictionary that is packed gives a word of the layout's width, which is strictly read
back as the dictionary completed: every field is there, the missing ones as false or
zero, and every flag is a truth value.

An integer is read strictly exactly if it is a word of that width without bits outside
the fields. What is read is packed into the integer again. -/
theorem packing_lossless {name : String} {fields : List BitField} {wordBits : Int} {L : Layout}
    (built : Layout.build name fields wordBits = .ok L) (nonempty : fields ≠ []) :
    0 < L.wordBits ∧
    (∀ entries word, L.pack entries = .ok word →
      (word : Int) < 2 ^ L.wordBits.toNat ∧
        L.unpackStrict (.int word) = .ok (L.completed entries)) ∧
    ∀ w : Int,
      ((∃ values, L.unpackStrict (.int w) = .ok values) ↔
        0 ≤ w ∧ w < 2 ^ L.wordBits.toNat ∧ Nat.ldiff w.toNat L.usedMask = 0) ∧
      ∀ values, L.unpackStrict (.int w) = .ok values →
        ∃ word : Nat, L.pack (fieldEntries values) = .ok word ∧ (word : Int) = w := by
  obtain ⟨rfl, sound⟩ := Layout.build_eq_ok_iff.mp built
  have positive := sound.wordBits_pos nonempty
  have natural := Int.le_of_lt positive
  refine ⟨positive, fun entries word packed => ?_, fun w => ⟨Layout.isWord_iff natural, ?_⟩⟩
  · obtain ⟨small, inside, read⟩ := sound.readFields_of_pack packed
    refine ⟨by exact_mod_cast small, ?_⟩
    rw [Layout.unpackStrict_eq_ok_iff natural]
    exact ⟨word, rfl, small, inside, read.symm⟩
  · intro values unpacked
    obtain ⟨word, rfl, _, inside, rfl⟩ := (Layout.unpackStrict_eq_ok_iff natural).mp unpacked
    refine ⟨word, ?_, rfl⟩
    rw [sound.pack_readFields, inside]

/-- A flag given as an integer is read back as a truth value, and the missing number as
zero. -/
theorem packing_lossless_small :
    let fields : List BitField := [.uint "a" 0 4, .flag "b" 7]
    let L : Layout := ⟨"Small", fields, 8⟩
    Layout.build "Small" fields 8 = .ok L ∧ fields ≠ [] ∧
      L.pack [(.str "b", .int 1)] = .ok 128 ∧
      L.unpackStrict (.int 128) = .ok [("a", .int 0), ("b", .bool true)] ∧
      (¬ ∃ values, L.unpackStrict (.int 144) = .ok values) ∧
      ∃ word : Nat, L.pack (fieldEntries [("a", .int 15), ("b", .bool true)]) = .ok word ∧
        (word : Int) = 143 := by
  intro fields L
  have built : Layout.build "Small" fields 8 = .ok L := rfl
  have nonempty : fields ≠ [] := by simp [fields]
  obtain ⟨_, packing, reading⟩ := packing_lossless built nonempty
  have packed : L.pack [(.str "b", .int 1)] = .ok 128 := rfl
  have unpacked : L.unpackStrict (.int 143) = .ok [("a", .int 15), ("b", .bool true)] := by
    rw [Layout.unpackStrict_eq_ok_iff (by decide)]
    exact ⟨143, rfl, by decide, by decide, by decide⟩
  refine ⟨built, nonempty, packed, (packing _ _ packed).2, ?_, (reading 143).2 _ unpacked⟩
  intro read
  have clear := ((reading 144).1.mp read).2.2
  exact absurd (ldiff_eq_zero_iff.mp clear) (by decide)

end SwapCodec
