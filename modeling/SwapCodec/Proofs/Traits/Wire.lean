import SwapCodec.Proofs.Layout.Interference
import SwapCodec.Proofs.Schema.Flaws
import SwapCodec.Proofs.Word.TwosComplement

/-!
# The one wire form of traits

Traits are written as a word, as the bytes of that word and as an argument, and they are read
from each of these, strictly or not. All of these ways go through one layout and one width.

A word that is read leniently gives the traits of its bits that belong to fields
(`Traits.exists_ofWord_lenient`), and a word of the layout gives the same traits however it is
read (`Traits.ofWord_of_used`). The word of traits is a word of the layout
(`Traits.word_and_usedMask`), and so is the word of every argument that is accepted
(`ArgType.ofBytes_traits_iff`). So the strict and the lenient ways never give different traits,
and what one of them writes every other one reads (`traits_one_wire_form`).
-/

set_option autoImplicit false

namespace SwapCodec

theorem isSome_decimal?_of_le {n : Nat} (small : n ≤ 256) : (Text.decimal? n).isSome = true :=
  Text.isSome_decimal? <| Nat.lt_of_le_of_lt small <|
    Nat.lt_of_lt_of_le (by decide) Text.two_pow_256_le_tooLong

/-- The counts of bits and bytes of a narrow width are quoted. -/
theorem isSome_message?_wrongByteCount {s : Signedness} {w : Width} {count : Nat}
    (narrow : w.bits ≤ 256) : (Error.wrongByteCount s w count).message?.isSome = true := by
  have short : w.byteCount ≤ 256 := by
    rw [Width.byteCount]
    omega
  obtain ⟨bytes, expected⟩ := Option.isSome_iff_exists.mp (isSome_decimal?_of_le short)
  obtain ⟨bits, counted⟩ := Option.isSome_iff_exists.mp (isSome_decimal?_of_le narrow)
  simp [Error.message?, expected, counted]

namespace Traits

variable {kind : TraitKind} {t u : Traits} {word : Nat} {data : List UInt8}

theorem agrees_comm (t u : Traits) : t.agrees u = u.agrees t := by
  rw [Bool.eq_iff_iff]
  simp only [agrees, Bool.and_eq_true, beq_iff_eq]
  constructor
  · rintro ⟨kind, values⟩
    exact ⟨kind.symm, values.symm⟩
  · rintro ⟨kind, values⟩
    exact ⟨kind.symm, values.symm⟩

/-! ## Words -/

/-- Every word is read leniently, as the traits of its bits that belong to fields. -/
theorem exists_ofWord_lenient (kind : TraitKind) (small : word < 2 ^ 256) :
    ∃ t : Traits, ofWord kind false (.int word) = .ok t ∧ t.kind = kind ∧ t.Plain ∧
      t.word = word &&& kind.layout.usedMask := by
  have used : (word &&& kind.layout.usedMask) &&& kind.layout.usedMask =
      word &&& kind.layout.usedMask := by rw [Nat.and_assoc, Nat.and_self]
  obtain ⟨t, rfl, plain, same⟩ := exists_of_used used
  have inside : word < 2 ^ t.kind.layout.wordBits.toNat := by rwa [TraitKind.wordBits_eq]
  have read : t.values = (t.kind.layout.readFields word).map (·.2) := by
    rw [plain, same, ← Layout.readFields_and_usedMask, Layout.readFields, List.map_map]
    rfl
  refine ⟨t, ?_, rfl, plain, same⟩
  simp only [ofWord, Layout.unpackAs, Bool.false_eq_true, if_false,
    Layout.unpack_eq_ok t.kind.wordBits_nonneg inside, Except.ok_bind]
  exact ofTaken_eq_ok_iff.mpr ⟨rfl, read⟩

/-- A word is read strictly exactly if no bit is outside the fields. -/
theorem exists_ofWord_strict_iff :
    (∃ t, ofWord kind true (.int word) = .ok t) ↔ word &&& kind.layout.usedMask = word := by
  constructor
  · rintro ⟨t, read⟩
    obtain ⟨rfl, -, same⟩ := ofWord_strict_eq_ok_iff.mp read
    rw [Int.natCast_inj.mp same]
    exact t.word_and_usedMask
  · intro used
    obtain ⟨t, same, plain, rfl⟩ := exists_of_used used
    exact ⟨t, ofWord_strict_eq_ok_iff.mpr ⟨same, plain, rfl⟩⟩

/-- The word of traits is read as their plain form. -/
theorem ofWord_word (t : Traits) : ofWord t.kind true (.int t.word) = .ok t.normal :=
  ofWord_strict_eq_ok_iff.mpr ⟨rfl, t.normal_plain, by rw [normal_word]⟩

/-- An integer that is no word is refused, strictly or not. -/
theorem failsWith_ofWord (kind : TraitKind) (strict : Bool) {n : Int}
    (outside : ¬ (0 ≤ n ∧ n < 2 ^ 256)) : FailsWith (ofWord kind strict (.int n)) .range := by
  have worded : (Error.wordOverflow kind.layout.name 256).message?.isSome = true :=
    Option.isSome_map.trans (isSome_decimal?_of_le le_rfl)
  have refused : FailsWith (kind.layout.checkWord (.int n)) .range := by
    rw [Layout.checkWord, kind.wordBits_eq]
    by_cases negative : n < 0
    · rw [if_pos negative]
      exact failsWith_fail worded
    · have long : Nat.pow 2 (256 : Int).toNat ≤ n.toNat := by
        show 2 ^ 256 ≤ n.toNat
        omega
      rw [if_neg negative, if_neg (by decide), if_pos long]
      exact failsWith_fail worded
  cases strict with
  | false => exact (refused.bind _).bind _
  | true => exact (refused.bind _).bind _

/-! ## Bytes -/

theorem ofBigEndian_lt_of_sized (sized : data.length = 32) : ofBigEndian data < 2 ^ 256 :=
  ofBigEndian_lt_capacity (w := traitsWidth) sized

theorem toBytes_eq (t : Traits) : t.toBytes = .ok (wordBytes traitsWidth t.word) :=
  encodeWord_eq_ok_iff.mpr
    ⟨t.word, mem_integers_iff.mpr (ArgType.traitsWord_fits t), rfl, rfl⟩

theorem ofBytes_eq (kind : TraitKind) (sized : data.length = 32) :
    ofBytes kind data = ofWord kind false (.int (ofBigEndian data)) := by
  have small := ofBigEndian_lt_of_sized sized
  have inside : (ofBigEndian data : Int) ∈ Signedness.unsigned.integers traitsWidth :=
    ⟨Int.natCast_nonneg _, by exact_mod_cast small⟩
  have read : decodeWord .unsigned traitsWidth data = .ok (ofBigEndian data) :=
    decodeWord_eq_ok_iff.mpr ⟨inside, (wordBytes_wordOfBytes .unsigned sized).symm⟩
  rw [ofBytes, read, Except.ok_bind]

/-- The bytes of traits are read as their plain form. -/
theorem ofBytes_wordBytes (t : Traits) :
    ofBytes t.kind (wordBytes traitsWidth t.word) = .ok t.normal := by
  have number : (ofBigEndian (wordBytes traitsWidth t.word) : Int) = t.word :=
    wordOfBytes_wordBytes (ArgType.traitsWord_fits t)
  rw [ofBytes_eq t.kind (length_wordBytes _ _), number, ofWord_of_used t.word_and_usedMask]
  exact t.ofWord_word

theorem failsWith_ofBytes (kind : TraitKind) (sized : data.length ≠ 32) :
    FailsWith (ofBytes kind data) .range := by
  have refused : FailsWith (decodeWord .unsigned traitsWidth data) .range := by
    have other : ¬ data.length = traitsWidth.byteCount := sized
    rw [decodeWord, if_neg other]
    exact failsWith_fail (isSome_message?_wrongByteCount (by decide))
  exact refused.bind _

end Traits

/-! ## Arguments -/

namespace ArgType

variable {T : ArgType} {v : Value} {data : List UInt8}

theorem ofBytes_eq_ok_iff : T.ofBytes data = .ok v ↔ T.Wire v data := by
  rw [← T.deserialize_parses.run_eq_ok_iff, ofBytes]
  cases T.deserialize.run data with
  | ok w => rfl
  | error e =>
      refine ⟨fun read => ?_, fun read => absurd read Except.error_ne_ok⟩
      dsimp only at read
      split at read
      · exact absurd read fail_ne_ok
      · exact absurd read Except.error_ne_ok

/-- The bytes of an argument are those of a word of the layout, and they are read as the traits
that a strict read of this word gives. -/
theorem ofBytes_traits_iff {kind : TraitKind} (sized : data.length = 32) :
    (traits kind).ofBytes data = .ok v ↔
      ∃ t, v = .traits t ∧ Traits.ofWord kind true (.int (ofBigEndian data)) = .ok t := by
  rw [ofBytes_eq_ok_iff]
  refine exists_congr fun t => and_congr_right fun _ => ?_
  rw [Traits.ofWord_strict_eq_ok_iff]
  refine and_congr_right fun _ => and_congr_right fun _ => ?_
  constructor
  · rintro rfl
    exact wordOfBytes_wordBytes (traitsWord_fits t)
  · intro same
    rw [← same]
    exact (wordBytes_wordOfBytes .unsigned sized).symm

end ArgType

/-! ## All ways together -/

/-- All ways of writing the traits of a kind give one form, and all ways of reading them take this
form and agree on it. -/
structure TraitKind.OneWireForm (kind : TraitKind) : Prop where
  /-- Traits are packed into their word. A strict read of the word, and a read of its bytes, give
  equal traits. As an argument, traits are written as the same bytes. -/
  written : ∀ t : Traits, t.kind = kind →
    kind.layout.pack (fieldEntries t.fields) = .ok t.word ∧
    (∃ u, Traits.ofWord kind true (.int t.word) = .ok u ∧ u.agrees t = true) ∧
    ∃ data, t.toBytes = .ok data ∧
      (∃ u, Traits.ofBytes kind data = .ok u ∧ u.agrees t = true) ∧
      (ArgType.traits kind).toBytes (.traits t) = .ok data
  /-- A lenient read of a word, which is not negative, gives the traits of its bits that belong to
  fields. -/
  masked : ∀ n : Int, 0 ≤ n → n < 2 ^ 256 →
    ∃ t, Traits.ofWord kind false (.int n) = .ok t ∧ t.word = n.toNat &&& kind.layout.usedMask
  /-- Other integers are no words. -/
  refused : ∀ n : Int, ¬ (0 ≤ n ∧ n < 2 ^ 256) → ∀ strict,
    FailsWith (Traits.ofWord kind strict (.int n)) .range
  /-- The bytes of a word are read as an argument exactly if no bit is outside the fields, and then
  they give the traits that they give by themselves. -/
  read : ∀ data : List UInt8, data.length = 32 →
    ((∃ v, (ArgType.traits kind).ofBytes data = .ok v) ↔
      Nat.ldiff (ofBigEndian data) kind.layout.usedMask = 0) ∧
    ∃ t, Traits.ofBytes kind data = .ok t ∧
      ∀ v, (ArgType.traits kind).ofBytes data = .ok v → v = .traits t
  /-- Traits are read from thirty-two bytes and from no other number of them. -/
  sized : ∀ data : List UInt8, data.length ≠ 32 → FailsWith (Traits.ofBytes kind data) .range

/-- **One wire form.** It holds for the traits of the maker and for those of the taker. -/
theorem traits_one_wire_form (kind : TraitKind) : kind.OneWireForm where
  written := by
    rintro t rfl
    have same : t.normal.agrees t = true := by
      rw [Traits.agrees_comm]
      exact t.agrees_normal
    have checked : (ArgType.traits t.kind).check (.traits t) = .ok () :=
      ArgType.check_traits_eq_ok_iff.mpr ⟨t, rfl, rfl⟩
    have emitted := ArgType.emits_serialize checked
      (Encoder.emits_word (ArgType.traitsWord_fits t))
    exact ⟨t.pack_fields, ⟨t.normal, t.ofWord_word, same⟩, _, t.toBytes_eq,
      ⟨t.normal, t.ofBytes_wordBytes, same⟩, emitted.toBytes⟩
  masked := by
    intro n natural small
    obtain ⟨word, rfl⟩ := Int.eq_ofNat_of_zero_le natural
    obtain ⟨t, read, -, -, same⟩ := Traits.exists_ofWord_lenient kind (by exact_mod_cast small)
    exact ⟨t, read, same⟩
  refused := fun n outside strict => Traits.failsWith_ofWord kind strict outside
  read := by
    intro data sized
    have small := Traits.ofBigEndian_lt_of_sized sized
    obtain ⟨t, lenient, -⟩ := Traits.exists_ofWord_lenient kind small
    simp only [ArgType.ofBytes_traits_iff sized, Traits.ofBytes_eq kind sized, ldiff_eq_zero_iff]
    refine ⟨?_, t, lenient, ?_⟩
    · rw [← Traits.exists_ofWord_strict_iff]
      constructor
      · rintro ⟨_, u, -, strict⟩
        exact ⟨u, strict⟩
      · rintro ⟨u, strict⟩
        exact ⟨_, u, rfl, strict⟩
    · rintro _ ⟨u, rfl, strict⟩
      have used := Traits.exists_ofWord_strict_iff.mp ⟨u, strict⟩
      rw [← Traits.ofWord_of_used used, lenient] at strict
      rw [Except.ok.inj strict]
  sized := fun data other => Traits.failsWith_ofBytes kind other

end SwapCodec
