import SwapCodec.Text.Hex
import SwapCodec.Text.Quoted
import SwapCodec.Value.Text

/-!
# Texts that are read back

Joining texts puts the separator between them (`joined_eq_intercalate`).

A digit has the value that it was written for (`Text.hexDigitValue?_digitChar`).
So the bytes of a hexadecimal text are those it was written for, behind the marker
or without it (`Text.bytesOfHex?_hexOfBytes`, `Text.dropHexMarker_marked`), and a
number that is filled with zeros has one digit for each of its last places
(`Text.paddedHex_succ`).

In base ten the numbers that are not too long are those of at most `Text.digitLimit`
digits (`Text.length_toDigits_le_digitLimit_iff`).
-/

set_option autoImplicit false

namespace SwapCodec

/-! ## Joined texts -/

theorem foldl_append_eq (separator first : String) (rest : List String) :
    rest.foldl (fun text t => text ++ separator ++ t) first =
      separator.intercalate (first :: rest) := by
  induction rest generalizing first with
  | nil => exact String.intercalate_singleton.symm
  | cons second rest ih =>
      rw [List.foldl_cons, ih, String.intercalate_cons_append, String.intercalate_cons_cons]

theorem joined_eq_intercalate (separator : String) (texts : List String) :
    joined separator texts = separator.intercalate texts := by
  cases texts with
  | nil => exact String.intercalate_nil.symm
  | cons first rest => exact foldl_append_eq separator first rest

namespace Text

/-! ## Single digits -/

theorem hexDigitValue?_digitChar {n : Nat} (small : n < 16) :
    hexDigitValue? (Nat.digitChar n) = some n :=
  (by decide : ∀ m ∈ List.range 16, hexDigitValue? (Nat.digitChar m) = some m) n
    (List.mem_range.mpr small)

theorem isAsciiBlank_digitChar {n : Nat} (small : n < 16) :
    isAsciiBlank (Nat.digitChar n) = false :=
  (by decide : ∀ m ∈ List.range 16, isAsciiBlank (Nat.digitChar m) = false) n
    (List.mem_range.mpr small)

/-! ## Digits in base ten -/

theorem length_toDigits_le_iff {n count : Nat} (pos : 0 < count) :
    (Nat.toDigits 10 n).length ≤ count ↔ n < Nat.pow 10 count :=
  Nat.length_toDigits_le_iff (by decide) pos

/-- A number is short enough for a numeral if it has at most `digitLimit` digits. -/
theorem length_toDigits_le_digitLimit_iff {n : Nat} :
    (Nat.toDigits 10 n).length ≤ digitLimit ↔ n < tooLong := by
  unfold tooLong
  exact length_toDigits_le_iff (by decide)

/-! ## Bytes -/

theorem readHexPairs_hexPair (done : List UInt8) (b : UInt8) (rest : List Char) :
    readHexPairs done (hexPair b ++ rest) = readHexPairs (b :: done) rest := by
  have high : b.toNat / 16 < 16 := Nat.div_lt_of_lt_mul b.toNat_lt
  have low : b.toNat % 16 < 16 := Nat.mod_lt _ (by decide)
  have whole : 16 * (b.toNat / 16) + b.toNat % 16 = b.toNat := Nat.div_add_mod _ _
  rw [hexPair, List.cons_append, List.cons_append, List.nil_append, readHexPairs,
    isAsciiBlank_digitChar high, hexDigitValue?_digitChar high, hexDigitValue?_digitChar low]
  simp only [Bool.false_eq_true, if_false, whole, UInt8.ofNat_toNat]

theorem readHexPairs_flatMap (done data : List UInt8) :
    readHexPairs done (data.flatMap hexPair) = some (done.reverse ++ data) := by
  induction data generalizing done with
  | nil => rw [List.flatMap_nil, readHexPairs, List.append_nil]
  | cons b data ih =>
      rw [List.flatMap_cons, readHexPairs_hexPair, ih, List.reverse_cons, List.append_assoc,
        List.singleton_append]

/-- **Hexadecimal bytes** are read back. -/
theorem bytesOfHex?_hexOfBytes (data : List UInt8) : bytesOfHex? (hexOfBytes data) = some data := by
  rw [bytesOfHex?, hexOfBytes, String.toList_ofList]
  exact readHexPairs_flatMap [] data

theorem dropHexMarker_marked (s : String) : dropHexMarker ("0x" ++ s) = s := by
  have marked : ("0x" ++ s).toList = '0' :: 'x' :: s.toList := by
    rw [String.toList_append]
    rfl
  rw [dropHexMarker, marked]
  simp only [beq_self_eq_true, Bool.true_or, if_true, String.ofList_toList]

/-! ## Digits filled with zeros -/

theorem paddedHex_one {n : Nat} (small : n < 16) : paddedHex 1 n = [Nat.digitChar n] := by
  rw [paddedHex, Nat.toDigits_of_lt_base small]
  rfl

theorem paddedHex_succ {count : Nat} (pos : 0 < count) (n : Nat) :
    paddedHex (count + 1) n = paddedHex count (n / 16) ++ [Nat.digitChar (n % 16)] := by
  by_cases small : n < 16
  · have none : n / 16 = 0 := Nat.div_eq_of_lt small
    obtain ⟨k, rfl⟩ : ∃ k, count = k + 1 := ⟨count - 1, by omega⟩
    simp only [paddedHex, none, Nat.mod_eq_of_lt small, Nat.toDigits_of_lt_base small,
      Nat.toDigits_zero, List.length_singleton, Nat.add_sub_cancel, List.replicate_succ']
  · have digits := Nat.toDigits_of_base_le (by decide : 1 < 16) (Nat.le_of_not_lt small)
    simp only [paddedHex, digits, List.length_append, List.length_singleton, Nat.add_sub_add_right,
      List.append_assoc]

end Text

end SwapCodec
