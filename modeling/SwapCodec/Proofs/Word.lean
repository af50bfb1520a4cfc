import SwapCodec.Word.Checked
import Mathlib.Data.List.Induction
import Mathlib.Data.Nat.Bitwise

/-!
# Words as bytes

Big-endian bytes and natural numbers below a power of 256 are the same thing
(`ofBigEndian_bigEndian`, `bigEndian_ofBigEndian`).

An integer that fits its width is read back from its bytes
(`wordOfBytes_wordBytes`), and a byte string of the size of a width is the
bytes of the integer it denotes (`wordBytes_wordOfBytes`). The second statement
needs no bound on the integer: a width that does not fill its bytes leaves byte
strings that denote integers out of its range, and these are read back as well.
-/

set_option autoImplicit false

namespace SwapCodec

/-! ## Big-endian bytes -/

theorem bigEndianOnto_eq (count n : Nat) (tail : List UInt8) :
    bigEndianOnto count n tail = bigEndian count n ++ tail := by
  induction count generalizing n tail with
  | zero => rfl
  | succ count ih =>
      simp only [bigEndian, bigEndianOnto]
      rw [ih, ih (n / 256) [UInt8.ofNat (n % 256)], List.append_assoc]
      rfl

theorem bigEndian_succ (count n : Nat) :
    bigEndian (count + 1) n = bigEndian count (n / 256) ++ [UInt8.ofNat (n % 256)] :=
  bigEndianOnto_eq count (n / 256) [UInt8.ofNat (n % 256)]

@[simp]
theorem length_bigEndian (count n : Nat) : (bigEndian count n).length = count := by
  induction count generalizing n with
  | zero => rfl
  | succ count ih => rw [bigEndian_succ, List.length_append, ih, List.length_singleton]

theorem ofBigEndian_concat (bytes : List UInt8) (b : UInt8) :
    ofBigEndian (bytes ++ [b]) = 256 * ofBigEndian bytes + b.toNat := by
  simp only [ofBigEndian, List.foldl_append, List.foldl_cons, List.foldl_nil]

/-- Only the low bytes of a number are written, and they are read back. -/
theorem ofBigEndian_bigEndian (count n : Nat) :
    ofBigEndian (bigEndian count n) = n % 256 ^ count := by
  induction count generalizing n with
  | zero => simp [bigEndian, bigEndianOnto, ofBigEndian, Nat.mod_one]
  | succ count ih =>
      have low : (UInt8.ofNat (n % 256)).toNat = n % 256 :=
        Nat.mod_eq_of_lt (Nat.mod_lt n (by decide))
      rw [bigEndian_succ, ofBigEndian_concat, ih, low, Nat.pow_succ, Nat.mul_comm (256 ^ count),
        Nat.mod_mul, Nat.add_comm]

theorem ofBigEndian_lt (bytes : List UInt8) : ofBigEndian bytes < 256 ^ bytes.length := by
  induction bytes using List.reverseRecOn with
  | nil => decide
  | append_singleton bytes b ih =>
      have := b.toNat_lt
      rw [ofBigEndian_concat, List.length_append, List.length_singleton, Nat.pow_succ]
      omega

/-- Leading zero bytes included, a byte string is the bytes of its number. -/
theorem bigEndian_ofBigEndian (bytes : List UInt8) :
    bigEndian bytes.length (ofBigEndian bytes) = bytes := by
  induction bytes using List.reverseRecOn with
  | nil => rfl
  | append_singleton bytes b ih =>
      have small := b.toNat_lt
      have high : (256 * ofBigEndian bytes + b.toNat) / 256 = ofBigEndian bytes := by omega
      have low : (256 * ofBigEndian bytes + b.toNat) % 256 = b.toNat := by omega
      rw [List.length_append, List.length_singleton, bigEndian_succ, ofBigEndian_concat, high, low,
        ih, UInt8.ofNat_toNat]

/-! ## Integers of a width -/

@[simp]
theorem length_wordBytes (w : Width) (n : Int) : (wordBytes w n).length = w.byteCount :=
  length_bigEndian _ _

theorem fits_iff {s : Signedness} {w : Width} {n : Int} :
    s.fits w n = true ↔ s.lower w ≤ n ∧ n ≤ s.upper w := by
  simp only [Signedness.fits, Bool.and_eq_true, decide_eq_true_eq]

theorem fits_unsigned_iff {w : Width} {n : Int} :
    Signedness.unsigned.fits w n = true ↔ 0 ≤ n ∧ n < 2 ^ w.bits := by
  have power : ((Nat.pow 2 w.bits : Nat) : Int) = 2 ^ w.bits := by
    exact Int.natCast_pow 2 w.bits
  rw [fits_iff, Signedness.lower, Signedness.upper, power, Int.le_sub_one_iff]

/-- The number of byte strings of the size of a width. -/
def Width.capacity (w : Width) : Nat := 256 ^ w.byteCount

theorem Width.two_pow_le_capacity (w : Width) : 2 ^ w.bits ≤ w.capacity := by
  have wide : w.bits ≤ 8 * w.byteCount := by
    simp only [Width.byteCount]
    omega
  calc 2 ^ w.bits ≤ 2 ^ (8 * w.byteCount) := Nat.pow_le_pow_right (by decide) wide
    _ = 256 ^ w.byteCount := Nat.pow_mul 2 8 w.byteCount

theorem Width.two_pow_eq (w : Width) : 2 ^ w.bits = 2 * 2 ^ (w.bits - 1) := by
  rw [← Nat.pow_succ', Nat.succ_eq_add_one, Nat.sub_add_cancel w.bits_pos]

/-- A negative integer above `-N` has the residue it gets by adding `N`. -/
theorem emod_of_add {n N : Int} (lower : 0 ≤ n + N) (upper : n + N < N) : n % N = n + N := by
  rw [← Int.add_emod_right]
  exact Int.emod_eq_of_lt lower upper

theorem ofBigEndian_wordBytes (w : Width) (n : Int) :
    (ofBigEndian (wordBytes w n) : Int) = n % w.capacity := by
  have positive : 0 < w.capacity := Nat.pow_pos (by decide)
  have lower : 0 ≤ n % w.capacity := Int.emod_nonneg n (by omega)
  have upper : n % w.capacity < w.capacity := Int.emod_lt_of_pos n (by omega)
  simp only [wordBytes, Nat.pow_eq, ofBigEndian_bigEndian]
  change (((n % w.capacity).toNat % w.capacity : Nat) : Int) = n % w.capacity
  rw [Nat.mod_eq_of_lt (by omega), Int.toNat_of_nonneg lower]

/-- **Words are read back.** An integer that fits its width is the one that its
bytes denote. -/
theorem wordOfBytes_wordBytes {s : Signedness} {w : Width} {n : Int} (fits : s.fits w n = true) :
    wordOfBytes s (wordBytes w n) = n := by
  have wide := w.two_pow_le_capacity
  have double := w.two_pow_eq
  have residue := ofBigEndian_wordBytes w n
  obtain ⟨lower, upper⟩ := fits_iff.mp fits
  cases s with
  | unsigned =>
      simp only [Signedness.lower, Signedness.upper, Nat.pow_eq] at lower upper
      simp only [wordOfBytes]
      rw [residue, Int.emod_eq_of_lt lower (by omega)]
  | signed =>
      simp only [Signedness.lower, Signedness.upper, Nat.pow_eq] at lower upper
      have size : Nat.pow 256 (wordBytes w n).length = w.capacity := by rw [length_wordBytes]; rfl
      simp only [wordOfBytes, size]
      by_cases negative : n < 0
      · rw [emod_of_add (by omega) (by omega)] at residue
        rw [if_pos (by omega), residue, Int.add_sub_cancel]
      · rw [Int.emod_eq_of_lt (by omega) (by omega)] at residue
        rw [if_neg (by omega), residue]

theorem ofBigEndian_lt_capacity {w : Width} {bytes : List UInt8}
    (sized : bytes.length = w.byteCount) : ofBigEndian bytes < w.capacity := by
  rw [Width.capacity, ← sized]
  exact ofBigEndian_lt bytes

theorem wordOfBytes_emod (s : Signedness) {w : Width} {bytes : List UInt8}
    (sized : bytes.length = w.byteCount) :
    wordOfBytes s bytes % w.capacity = ofBigEndian bytes := by
  have small := ofBigEndian_lt_capacity sized
  have size : Nat.pow 256 bytes.length = w.capacity := by rw [sized]; rfl
  cases s with
  | unsigned =>
      simp only [wordOfBytes]
      exact Int.emod_eq_of_lt (by omega) (by omega)
  | signed =>
      simp only [wordOfBytes, size]
      split
      · rw [emod_of_add (by omega) (by omega), Int.sub_add_cancel]
      · exact Int.emod_eq_of_lt (by omega) (by omega)

/-- **Bytes are written back.** A byte string of the right length is the bytes
of the integer that it denotes. -/
theorem wordBytes_wordOfBytes (s : Signedness) {w : Width} {bytes : List UInt8}
    (sized : bytes.length = w.byteCount) : wordBytes w (wordOfBytes s bytes) = bytes := by
  change bigEndian w.byteCount (wordOfBytes s bytes % w.capacity).toNat = bytes
  rw [wordOfBytes_emod s sized, Int.toNat_natCast, ← sized, bigEndian_ofBigEndian]

end SwapCodec
