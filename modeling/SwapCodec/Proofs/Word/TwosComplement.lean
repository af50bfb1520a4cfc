import SwapCodec.Proofs.ArgType.Wire
import Mathlib.Data.Set.Function

/-!
# Words in two's complement

The bits of a byte string are counted from the last bit of its last byte (`bitAt`). They are the
bits of the number that the bytes denote (`testBit_ofBigEndian`), so what is written for an
integer are the bits of its residue (`bitAt_wordBytes`).

A width that does not fill its bytes leaves bits to spare. In the bytes of an unsigned integer
they are clear, and in those of a signed one they repeat the sign (`Signedness.byteStrings`).
A byte string of the right length denotes an integer of the width exactly if its spare bits are
like that (`mem_byteStrings_iff`): for a negative integer this is read off the complement of the
bytes, whose bits are the other way round.

So the integers of a width and these byte strings correspond one to one, and everything else is
refused (`words_twosComplement`).
-/

set_option autoImplicit false

namespace SwapCodec

/-! ## The bits of a byte string -/

/-- A bit of a byte string, counted from the last bit of the last byte. No bit is set in front of
the first byte. -/
def bitAt (bytes : List UInt8) (i : Nat) : Bool :=
  (bytes.reverse.getD (i / 8) 0).toNat.testBit (i % 8)

theorem bitAt_nil (i : Nat) : bitAt [] i = false := by
  rw [bitAt, List.reverse_nil, List.getD_nil, UInt8.toNat_zero, Nat.zero_testBit]

theorem bitAt_concat (bytes : List UInt8) (b : UInt8) (i : Nat) :
    bitAt (bytes ++ [b]) i = if i < 8 then b.toNat.testBit i else bitAt bytes (i - 8) := by
  rw [bitAt, List.reverse_append, List.reverse_singleton, List.singleton_append]
  by_cases low : i < 8
  · rw [if_pos low, Nat.div_eq_of_lt low, Nat.mod_eq_of_lt low, List.getD_cons_zero]
  · have place : i / 8 = (i - 8) / 8 + 1 := by omega
    have offset : i % 8 = (i - 8) % 8 := by omega
    rw [if_neg low, place, offset, List.getD_cons_succ, bitAt]

/-- The bits of a byte string are those of the number that it denotes. -/
theorem testBit_ofBigEndian (bytes : List UInt8) (i : Nat) :
    (ofBigEndian bytes).testBit i = bitAt bytes i := by
  induction bytes using List.reverseRecOn generalizing i with
  | nil => rw [bitAt_nil, ofBigEndian, List.foldl_nil, Nat.zero_testBit]
  | append_singleton bytes b ih =>
      have small : b.toNat < 2 ^ 8 := b.toNat_lt
      rw [ofBigEndian_concat, Nat.testBit_two_pow_mul_add (ofBigEndian bytes) small, bitAt_concat,
        ih]

/-- **Two's complement.** The bits that are written for an integer are those of its residue. -/
theorem bitAt_wordBytes (w : Width) (n : Int) (i : Nat) :
    bitAt (wordBytes w n) i = (n % w.capacity).toNat.testBit i := by
  rw [← testBit_ofBigEndian, ← ofBigEndian_wordBytes, Int.toNat_natCast]

theorem Width.capacity_eq (w : Width) : w.capacity = 2 ^ (8 * w.byteCount) :=
  (Nat.pow_mul 2 8 w.byteCount).symm

theorem Width.natCast_capacity (w : Width) : (w.capacity : Int) = 2 ^ (8 * w.byteCount) := by
  rw [w.capacity_eq]
  exact Int.natCast_pow 2 _

theorem Width.bits_le (w : Width) : w.bits ≤ 8 * w.byteCount := by
  rw [Width.byteCount]
  omega

theorem lt_two_pow_iff {n k : Nat} : n < 2 ^ k ↔ ∀ i, k ≤ i → n.testBit i = false := by
  constructor
  · intro small i above
    exact Nat.testBit_eq_false_of_lt (small.trans_le (Nat.pow_le_pow_right (by decide) above))
  · exact Nat.lt_pow_two_of_testBit n

/-- A number is close to a power when all of its bits from some place on are set. -/
theorem two_pow_sub_le_iff {n k m : Nat} (small : n < 2 ^ m) :
    2 ^ m - 2 ^ k ≤ n ↔ ∀ i, k ≤ i → i < m → n.testBit i = true := by
  have complement : 2 ^ m - 2 ^ k ≤ n ↔ 2 ^ m - (n + 1) < 2 ^ k := by omega
  rw [complement, lt_two_pow_iff]
  simp only [Nat.testBit_two_pow_sub_succ small, Bool.and_eq_false_imp, decide_eq_true_eq,
    Bool.not_eq_false']

/-! ## Integers and byte strings of a width -/

namespace Signedness

/-- The integers of a width. -/
def integers (s : Signedness) (w : Width) : Set Int :=
  match s with
  | .unsigned => {n | 0 ≤ n ∧ n < 2 ^ w.bits}
  | .signed => {n | -2 ^ (w.bits - 1) ≤ n ∧ n < 2 ^ (w.bits - 1)}

/-- The byte strings of the size of a width in which the bits to spare are clear or repeat the
sign. -/
def byteStrings (s : Signedness) (w : Width) : Set (List UInt8) :=
  match s with
  | .unsigned => {bytes | bytes.length = w.byteCount ∧ ∀ i, w.bits ≤ i → bitAt bytes i = false}
  | .signed => {bytes | bytes.length = w.byteCount ∧
      ∀ i j, w.bits - 1 ≤ i → i < 8 * w.byteCount → w.bits - 1 ≤ j → j < 8 * w.byteCount →
        bitAt bytes i = bitAt bytes j}

end Signedness

variable {s : Signedness} {w : Width} {n : Int} {bytes : List UInt8}

theorem mem_integers_iff : n ∈ s.integers w ↔ s.fits w n = true := by
  have power (k : Nat) : ((Nat.pow 2 k : Nat) : Int) = 2 ^ k := Int.natCast_pow 2 k
  cases s with
  | unsigned =>
      rw [fits_unsigned_iff]
      rfl
  | signed =>
      rw [fits_iff, Signedness.lower, Signedness.upper, power, Int.le_sub_one_iff]
      rfl

theorem length_of_mem_byteStrings (mem : bytes ∈ s.byteStrings w) :
    bytes.length = w.byteCount := by
  cases s with
  | unsigned => exact mem.1
  | signed => exact mem.1

theorem mem_unsigned_byteStrings_iff (sized : bytes.length = w.byteCount) :
    bytes ∈ Signedness.unsigned.byteStrings w ↔ ofBigEndian bytes < 2 ^ w.bits := by
  rw [lt_two_pow_iff]
  simp only [testBit_ofBigEndian]
  exact and_iff_right sized

/-- The sign is the first bit of a byte string, and the bits to spare are those after it. -/
theorem mem_signed_byteStrings_iff (sized : bytes.length = w.byteCount) :
    bytes ∈ Signedness.signed.byteStrings w ↔
      if w.capacity ≤ 2 * ofBigEndian bytes then
        w.capacity - 2 ^ (w.bits - 1) ≤ ofBigEndian bytes
      else ofBigEndian bytes < 2 ^ (w.bits - 1) := by
  have positive := w.bits_pos
  have wide := w.bits_le
  have small : ofBigEndian bytes < 2 ^ (8 * w.byteCount) := by
    rw [← w.capacity_eq]
    exact ofBigEndian_lt_capacity sized
  have half : 2 ^ (8 * w.byteCount) = 2 * 2 ^ (8 * w.byteCount - 1) := by
    rw [← Nat.pow_succ', Nat.succ_eq_add_one, Nat.sub_add_cancel (by omega)]
  have first : 2 ^ (8 * w.byteCount) ≤ 2 * ofBigEndian bytes ↔
      bitAt bytes (8 * w.byteCount - 1) = true := by
    have top := two_pow_sub_le_iff (k := 8 * w.byteCount - 1) small
    have next : 2 ^ (8 * w.byteCount) - 2 ^ (8 * w.byteCount - 1) ≤ ofBigEndian bytes ↔
        2 ^ (8 * w.byteCount) ≤ 2 * ofBigEndian bytes := by omega
    rw [← next, top, ← testBit_ofBigEndian]
    constructor
    · intro set
      exact set _ le_rfl (by omega)
    · intro set i above below
      rwa [show i = 8 * w.byteCount - 1 by omega]
  have last : w.bits - 1 ≤ 8 * w.byteCount - 1 ∧ 8 * w.byteCount - 1 < 8 * w.byteCount := by omega
  rw [w.capacity_eq]
  split
  · rename_i negative
    rw [two_pow_sub_le_iff small]
    simp only [testBit_ofBigEndian]
    constructor
    · rintro ⟨-, same⟩ i above below
      rw [same i _ above below last.1 last.2]
      exact first.mp negative
    · intro set
      refine ⟨sized, fun i j above below above' below' => ?_⟩
      rw [set i above below, set j above' below']
  · rename_i natural
    rw [lt_two_pow_iff]
    simp only [testBit_ofBigEndian]
    constructor
    · rintro ⟨-, same⟩ i above
      by_cases below : i < 8 * w.byteCount
      · rw [same i _ above below last.1 last.2]
        exact Bool.eq_false_iff.mpr fun set => natural (first.mpr set)
      · rw [← testBit_ofBigEndian]
        exact lt_two_pow_iff.mp small i (Nat.le_of_not_lt below)
    · intro clear
      refine ⟨sized, fun i j above _ above' _ => ?_⟩
      rw [clear i above, clear j above']

/-- **Spare bits.** They say whether a byte string denotes an integer of the width. -/
theorem mem_byteStrings_iff (sized : bytes.length = w.byteCount) :
    bytes ∈ s.byteStrings w ↔ wordOfBytes s bytes ∈ s.integers w := by
  have positive := w.bits_pos
  cases s with
  | unsigned =>
      rw [mem_unsigned_byteStrings_iff sized]
      simp only [wordOfBytes, Signedness.integers, Set.mem_ofPred_eq]
      constructor
      · intro small
        exact ⟨Int.natCast_nonneg _, by exact_mod_cast small⟩
      · rintro ⟨-, small⟩
        exact_mod_cast small
  | signed =>
      have size : Nat.pow 256 bytes.length = w.capacity := by rw [sized]; rfl
      have bounded := ofBigEndian_lt_capacity sized
      have wide : 2 ^ (w.bits - 1) ≤ w.capacity :=
        Nat.le_trans (Nat.pow_le_pow_right (by decide) (by omega)) w.two_pow_le_capacity
      have power : ((2 ^ (w.bits - 1) : Nat) : Int) = 2 ^ (w.bits - 1) := Int.natCast_pow 2 _
      rw [mem_signed_byteStrings_iff sized]
      simp only [wordOfBytes, size, Signedness.integers, Set.mem_ofPred_eq, ← power]
      split <;> omega

/-! ## Encoding and decoding -/

theorem wordBytes_mem_byteStrings (mem : n ∈ s.integers w) : wordBytes w n ∈ s.byteStrings w := by
  rw [mem_byteStrings_iff (length_wordBytes w n), wordOfBytes_wordBytes (mem_integers_iff.mp mem)]
  exact mem

theorem encodeWord_eq_ok_iff {v : Value} :
    encodeWord s w v = .ok bytes ↔ ∃ n ∈ s.integers w, v = .int n ∧ bytes = wordBytes w n := by
  simp only [encodeWord, Except.bind_eq_ok_iff, ArgType.checkWord_eq_ok_iff, mem_integers_iff]
  constructor
  · rintro ⟨n, ⟨rfl, fits⟩, written⟩
    exact ⟨n, fits, rfl, (Except.ok.inj written).symm⟩
  · rintro ⟨n, fits, rfl, rfl⟩
    exact ⟨n, ⟨rfl, fits⟩, rfl⟩

theorem decodeWord_eq_ok_iff :
    decodeWord s w bytes = .ok n ↔ n ∈ s.integers w ∧ bytes = wordBytes w n := by
  rw [decodeWord, mem_integers_iff]
  constructor
  · intro read
    split at read
    · rename_i sized
      obtain ⟨fits, rfl⟩ := checkFits_eq_ok_iff.mp read
      exact ⟨fits, (wordBytes_wordOfBytes s sized).symm⟩
    · exact absurd read fail_ne_ok
  · rintro ⟨fits, rfl⟩
    rw [if_pos (length_wordBytes w n), wordOfBytes_wordBytes fits]
    exact checkFits_eq_ok_iff.mpr ⟨fits, rfl⟩

/-- The computation fails with a range error, or for lack of a numeral for an integer that the
message of that error quotes. -/
def IsOutOfRange {α : Type} (x : Except Error α) : Prop :=
  ∃ e, x = .error e ∧ (e.kind = .range ∨ e = .numeralTooLong)

theorem isOutOfRange_fail {α : Type} {e : Error} (known : e.kind = .range)
    (replaced : e.unworded = .numeralTooLong) : IsOutOfRange (fail e : Except Error α) := by
  refine ⟨e.settled, rfl, ?_⟩
  rw [Error.settled]
  split
  · exact .inl known
  · exact .inr replaced

theorem isOutOfRange_checkFits (outside : n ∉ s.integers w) : IsOutOfRange (checkFits s w n) := by
  rw [checkFits, if_neg fun fits => outside (mem_integers_iff.mpr fits)]
  exact isOutOfRange_fail rfl rfl

theorem isOutOfRange_encodeWord {v : Value} (outside : ∀ n ∈ s.integers w, v ≠ .int n) :
    IsOutOfRange (encodeWord s w v) := by
  have refused : IsOutOfRange (checkWord s w v) := by
    cases v with
    | int n => exact isOutOfRange_checkFits fun mem => outside n mem rfl
    | _ => exact isOutOfRange_fail rfl rfl
  obtain ⟨e, failed, known⟩ := refused
  rw [encodeWord, failed]
  exact ⟨e, rfl, known⟩

theorem isOutOfRange_decodeWord (outside : bytes ∉ s.byteStrings w) :
    IsOutOfRange (decodeWord s w bytes) := by
  rw [decodeWord]
  split
  · rename_i sized
    exact isOutOfRange_checkFits fun mem => outside ((mem_byteStrings_iff sized).mpr mem)
  · exact isOutOfRange_fail rfl rfl

/-- The width that fills the bytes of another one. -/
def Width.filled (w : Width) : Width where
  bits := 8 * w.byteCount
  bits_pos := Nat.lt_of_lt_of_le w.bits_pos w.bits_le

theorem Width.byteCount_filled (w : Width) : w.filled.byteCount = w.byteCount := by
  show (8 * w.byteCount + 7) / 8 = w.byteCount
  omega

/-- The bytes of an integer are those of its residue. -/
theorem wordBytes_filled (w : Width) (n : Int) :
    wordBytes w.filled (n % w.capacity) = wordBytes w n := by
  have size : (Nat.pow 256 w.byteCount : Int) = w.capacity := rfl
  rw [wordBytes, wordBytes, w.byteCount_filled, size, Int.emod_emod]

theorem encodeWord_filled (mem : n ∈ Signedness.signed.integers w) :
    encodeWord .signed w (.int n) =
      encodeWord .unsigned w.filled (.int (n % 2 ^ (8 * w.byteCount))) := by
  have positive : (0 : Int) < 2 ^ (8 * w.byteCount) := Int.pow_pos (by decide)
  rw [encodeWord_eq_ok_iff.mpr ⟨n, mem, rfl, rfl⟩, eq_comm, encodeWord_eq_ok_iff]
  refine ⟨_, ⟨Int.emod_nonneg _ positive.ne', Int.emod_lt_of_pos _ positive⟩, rfl, ?_⟩
  rw [← w.natCast_capacity, wordBytes_filled]

/-- **Words in two's complement.** Encoding is a bijection from the integers of a width to the
byte strings of its size in which the bits to spare are clear, or repeat the sign if the integers
are signed. The bits that are written are those of the residue of the integer, and decoding is the
inverse. All other values and all other byte strings are refused as out of range. The bytes of a
signed integer are those of its residue, taken as an unsigned integer that fills them. -/
theorem words_twosComplement (s : Signedness) (w : Width) :
    Set.BijOn (fun n => encodeWord s w (.int n)) (s.integers w) (Except.ok '' s.byteStrings w) ∧
    (∀ n bytes, encodeWord s w (.int n) = .ok bytes → ∀ i,
      bitAt bytes i = (n % 2 ^ (8 * w.byteCount)).toNat.testBit i) ∧
    (∀ n bytes, encodeWord s w (.int n) = .ok bytes ↔ decodeWord s w bytes = .ok n) ∧
    (∀ v, (∀ n ∈ s.integers w, v ≠ .int n) → IsOutOfRange (encodeWord s w v)) ∧
    (∀ bytes, bytes ∉ s.byteStrings w → IsOutOfRange (decodeWord s w bytes)) ∧
    ∀ n ∈ Signedness.signed.integers w,
      encodeWord .signed w (.int n) =
        encodeWord .unsigned w.filled (.int (n % 2 ^ (8 * w.byteCount))) := by
  have written {n : Int} (mem : n ∈ s.integers w) :
      encodeWord s w (.int n) = .ok (wordBytes w n) := encodeWord_eq_ok_iff.mpr ⟨n, mem, rfl, rfl⟩
  refine ⟨⟨?maps, ?injective, ?surjective⟩, ?bits, ?inverse, fun v => isOutOfRange_encodeWord,
    fun bytes => isOutOfRange_decodeWord, fun n => encodeWord_filled⟩
  case maps =>
    intro n mem
    exact ⟨wordBytes w n, wordBytes_mem_byteStrings mem, (written mem).symm⟩
  case injective =>
    intro n mem m mem' same
    have bytes := Except.ok.inj ((written mem).symm.trans (same.trans (written mem')))
    rw [← wordOfBytes_wordBytes (mem_integers_iff.mp mem), bytes,
      wordOfBytes_wordBytes (mem_integers_iff.mp mem')]
  case surjective =>
    rintro _ ⟨bytes, mem, rfl⟩
    have sized := length_of_mem_byteStrings mem
    have inside := (mem_byteStrings_iff sized).mp mem
    refine ⟨wordOfBytes s bytes, inside, ?_⟩
    dsimp only
    rw [written inside, wordBytes_wordOfBytes s sized]
  case bits =>
    intro n bytes encoded i
    obtain ⟨_, _, same, rfl⟩ := encodeWord_eq_ok_iff.mp encoded
    cases same
    rw [bitAt_wordBytes, w.natCast_capacity]
  case inverse =>
    intro n bytes
    rw [encodeWord_eq_ok_iff, decodeWord_eq_ok_iff]
    constructor
    · rintro ⟨_, mem, same, rfl⟩
      cases same
      exact ⟨mem, rfl⟩
    · rintro ⟨mem, rfl⟩
      exact ⟨n, mem, rfl, rfl⟩

/-- In twelve bits, the four bits to spare repeat the sign. -/
example : encodeWord .signed ⟨12, by decide⟩ (.int (-2)) = .ok [0xff, 0xfe] := rfl

end SwapCodec
