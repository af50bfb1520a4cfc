import SwapCodec.Proofs.Stream

/-!
# Flaws of byte strings

Reading bytes can go wrong in several layers: the bytes run out, an integer is
out of range, a truth value or a word of traits is malformed, fields are not
related as they must be. All these are flaws: their causes have a message, and
decoding reports them as malformed data (`Error.IsFlaw`).

Here are the steps that decoders are made of. Each fails only with flaws
(`Decoder.OnlyFlaws`), and so does what is built from steps that do. Integers are
taken to be no wider than the machine's words, for a message about a very long
integer could not be worded.
-/

set_option autoImplicit false

namespace SwapCodec

theorem Text.isSome_decimal? {n : Int} (short : n.natAbs < Text.tooLong) :
    (Text.decimal? n).isSome = true := by
  rw [Text.decimal?, if_pos short]
  rfl

theorem Text.decimal?_eq_none_iff {n : Int} : decimal? n = none ↔ tooLong ≤ n.natAbs := by
  rw [decimal?, ite_eq_right_iff, ← Nat.not_lt]
  exact ⟨fun unspelled short => Option.some_ne_none _ (unspelled short),
    fun long short => absurd short long⟩

theorem Text.two_pow_256_le_tooLong : 2 ^ 256 ≤ Text.tooLong := by
  decide +kernel

/-- The greatest negative integer without a numeral. -/
def Text.unspelled : Int := -tooLong

theorem Text.decimal?_unspelled : decimal? unspelled = none := by
  rw [decimal?_eq_none_iff, unspelled, Int.natAbs_neg, Int.natAbs_natCast]

theorem Text.unspelled_neg : unspelled < 0 := by
  have positive : 0 < tooLong := Nat.lt_of_lt_of_le (Nat.two_pow_pos 256) two_pow_256_le_tooLong
  exact Int.neg_neg_of_pos (Int.natCast_pos.mpr positive)

/-! ## Flaws -/

/-- The cause has a message and is one that decoding reports as malformed data. -/
structure Error.IsFlaw (e : Error) : Prop where
  /-- The cause has a message. -/
  worded : e.message?.isSome = true
  /-- Streams or values report it. -/
  known : (e.kind.isStreamKind || e.kind.isProgramKind) = true

/-- The computation fails only with flaws. -/
def OnlyFlaws {α : Type} (x : Except Error α) : Prop :=
  ∀ e, x = .error e → e.IsFlaw

theorem OnlyFlaws.ok {α : Type} (x : α) : OnlyFlaws (.ok x) := by
  intro e failed
  cases failed

theorem OnlyFlaws.fail {α : Type} {e : Error} (worded : e.message?.isSome = true)
    (known : (e.kind.isStreamKind || e.kind.isProgramKind) = true) :
    OnlyFlaws (fail e : Except Error α) := by
  intro other failed
  rw [fail_eq_error worded] at failed
  cases failed
  exact ⟨worded, known⟩

namespace Decoder

variable {α β : Type}

/-- The decoder fails only with flaws, whatever it reads from. -/
def OnlyFlaws (d : Decoder α) : Prop :=
  ∀ r e next, d r = (.error e, next) → e.IsFlaw

namespace OnlyFlaws

theorem pure (x : α) : OnlyFlaws (pure x) := by
  intro r e next failed
  cases failed

theorem lift {x : Except Error α} (h : SwapCodec.OnlyFlaws x) : OnlyFlaws (lift x) := by
  intro r e next failed
  cases failed
  exact h e rfl

/-- A decoder that goes on with what it has read fails only with flaws if both
of its parts do; the second part may rely on the form of what was read. -/
theorem bind {d : Decoder α} {f : α → Decoder β} {form : α → List UInt8 → Prop} (hd : d.OnlyFlaws)
    (parses : d.Parses form) (hf : ∀ x data, form x data → (f x).OnlyFlaws) :
    (d >>= f).OnlyFlaws := by
  intro r e next failed
  rw [bind_apply] at failed
  split at failed
  · rename_i x middle taken
    obtain ⟨data, formed, _⟩ := parses.takes taken
    exact hf x data formed middle e next failed
  · rename_i err middle stopped
    cases failed
    exact hd r e next stopped

theorem bytes (n : Nat) : OnlyFlaws (Decoder.bytes n true) := by
  intro r e next failed
  have natural : ¬ (n : Int) < 0 := by omega
  simp only [Decoder.bytes, Reader.peekBytes, if_neg natural] at failed
  split at failed
  · cases failed
  · rename_i err peeked
    cases failed
    split at peeked
    · cases peeked
      exact ⟨rfl, rfl⟩
    · split at peeked
      · cases peeked
        exact ⟨rfl, rfl⟩
      · cases peeked

theorem byte : OnlyFlaws Decoder.byte := by
  intro r e next failed
  simp only [Decoder.byte, Reader.peekByte] at failed
  split at failed
  · cases failed
  · rename_i err peeked
    cases failed
    split at peeked
    · cases peeked
      exact ⟨rfl, rfl⟩
    · split at peeked
      · cases peeked
        exact ⟨rfl, rfl⟩
      · cases peeked

theorem close : OnlyFlaws Decoder.close := by
  intro r e next failed
  simp only [Decoder.close] at failed
  split at failed
  · cases failed
    exact ⟨rfl, rfl⟩
  · split at failed
    · cases failed
    · cases failed
      exact ⟨rfl, rfl⟩

end OnlyFlaws

end Decoder

/-! ## Integers -/

theorem natAbs_wordOfBytes_lt (s : Signedness) (bytes : List UInt8) :
    (wordOfBytes s bytes).natAbs < 256 ^ bytes.length := by
  have small := ofBigEndian_lt bytes
  cases s with
  | unsigned => exact small
  | signed =>
      simp only [wordOfBytes, Nat.pow_eq]
      split <;> omega

/-- The integers of a width of at most 256 bits have numerals. -/
theorem Width.capacity_le_tooLong {w : Width} (narrow : w.bits ≤ 256) :
    w.capacity ≤ Text.tooLong := by
  have short : w.byteCount ≤ 32 := by
    simp only [Width.byteCount]
    omega
  calc w.capacity ≤ 256 ^ 32 := Nat.pow_le_pow_right (by decide) short
    _ = 2 ^ 256 := by decide +kernel
    _ ≤ Text.tooLong := Text.two_pow_256_le_tooLong

/-- An integer that has a numeral is quoted when it does not fit. -/
theorem isSome_message?_outOfWidth {s : Signedness} {w : Width} {n : Int} (narrow : w.bits ≤ 256)
    (spelled : (Text.decimal? n).isSome = true) :
    (Error.outOfWidth s w n).message?.isSome = true := by
  have bits : (w.bits : Int).natAbs < Text.tooLong :=
    Nat.lt_of_lt_of_le Nat.lt_two_pow_self
      (Nat.le_trans w.two_pow_le_capacity (Width.capacity_le_tooLong narrow))
  obtain ⟨numeral, spelled⟩ := Option.isSome_iff_exists.mp spelled
  obtain ⟨count, counted⟩ := Option.isSome_iff_exists.mp (Text.isSome_decimal? bits)
  simp [Error.message?, spelled, counted]

theorem onlyFlaws_checkFits {s : Signedness} {w : Width} (narrow : w.bits ≤ 256)
    {bytes : List UInt8} (sized : bytes.length = w.byteCount) :
    OnlyFlaws (checkFits s w (wordOfBytes s bytes)) := by
  have value : (wordOfBytes s bytes).natAbs < Text.tooLong := by
    refine Nat.lt_of_lt_of_le (natAbs_wordOfBytes_lt s bytes) ?_
    rw [sized]
    exact Width.capacity_le_tooLong narrow
  rw [checkFits]
  split
  · exact .ok _
  · exact .fail (isSome_message?_outOfWidth narrow (Text.isSome_decimal? value)) rfl

namespace Decoder.OnlyFlaws

theorem word (s : Signedness) {w : Width} (narrow : w.bits ≤ 256) :
    OnlyFlaws (Decoder.word s w) :=
  (bytes w.byteCount).bind (.bytes _) fun _ _ ⟨same, sized⟩ =>
    lift (onlyFlaws_checkFits narrow (same ▸ sized))

theorem bool : OnlyFlaws Decoder.bool := by
  refine byte.bind .byte fun b _ _ => ?_
  split
  · exact pure false
  · split
    · exact pure true
    · exact lift (.fail rfl rfl)

variable {α : Type} {element : Decoder α} {form : α → List UInt8 → Prop}

theorem manyOnto (h : element.OnlyFlaws) (parses : element.Parses form) (done : List α) (n : Nat) :
    OnlyFlaws (Decoder.manyOnto element done n) := by
  induction n generalizing done with
  | zero => exact pure done.reverse
  | succ n ih => exact h.bind parses fun x _ _ => ih (x :: done)

theorem array (h : element.OnlyFlaws) (parses : element.Parses form) :
    OnlyFlaws (Decoder.array element) :=
  (word .unsigned (by decide)).bind (.word _ _) fun count _ _ => h.manyOnto parses [] count.toNat

end Decoder.OnlyFlaws

end SwapCodec
