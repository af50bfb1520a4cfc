import SwapCodec.Proofs.ArgType.Document
import SwapCodec.Proofs.Text.Literal
import SwapCodec.Proofs.Word.TwosComplement

/-!
# Integers as documents

A document gives an integer as a number, in base ten or in base sixteen (`Spelling`), and an
integer type reads all of these as the same integer (`ArgType.ofJson_word_eq`).

A numeral is read for its integer (`ArgType.ofJson_word_of_isWritten`). Outside of the width it is
refused: for its value, or for its length if it has too many decimal digits to be read. A document
that is no number and no text is never read.
-/

set_option autoImplicit false

namespace SwapCodec

/-- The document is the integer as a number, in base ten or in base sixteen. -/
inductive Spelling (n : Int) : Value → Prop
  | number : Spelling n (.int n)
  | decimal (short : n.natAbs < Text.tooLong) : Spelling n (.str (Text.decimal n))
  | hexadecimal {t : String} (digits : Text.IsHexadecimal n t) : Spelling n (.str t)

namespace Spelling

variable {n : Int} {j : Value}

theorem integerOfJson_eq (spelled : Spelling n j) : integerOfJson j = .ok n := by
  cases spelled with
  | number => rfl
  | decimal short => rw [integerOfJson, Text.readMarked_decimal, if_pos short]
  | hexadecimal digits => rw [integerOfJson, Text.readMarked_of_isHexadecimal digits]

end Spelling

/-- No document but a number or a text gives an integer. -/
theorem failsWith_integerOfJson {j : Value} (number : ∀ n, j ≠ .int n) (text : ∀ t, j ≠ .str t) :
    FailsWith (integerOfJson j) .validation := by
  cases j with
  | int n => exact absurd rfl (number n)
  | str t => exact absurd rfl (text t)
  | _ => exact failsWith_fail rfl

namespace ArgType

variable {s : Signedness} {w : Width} {n : Int}

theorem checked_word_eq_ok_iff {v : Value} :
    (word s w).checked (.int n) = .ok v ↔ n ∈ s.integers w ∧ v = .int n := by
  rw [checked_eq_ok_iff, check, Except.bind_eq_ok_iff, mem_integers_iff]
  constructor
  · rintro ⟨⟨m, accepted, -⟩, same⟩
    obtain ⟨here, fits⟩ := checkWord_eq_ok_iff.mp accepted
    cases here
    exact ⟨fits, same⟩
  · rintro ⟨fits, same⟩
    exact ⟨⟨n, checkWord_eq_ok_iff.mpr ⟨rfl, fits⟩, rfl⟩, same⟩

theorem checked_word_of_outside (outside : n ∉ s.integers w) :
    (word s w).checked (.int n) = fail (.outOfWidth s w n) := by
  have misfit : ¬s.fits w n = true := fun fits => outside (mem_integers_iff.mpr fits)
  rw [checked, check, checkWord, checkFits, if_neg misfit]
  rfl

theorem ofJson_word_eq {j : Value} (given : integerOfJson j = .ok n) :
    (word s w).ofJson j = (word s w).checked (.int n) := by
  rw [ofJson, given, Except.ok_bind]

/-- A numeral is read if it is not too long and its integer is of the width. -/
theorem ofJson_word_of_isWritten {l : Text.Numeral} {t : String} (written : l.IsWritten t) :
    (word s w).ofJson (.str t) =
      if l.IsShort then (word s w).checked (.int l.value) else fail (.invalidInteger t) := by
  rw [ofJson, integerOfJson, Text.readMarked_of_isWritten written]
  by_cases short : l.IsShort
  · rw [if_pos short, if_pos short]
    rfl
  · rw [if_neg short, if_neg short]
    rfl

/-- **Spellings.** The number, the decimal text and the hexadecimal texts of an integer of a width
are read as the integer. A numeral outside of the width is refused, and every document that is no
number and no text. -/
theorem spellings_agree (s : Signedness) (w : Width) :
    (∀ n ∈ s.integers w, ∀ j, Spelling n j → (word s w).ofJson j = .ok (.int n)) ∧
    (∀ (l : Text.Numeral) (t : String), l.IsWritten t → l.value ∉ s.integers w →
      (word s w).ofJson (.str t) =
        if l.IsShort then fail (.outOfWidth s w l.value) else fail (.invalidInteger t)) ∧
    ∀ j, (∀ n, j ≠ .int n) → (∀ t, j ≠ .str t) → FailsWith ((word s w).ofJson j) .validation := by
  refine ⟨fun n mem j spelled => ?_, fun l t written outside => ?_, fun j number text => ?_⟩
  · rw [ofJson_word_eq spelled.integerOfJson_eq]
    exact checked_word_eq_ok_iff.mpr ⟨mem, rfl⟩
  · rw [ofJson_word_of_isWritten written, checked_word_of_outside outside]
  · exact (failsWith_integerOfJson number text).bind _

/-- The letters of a hexadecimal text are of either case, and zeros stand in front of its digits. A
numeral just outside of the width is refused. -/
example : Text.IsHexadecimal (-1234) "-0X004d2" ∧
    (word .signed .short).ofJson (.str "-0X004d2") = .ok (.int (-1234)) ∧
    (word .signed .short).ofJson (.str "0x8000") = fail (.outOfWidth .signed .short 32768) :=
  ⟨⟨'X', by decide, 2, ['4', 'd', '2'], by decide, rfl⟩, rfl, rfl⟩

end ArgType

end SwapCodec
