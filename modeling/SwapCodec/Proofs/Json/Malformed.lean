import SwapCodec.Proofs.Json.Spelling

/-!
# Texts that are no documents

A text is read from its first character on, and this says what it can be. Behind a minus
sign only a digit or the word for infinity follows (`Json.read_minus`), a text that starts
with a capital letter starts with a word (`Json.read_of_isUpper`), and behind a value only
blanks may follow (`Json.read_of_spells`).
-/

set_option autoImplicit false

namespace SwapCodec

namespace Json

/-! ## Numbers and words -/

/-- No number starts with anything but a digit. -/
theorem integerDigits?_of_isDigit_eq_false {c : Char} (other : isDigit c = false)
    (cs : List Char) : integerDigits? (c :: cs) = none := by
  rw [integerDigits?, List.takeWhile_cons_of_neg (by simp [other])]
  · rfl
  · rintro _ ⟨rfl⟩
    cases other

theorem readNumber_of_isDigit_eq_false {c : Char} (other : isDigit c = false) (limit : Nat)
    (negative : Bool) (cs : List Char) :
    readNumber limit negative (c :: cs) = .error .malformed := by
  rw [readNumber, integerDigits?_of_isDigit_eq_false other]

theorem exists_cons_of_readNumber {limit : Nat} {negative : Bool} {cs rest : List Char} {v : Value}
    (read : readNumber limit negative cs = .ok (v, rest)) :
    (∃ c more, cs = c :: more ∧ isDigit c = true) ∧ ∀ entries, v ≠ .dict entries := by
  rw [readNumber] at read
  split at read
  · cases read
  · rename_i digits tail parted
    constructor
    · cases cs with
      | nil => cases parted
      | cons c more =>
          refine ⟨c, more, rfl, ?_⟩
          cases digit : isDigit c with
          | true => rfl
          | false => cases (integerDigits?_of_isDigit_eq_false digit more).symm.trans parted
    · rintro entries rfl
      dsimp only at read
      split at read
      · cases read
      · split at read
        · split at read <;> cases read
        · cases read

/-- The only word with a minus sign in front is the infinite one. -/
theorem exists_cons_of_readWord? {cs rest : List Char} {v : Value}
    (read : readWord? ('-' :: cs) = some (v, rest)) :
    (∃ more, cs = 'I' :: more) ∧ ∀ entries, v ≠ .dict entries := by
  obtain ⟨w, mem, after⟩ := List.exists_of_findSome?_eq_some read
  obtain ⟨left, found, same⟩ := Option.map_eq_some_iff.mp after
  cases same
  simp only [words, List.mem_cons, List.not_mem_nil, or_false] at mem
  rcases mem with rfl | rfl | rfl | rfl | rfl | rfl
  · cases found
  · cases found
  · cases found
  · cases found
  · cases found
  · refine ⟨?_, fun entries same => by cases same⟩
    cases cs with
    | nil => cases found
    | cons c more =>
        by_cases letter : 'I' = c
        · subst letter
          exact ⟨more, rfl⟩
        · have none : afterWord? "Infinity".toList (c :: more) = none :=
            afterWord?_of_ne letter _ _
          cases none.symm.trans found

/-- Characters that differ from a word do not start with it, whatever follows them. -/
theorem afterWord?_append_eq_none {word cs : List Char} (short : ¬ word <+: cs)
    (long : ¬ cs <+: word) (rest : List Char) : afterWord? word (cs ++ rest) = none := by
  induction word generalizing cs with
  | nil => exact absurd List.nil_prefix short
  | cons c word ih =>
      cases cs with
      | nil => exact absurd List.nil_prefix long
      | cons d cs =>
          rw [List.cons_append]
          by_cases same : c = d
          · subst same
            simp only [List.cons_prefix_cons, true_and] at short long
            simp only [afterWord?, beq_self_eq_true, if_true]
            exact ih short long
          · exact afterWord?_of_ne same word _

/-! ## Capital letters -/

section

variable {c : Char} (letter : c.isUpper = true)

include letter

theorem ne_of_isUpper {d : Char} (other : d.isUpper = false) : c ≠ d := by
  rintro rfl
  cases other.symm.trans letter

theorem isDigit_of_isUpper : isDigit c = false := by
  obtain ⟨low, -⟩ : c.val ≥ 65 ∧ c.val ≤ 90 := of_decide_eq_true letter
  rw [ge_iff_le, UInt32.le_iff_toNat_le] at low
  simp only [isDigit, Bool.and_eq_false_iff, decide_eq_false_iff_not, Char.le_def,
    UInt32.le_iff_toNat_le]
  exact .inr (Nat.not_le.mpr (Nat.lt_of_lt_of_le (by decide) low))

theorem opens_of_isUpper (cs : List Char) : Opens (c :: cs) := by
  have ne : ∀ d, d.isUpper = false → c ≠ d := fun d => ne_of_isUpper letter
  refine opens_cons ?_ cs
  simp [isOpening, isBlank, ne ' ' rfl, ne '\t' rfl, ne '\n' rfl, ne '\r' rfl, ne ']' rfl,
    ne '\x7d' rfl]

end

/-! ## Texts -/

/-- A text with a minus sign in front is no dictionary, and neither a dash nor the letter
for help follows. -/
theorem read_minus {s : String} {cs : List Char} {v : Value} (sign : s.toList = '-' :: cs)
    (read : Json.read s = .ok v) :
    (∃ c more, cs = c :: more ∧ c ≠ '-' ∧ c ≠ 'h') ∧ ∀ entries, v ≠ .dict entries := by
  rw [Json.read, readWithin, sign, skipBlanks_cons rfl,
    readValue_scalar (by decide) (by decide) (by decide)] at read
  split at read
  · cases read
  · rename_i u rest scalar
    split at read
    · cases read
      rw [readScalar] at scalar
      split at scalar
      · rename_i found word
        cases scalar
        obtain ⟨⟨more, rfl⟩, other⟩ := exists_cons_of_readWord? word
        exact ⟨⟨'I', more, rfl, by decide, by decide⟩, other⟩
      · obtain ⟨⟨c, more, rfl, digit⟩, other⟩ := exists_cons_of_readNumber scalar
        refine ⟨⟨c, more, rfl, ?_, ?_⟩, other⟩ <;>
        · rintro rfl
          cases digit
    · cases read

/-- A text that starts with a capital letter is a word, or it is no document. -/
theorem read_of_isUpper {s : String} {c : Char} {cs : List Char} (first : s.toList = c :: cs)
    (letter : c.isUpper = true) (other : readWord? (c :: cs) = none) :
    read s = .error .malformed := by
  have ne : ∀ {d : Char}, d.isUpper = false → c ≠ d := ne_of_isUpper letter
  have scalar : readScalar Text.digitLimit (c :: cs) = .error .malformed := by
    rw [readScalar, other]
    · exact readNumber_of_isDigit_eq_false (isDigit_of_isUpper letter) _ _ _
    · exact fun _ same => absurd (List.cons_eq_cons.mp same).1 (ne rfl)
  rw [read, readWithin, first, (opens_of_isUpper letter cs).skipBlanks_eq,
    readValue_scalar (ne rfl) (ne rfl) (ne rfl), scalar]

/-- A text that goes on behind a value and a blank is no document. -/
theorem read_of_spells {s : String} {gap cs rest : List Char} {v : Value}
    (parted : s.toList = gap ++ (cs ++ ' ' :: rest)) (blank : ∀ c ∈ gap, isBlank c = true)
    (spells : Spells cs v) (more : Opens rest) : read s = .error .malformed := by
  have opens := spells.opens.append (' ' :: rest)
  have start : skipBlanks s.toList = cs ++ ' ' :: rest := by
    rw [parted, skipBlanks_append blank, opens.skipBlanks_eq]
  have enough : cs.length ≤ s.toList.length + 1 := by
    simp only [parted, List.length_append]
    omega
  have value := spells.reads (Nat.le_refl Text.digitLimit) enough
    (rfl : endsNumber (' ' :: rest) = true)
  have behind : (skipBlanks (' ' :: rest)).isEmpty = false := by
    rw [← List.singleton_append, skipBlanks_append (List.forall_mem_singleton.mpr rfl),
      more.skipBlanks_eq]
    obtain ⟨c, tail, rfl, -⟩ := more
    rfl
  simp only [read, readWithin, start, value, behind, Bool.false_eq_true, if_false]

end Json

end SwapCodec
