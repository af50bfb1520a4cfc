import SwapCodec.Json.Printer
import SwapCodec.Json.Reader
import SwapCodec.Proofs.Text

/-!
# Texts and numerals in documents

A text between quotes is read back character by character: whatever stands for a
character, be it an escape by letter, an escape by number or a pair of them, is read as
that character (`Json.readText_escapeChar`, `Json.readText_flatMap`).

The numeral of an integer is read back as the integer, provided that the text behind
it does not go on with a number (`Json.endsNumber`, `Json.readNumber_toDigits`).
-/

set_option autoImplicit false

namespace SwapCodec.Json

/-! ## Escapes by number -/

theorem paddedHex_four {n : Nat} (small : n < 0x10000) :
    Text.paddedHex 4 n =
      [Nat.digitChar (n / 16 / 16 / 16), Nat.digitChar (n / 16 / 16 % 16),
        Nat.digitChar (n / 16 % 16), Nat.digitChar (n % 16)] := by
  rw [Text.paddedHex_succ (by decide), Text.paddedHex_succ (by decide),
    Text.paddedHex_succ (by decide), Text.paddedHex_one (by omega)]
  rfl

theorem unit?_paddedHex {n : Nat} (small : n < 0x10000) (rest : List Char) :
    unit? (Text.paddedHex 4 n ++ rest) = some (n, rest) := by
  have whole :
      ((n / 16 / 16 / 16 * 16 + n / 16 / 16 % 16) * 16 + n / 16 % 16) * 16 + n % 16 = n := by
    omega
  rw [paddedHex_four small]
  simp only [List.cons_append, List.nil_append, unit?, Option.bind_eq_bind, Option.bind_some, whole,
    Text.hexDigitValue?_digitChar (by omega : n / 16 / 16 / 16 < 16),
    Text.hexDigitValue?_digitChar (Nat.mod_lt _ (by decide) : n / 16 / 16 % 16 < 16),
    Text.hexDigitValue?_digitChar (Nat.mod_lt _ (by decide) : n / 16 % 16 < 16),
    Text.hexDigitValue?_digitChar (Nat.mod_lt _ (by decide) : n % 16 < 16)]
  rfl

theorem toNat_valid (c : Char) :
    c.toNat < 0xd800 ∨ (0xdfff < c.toNat ∧ c.toNat < 0x110000) := c.valid

theorem unitChar?_of_unit {cs rest : List Char} {n : Nat} (read : unit? cs = some (n, rest))
    (valid : n < 0xd800 ∨ 0xdfff < n) : unitChar? cs = some (Char.ofNat n, rest) := by
  have low : ¬ (0xd800 ≤ n ∧ n < 0xdc00) := by omega
  have high : ¬ (0xdc00 ≤ n ∧ n < 0xe000) := by omega
  simp only [unitChar?, read, Option.bind_eq_bind, Option.bind_some]
  rw [if_neg low, if_neg high]
  rfl

theorem unitChar?_of_units {cs more rest : List Char} {n m : Nat}
    (first : unit? cs = some (n, '\\' :: 'u' :: more)) (second : unit? more = some (m, rest))
    (high : 0xd800 ≤ n ∧ n < 0xdc00) (low : 0xdc00 ≤ m ∧ m < 0xe000) :
    unitChar? cs = some (Char.ofNat (0x10000 + (n - 0xd800) * 0x400 + (m - 0xdc00)), rest) := by
  simp only [unitChar?, first, second, Option.bind_eq_bind, Option.bind_some]
  rw [if_pos high, if_pos low]
  rfl

theorem unitEscape_append (n : Nat) (rest : List Char) :
    unitEscape n ++ rest = '\\' :: 'u' :: (Text.paddedHex 4 n ++ rest) := rfl

/-- A character of the first plane is one unit. -/
theorem unitChar?_paddedHex {c : Char} (small : c.toNat < 0x10000) (rest : List Char) :
    unitChar? (Text.paddedHex 4 c.toNat ++ rest) = some (c, rest) := by
  have read := unitChar?_of_unit (unit?_paddedHex small rest) ((toNat_valid c).imp_right And.left)
  rwa [Char.ofNat_toNat] at read

theorem unitChar?_of_pair {n m : Nat} (high : 0xd800 ≤ n ∧ n < 0xdc00)
    (low : 0xdc00 ≤ m ∧ m < 0xe000) (rest : List Char) :
    unitChar? (Text.paddedHex 4 n ++ (unitEscape m ++ rest)) =
      some (Char.ofNat (0x10000 + (n - 0xd800) * 0x400 + (m - 0xdc00)), rest) := by
  rw [unitEscape_append]
  exact unitChar?_of_units (unit?_paddedHex (by omega) _) (unit?_paddedHex (by omega) rest) high low

theorem offset_of_pair {n : Nat} (large : 0x10000 ≤ n) :
    0x10000 + (0xd800 + (n - 0x10000) / 0x400 - 0xd800) * 0x400 +
      (0xdc00 + (n - 0x10000) % 0x400 - 0xdc00) = n := by
  omega

/-- A character beyond the first plane is two units. -/
theorem unitChar?_pair {c : Char} (large : 0x10000 ≤ c.toNat) (rest : List Char) :
    unitChar? (Text.paddedHex 4 (0xd800 + (c.toNat - 0x10000) / 0x400) ++
      (unitEscape (0xdc00 + (c.toNat - 0x10000) % 0x400) ++ rest)) = some (c, rest) := by
  have upper : c.toNat < 0x110000 := by
    have := toNat_valid c
    omega
  rw [unitChar?_of_pair (by omega) (by omega), offset_of_pair large, Char.ofNat_toNat]

/-! ## Texts -/

/-- A character is written as an escape by letter, as itself, or as one or two escapes
by number. -/
theorem escapeChar_cases (c : Char) :
    (∃ letter, escapeChar c = ['\\', letter] ∧ letterEscape? letter = some c) ∨
    (escapeChar c = [c] ∧ ' ' ≤ c ∧ c ≠ '"' ∧ c ≠ '\\') ∨
    (escapeChar c = unitEscape c.toNat ∧ c.toNat < 0x10000) ∨
    (escapeChar c = unitEscape (0xd800 + (c.toNat - 0x10000) / 0x400) ++
        unitEscape (0xdc00 + (c.toNat - 0x10000) % 0x400) ∧
      0x10000 ≤ c.toNat ∧ c.toNat < 0x110000) := by
  rw [escapeChar]
  by_cases special : (c == '"' || c == '\\') = true
  · rw [if_pos special]
    rw [Bool.or_eq_true, beq_iff_eq, beq_iff_eq] at special
    rcases special with rfl | rfl
    · exact .inl ⟨_, rfl, rfl⟩
    · exact .inl ⟨_, rfl, rfl⟩
  rw [if_neg special]
  -- The controls that have a letter of their own come before everything else.
  iterate 5
    split
    · rename_i control
      rw [beq_iff_eq] at control
      subst control
      exact .inl ⟨_, rfl, rfl⟩
  rw [Bool.or_eq_true, beq_iff_eq, beq_iff_eq, not_or] at special
  split
  · rename_i printable
    rw [Bool.and_eq_true, decide_eq_true_eq] at printable
    exact .inr (.inl ⟨rfl, printable.1, special⟩)
  split
  · rename_i small
    exact .inr (.inr (.inl ⟨rfl, small⟩))
  · rename_i large
    have valid := toNat_valid c
    exact .inr (.inr (.inr ⟨rfl, by omega, by omega⟩))

theorem readText_escapeChar (done : List Char) (fuel : Nat) (c : Char) (rest : List Char) :
    readText done (fuel + 1) (escapeChar c ++ rest) = readText (c :: done) fuel rest := by
  rcases escapeChar_cases c with ⟨letter, written, stands⟩ | ⟨written, space, quote, slash⟩ |
    ⟨written, small⟩ | ⟨written, large, _⟩
  · have other : letter ≠ 'u' := by
      rintro rfl
      cases stands
    rw [written, List.cons_append, List.singleton_append, readText, stands]
    exact fun same => absurd same other
  · rw [written, List.singleton_append, readText, if_neg (by simpa using space)]
    · exact quote
    · exact fun _ same => absurd same slash
    · exact fun _ _ same => absurd same slash
  · rw [written, unitEscape_append, readText, unitChar?_paddedHex small]
  · rw [written, List.append_assoc, unitEscape_append, readText, unitChar?_pair large]

/-- **Texts** are read up to the closing quote. -/
theorem readText_flatMap {cs : List Char} {fuel : Nat} (enough : cs.length < fuel)
    (done rest : List Char) :
    readText done fuel (cs.flatMap escapeChar ++ '"' :: rest) =
      .ok (String.ofList (done.reverse ++ cs), rest) := by
  induction cs generalizing done fuel with
  | nil =>
      obtain ⟨fuel, rfl⟩ := Nat.exists_eq_add_one_of_ne_zero (Nat.ne_zero_of_lt enough)
      rw [List.append_nil]
      rfl
  | cons c cs ih =>
      obtain ⟨fuel, rfl⟩ := Nat.exists_eq_add_one_of_ne_zero (Nat.ne_zero_of_lt enough)
      rw [List.flatMap_cons, List.append_assoc, readText_escapeChar,
        ih (Nat.lt_of_succ_lt_succ enough), List.reverse_cons, List.append_assoc,
        List.singleton_append]

theorem length_le_flatMap_escapeChar (cs : List Char) :
    cs.length ≤ (cs.flatMap escapeChar).length := by
  induction cs with
  | nil => exact Nat.le_refl 0
  | cons c cs ih =>
      have written : 0 < (escapeChar c).length := by
        rcases escapeChar_cases c with ⟨_, same, _⟩ | ⟨same, _⟩ | ⟨same, _⟩ | ⟨same, _⟩
        all_goals rw [same]
        all_goals exact Nat.zero_lt_succ _
      rw [List.flatMap_cons, List.length_append, List.length_cons]
      omega

/-- Line ends are escaped. -/
theorem newline_not_mem_escapeChar (c : Char) : '\n' ∉ escapeChar c := by
  have digits {n : Nat} (small : n < 0x10000) : '\n' ∉ unitEscape n := by
    simp [unitEscape, paddedHex_four small]
  rcases escapeChar_cases c with ⟨letter, written, stands⟩ | ⟨written, space, _⟩ |
    ⟨written, small⟩ | ⟨written, large, upper⟩
  · have other : '\n' ≠ letter := by
      rintro rfl
      cases stands
    simp [written, other]
  · have other : '\n' ≠ c := by
      rintro rfl
      exact absurd space (by decide)
    simp [written, other]
  · rw [written]
    exact digits small
  · rw [written, List.mem_append, not_or]
    exact ⟨digits (by omega), digits (by omega)⟩

/-! ## Numerals -/

/-- A text that does not go on with a number. -/
def endsNumber : List Char → Bool
  | [] => true
  | c :: _ => !(isDigit c || c == '.' || c == 'e' || c == 'E')

section

variable {rest : List Char}

theorem takeWhile_of_endsNumber (ends : endsNumber rest = true) : rest.takeWhile isDigit = [] := by
  cases rest with
  | nil => rfl
  | cons c more =>
      simp only [endsNumber, Bool.not_eq_true', Bool.or_eq_false_iff] at ends
      rw [List.takeWhile_cons, ends.1.1.1]
      rfl

theorem dropWhile_of_endsNumber (ends : endsNumber rest = true) :
    rest.dropWhile isDigit = rest := by
  have parted := List.takeWhile_append_dropWhile (p := isDigit) (l := rest)
  rwa [takeWhile_of_endsNumber ends] at parted

theorem fractionDigits_of_endsNumber (ends : endsNumber rest = true) :
    fractionDigits rest = ([], rest) := by
  cases rest with
  | nil => rfl
  | cons c more =>
      simp only [endsNumber, Bool.not_eq_true', Bool.or_eq_false_iff, beq_eq_false_iff_ne] at ends
      rw [fractionDigits]
      exact fun _ same => absurd (List.cons_eq_cons.mp same).1 ends.1.1.2

theorem exponent?_of_endsNumber (ends : endsNumber rest = true) : exponent? rest = none := by
  cases rest with
  | nil => rfl
  | cons c more =>
      simp only [endsNumber, Bool.not_eq_true', Bool.or_eq_false_iff] at ends
      simp [exponent?, ends.1.2, ends.2]

end

theorem isDigit_of_mem_toDigits {n : Nat} {c : Char} (mem : c ∈ Nat.toDigits 10 n) :
    isDigit c = true :=
  Nat.isDigit_of_mem_toDigits (by decide) (by decide) mem

theorem digitsValue_toDigits (n : Nat) : digitsValue (Nat.toDigits 10 n) = n := by
  have value := Nat.ofDigitChars_ten_toDigits (n := n)
  rw [Nat.ofDigitChars_eq_foldl] at value
  rw [digitsValue, Text.ofDigits, List.foldl_map]
  exact value

/-- The numeral of a positive number does not start with zero. -/
theorem toDigits_eq_cons {n : Nat} (pos : 0 < n) :
    ∃ c more, Nat.toDigits 10 n = c :: more ∧ c ≠ '0' := by
  induction n using Nat.strongRecOn with
  | ind n ih =>
      by_cases small : n < 10
      · exact ⟨_, [], Nat.toDigits_of_lt_base small, by simp; omega⟩
      · obtain ⟨c, more, digits, other⟩ := ih (n / 10) (by omega) (by omega)
        exact ⟨c, more ++ [Nat.digitChar (n % 10)], by
          rw [Nat.toDigits_of_base_le (by decide) (Nat.le_of_not_lt small), digits]
          rfl, other⟩

theorem integerDigits?_toDigits (n : Nat) {rest : List Char} (ends : endsNumber rest = true) :
    integerDigits? (Nat.toDigits 10 n ++ rest) = some (Nat.toDigits 10 n, rest) := by
  rcases Nat.eq_zero_or_pos n with rfl | pos
  · rfl
  · obtain ⟨c, more, digits, other⟩ := toDigits_eq_cons pos
    have all : ∀ d ∈ Nat.toDigits 10 n, isDigit d = true := fun d => isDigit_of_mem_toDigits
    have taken : (Nat.toDigits 10 n ++ rest).takeWhile isDigit = Nat.toDigits 10 n := by
      rw [List.takeWhile_append_of_pos all, takeWhile_of_endsNumber ends, List.append_nil]
    have dropped : (Nat.toDigits 10 n ++ rest).dropWhile isDigit = rest := by
      rw [List.dropWhile_append_of_pos all, dropWhile_of_endsNumber ends]
    rw [digits] at taken dropped ⊢
    rw [List.cons_append] at taken dropped ⊢
    rw [integerDigits?]
    · simp only [taken, dropped, List.isEmpty_cons, Bool.false_eq_true, if_false]
    · exact fun _ same => absurd (List.cons_eq_cons.mp same).1 other

theorem readNumber_toDigits {n limit : Nat} (short : (Nat.toDigits 10 n).length ≤ limit)
    (negative : Bool) {rest : List Char} (ends : endsNumber rest = true) :
    readNumber limit negative (Nat.toDigits 10 n ++ rest) =
      .ok (.int (if negative then -(n : Int) else n), rest) := by
  simp only [readNumber, integerDigits?_toDigits n ends, fractionDigits_of_endsNumber ends,
    exponent?_of_endsNumber ends, List.isEmpty_nil, if_true, if_neg (Nat.not_lt.mpr short),
    digitsValue_toDigits]

end SwapCodec.Json
