import SwapCodec.Proofs.Text.Numeral

/-!
# Numerals with a marker

The reader that takes markers reads a text if the text is a numeral, between blanks, that is not too
long (`Text.readMarked_eq_some_iff`). What is written in a numeral is its sign, its base and its
digits (`Text.Numeral`): the characters of its magnitude are those digits with single underscores
between them, behind the marker of the base (`Text.Magnitude`).

So the decimal text of an integer is read as the integer unless it is too long
(`Text.readMarked_decimal`), and so are the hexadecimal texts of any length
(`Text.readMarked_of_isHexadecimal`).
-/

set_option autoImplicit false

namespace SwapCodec.Text

variable {base : Nat} {c : Char} {ds : List Nat} {cs : List Char}

/-! ## Magnitudes -/

/-- The markers, and the base that each of them stands for. -/
def markers : List (Char × Nat) :=
  [('x', 16), ('X', 16), ('o', 8), ('O', 8), ('b', 2), ('B', 2)]

/-- The characters are the digits of a number without a sign. Base ten has no marker, and there a
zero stands in front of zeros alone. -/
inductive Magnitude : Nat → List Nat → List Char → Prop
  | plain {ds : List Nat} {cs : List Char} (digits : Groups 10 ds cs)
      (leading : ds.head? = some 0 → ∀ d ∈ ds, d = 0) : Magnitude 10 ds cs
  | marked {base : Nat} {marker : Char} {ds : List Nat} {cs : List Char}
      (known : (marker, base) ∈ markers) (digits : Groups base ds cs) :
      Magnitude base ds ('0' :: marker :: cs)
  | apart {base : Nat} {marker : Char} {ds : List Nat} {cs : List Char}
      (known : (marker, base) ∈ markers) (digits : Groups base ds cs) :
      Magnitude base ds ('0' :: marker :: '_' :: cs)

theorem readAfterMarker_eq_of_groups (narrow : base ≤ 16) (groups : Groups base ds cs) :
    readAfterMarker base cs = some (ofDigits base ds) ∧
      readAfterMarker base ('_' :: cs) = some (ofDigits base ds) := by
  have read := (ungrouped?_eq_some_iff narrow).mpr groups
  constructor
  · rw [readAfterMarker, read]
    · rfl
    · rintro rest rfl
      obtain ⟨_, _, here, _, _, digit⟩ := groups.exists_first
      exact digit.ne_underscore narrow (List.cons_eq_cons.mp here).1.symm
  · rw [readAfterMarker, read]
    rfl

theorem exists_groups_of_readAfterMarker (narrow : base ≤ 16) {n : Nat}
    (read : readAfterMarker base cs = some n) :
    ∃ ds, Groups base ds cs ∨ ∃ rest, cs = '_' :: rest ∧ Groups base ds rest := by
  rw [readAfterMarker.eq_def] at read
  split at read
  · obtain ⟨ds, digits, -⟩ := Option.map_eq_some_iff.mp read
    exact ⟨ds, .inr ⟨_, rfl, (ungrouped?_eq_some_iff narrow).mp digits⟩⟩
  · obtain ⟨ds, digits, -⟩ := Option.map_eq_some_iff.mp read
    exact ⟨ds, .inl ((ungrouped?_eq_some_iff narrow).mp digits)⟩

theorem base_le_of_mem_markers {marker : Char} (known : (marker, base) ∈ markers) : base ≤ 16 :=
  (by decide : ∀ p ∈ markers, p.2 ≤ 16) _ known

theorem readMarkedMagnitude_of_marker {marker : Char} (known : (marker, base) ∈ markers) :
    readMarkedMagnitude ('0' :: marker :: cs) = readAfterMarker base cs := by
  simp only [markers, List.mem_cons, Prod.mk.injEq, List.not_mem_nil, or_false] at known
  rcases known with ⟨rfl, rfl⟩ | ⟨rfl, rfl⟩ | ⟨rfl, rfl⟩ | ⟨rfl, rfl⟩ | ⟨rfl, rfl⟩ | ⟨rfl, rfl⟩ <;>
    rfl

theorem readMarkedMagnitude_of_unmarked (unmarked : c ∉ markers.map Prod.fst) :
    readMarkedMagnitude ('0' :: c :: cs) = (readMagnitude ('0' :: c :: cs)).filter (· == 0) := by
  simp only [markers, List.map_cons, List.map_nil, List.mem_cons, List.not_mem_nil, or_false,
    not_or] at unmarked
  simp only [readMarkedMagnitude, Bool.or_eq_true, beq_iff_eq, unmarked, or_self, if_false]

theorem readMarkedMagnitude_eq_of_groups (groups : Groups 10 ds cs)
    (leading : ds.head? = some 0 → ∀ d ∈ ds, d = 0) :
    readMarkedMagnitude cs = readMagnitude cs := by
  have unmarked := groups.forall_of (p := (· ∉ markers.map Prod.fst)) (by decide) (by decide)
  rw [readMarkedMagnitude.eq_def]
  split
  · -- no digit of base ten is a marker, so what is read has to be zero, and it is
    rename_i c rest
    obtain ⟨_, _, here, d, first, digit⟩ := groups.exists_first
    obtain ⟨rfl, -⟩ := List.cons_eq_cons.mp here
    obtain rfl : 0 = d := Option.some.inj (digit.mono (by decide)).hexDigitValue?_eq
    have zero : ofDigits 10 ds = 0 := (ofDigits_eq_zero_iff (by decide)).mpr (leading first)
    show readMarkedMagnitude ('0' :: c :: rest) = _
    rw [readMarkedMagnitude_of_unmarked (unmarked c (by simp)), readMagnitude_eq_of_groups groups,
      zero]
    split
    · rfl
    · rfl
  · rfl

/-- The magnitude is read, unless it has too many decimal digits. -/
theorem readMarkedMagnitude_eq (magnitude : Magnitude base ds cs) :
    readMarkedMagnitude cs =
      if base = 10 → ds.length ≤ digitLimit then some (ofDigits base ds) else none := by
  have other {marker : Char} (known : (marker, base) ∈ markers) :
      base = 10 → ds.length ≤ digitLimit := by
    rintro rfl
    exact absurd rfl ((by decide : ∀ p ∈ markers, p.2 ≠ 10) _ known)
  cases magnitude with
  | plain digits leading =>
      rw [readMarkedMagnitude_eq_of_groups digits leading, readMagnitude_eq_of_groups digits]
      simp only [forall_const]
  | marked known digits =>
      rw [readMarkedMagnitude_of_marker known, if_pos (other known)]
      exact (readAfterMarker_eq_of_groups (base_le_of_mem_markers known) digits).1
  | apart known digits =>
      rw [readMarkedMagnitude_of_marker known, if_pos (other known)]
      exact (readAfterMarker_eq_of_groups (base_le_of_mem_markers known) digits).2

/-- If no zero stands in front of another character, a leading zero is the only digit. -/
theorem Groups.forall_eq_zero (groups : Groups base ds cs)
    (alone : ¬∃ c rest, cs = '0' :: c :: rest) (leading : ds.head? = some 0) : ∀ d ∈ ds, d = 0 := by
  cases groups with
  | last => exact List.forall_mem_singleton.mpr (Option.some.inj leading)
  | next digit rest =>
      obtain rfl := Option.some.inj leading
      obtain ⟨c, more, rfl, -⟩ := rest.exists_first
      exact absurd ⟨c, more, by rw [digit.eq_zeroChar]⟩ alone
  | apart digit =>
      obtain rfl := Option.some.inj leading
      exact absurd ⟨_, _, by rw [digit.eq_zeroChar]⟩ alone

/-- Nothing but magnitudes is read. -/
theorem exists_magnitude_of_readMarkedMagnitude {n : Nat} (read : readMarkedMagnitude cs = some n) :
    ∃ base ds, Magnitude base ds cs := by
  -- a marker can only stand behind a zero in front, and there base ten allows zeros alone
  by_cases marked : ∃ c rest, cs = '0' :: c :: rest
  · obtain ⟨c, rest, rfl⟩ := marked
    by_cases known : ∃ base, (c, base) ∈ markers
    · obtain ⟨base, known⟩ := known
      rw [readMarkedMagnitude_of_marker known] at read
      obtain ⟨ds, digits | ⟨rest, rfl, digits⟩⟩ :=
        exists_groups_of_readAfterMarker (base_le_of_mem_markers known) read
      · exact ⟨base, ds, .marked known digits⟩
      · exact ⟨base, ds, .apart known digits⟩
    · have unmarked : c ∉ markers.map Prod.fst := by
        simpa only [List.mem_map, Prod.exists, exists_and_right, exists_eq_right] using known
      rw [readMarkedMagnitude_of_unmarked unmarked, Option.filter_eq_some_iff] at read
      obtain ⟨ds, digits, value⟩ := exists_groups_of_readMagnitude read.1
      obtain rfl := beq_iff_eq.mp read.2
      exact ⟨10, ds, .plain digits fun _ => (ofDigits_eq_zero_iff (by decide)).mp value⟩
  · have plain : readMarkedMagnitude cs = readMagnitude cs := by
      rw [readMarkedMagnitude]
      rintro c rest rfl
      exact marked ⟨c, rest, rfl⟩
    obtain ⟨ds, digits, -⟩ := exists_groups_of_readMagnitude (plain ▸ read)
    exact ⟨10, ds, .plain digits (digits.forall_eq_zero marked)⟩

theorem Magnitude.forall_of {p : Char → Prop} (magnitude : Magnitude base ds cs)
    (each : ∀ d ∈ List.range 16, p (Nat.digitChar d) ∧ p (Nat.digitChar d).toUpper)
    (underscore : p '_') (marker : ∀ m ∈ markers, p m.1) : ∀ c ∈ cs, p c := by
  have zero : p '0' := (each 0 (by decide)).1
  cases magnitude with
  | plain digits => exact (digits.mono (by decide)).forall_of each underscore
  | marked known digits =>
      have rest := (digits.mono (base_le_of_mem_markers known)).forall_of each underscore
      exact List.forall_mem_cons.mpr ⟨zero, List.forall_mem_cons.mpr ⟨marker _ known, rest⟩⟩
  | apart known digits =>
      have rest := (digits.mono (base_le_of_mem_markers known)).forall_of each underscore
      exact List.forall_mem_cons.mpr ⟨zero, List.forall_mem_cons.mpr
        ⟨marker _ known, List.forall_mem_cons.mpr ⟨underscore, rest⟩⟩⟩

/-- Nothing in a magnitude is folded, trimmed or taken for a sign. -/
theorem Magnitude.solid (magnitude : Magnitude base ds cs) : ∀ c ∈ cs, Solid c :=
  magnitude.forall_of (by decide) (by decide) (by decide)

/-! ## Numerals -/

/-- What an integer is written with: a sign, a base and digits, the most significant first. -/
structure Numeral where
  /-- The sign is a minus. -/
  negative : Bool
  /-- The base. -/
  base : Nat
  /-- The digits. -/
  digits : List Nat

namespace Numeral

/-- The integer that is written. -/
def value (l : Numeral) : Int := signed l.negative (Nat.ofDigits l.base l.digits.reverse)

/-- In base ten the digits are limited in number. -/
def IsShort (l : Numeral) : Prop := l.base = 10 → l.digits.length ≤ digitLimit

instance (l : Numeral) : Decidable l.IsShort := inferInstanceAs (Decidable (_ → _))

/-- The text has the sign and the digits of the numeral and is blank around them. The decimal digits
of any script may stand for those of ASCII. -/
def IsWritten (l : Numeral) (t : String) : Prop :=
  ∃ front sign body back, t.toList.map foldNumeralChar = front ++ (sign ++ body) ++ back ∧
    (∀ c ∈ front, isAsciiBlank c = true) ∧ (∀ c ∈ back, isAsciiBlank c = true) ∧
    sign ∈ signs l.negative ∧ Magnitude l.base l.digits body

end Numeral

variable {l : Numeral} {t : String}

theorem readMarked_of_isWritten (written : l.IsWritten t) :
    readMarked t = if l.IsShort then some l.value else none := by
  obtain ⟨front, sign, body, back, chars, before, after, mem, magnitude⟩ := written
  rw [readMarked, chars,
    readSigned_trimBlanks mem magnitude.solid readMarkedMagnitude before after,
    readMarkedMagnitude_eq magnitude, ofDigits_eq]
  by_cases short : l.IsShort
  · rw [if_pos short, if_pos (show _ → _ from short)]
    rfl
  · rw [if_neg short, if_neg (show ¬ (_ → _) from short)]
    rfl

theorem exists_isWritten_of_readMarked {n : Int} (read : readMarked t = some n) :
    ∃ l : Numeral, l.IsWritten t := by
  obtain ⟨front, back, chars, before, after⟩ := exists_blanks (t.toList.map foldNumeralChar)
  obtain ⟨negative, sign, mem, body, m, parts, found⟩ := exists_sign_of_readSigned read
  obtain ⟨base, digits, magnitude⟩ := exists_magnitude_of_readMarkedMagnitude found
  rw [parts] at chars
  exact ⟨⟨negative, base, digits⟩, front, sign, body, back, chars, before, after, mem, magnitude⟩

/-- **Numerals.** The texts of an integer are its numerals that are not too long. -/
theorem readMarked_eq_some_iff {n : Int} :
    readMarked t = some n ↔ ∃ l : Numeral, l.IsWritten t ∧ l.IsShort ∧ l.value = n := by
  constructor
  · intro read
    obtain ⟨l, written⟩ := exists_isWritten_of_readMarked read
    rw [readMarked_of_isWritten written] at read
    split at read
    · exact ⟨l, written, ‹_›, Option.some.inj read⟩
    · cases read
  · rintro ⟨l, written, short, rfl⟩
    rw [readMarked_of_isWritten written, if_pos short]

/-- The text is a numeral in base two, with the digits one, zero and one. -/
example : readMarked " +0b_1_01\n" = some 5 := by
  rfl

theorem isWritten_of_toList {sign body : List Char} (chars : t.toList = sign ++ body)
    (mem : sign ∈ signs l.negative) (magnitude : Magnitude l.base l.digits body) :
    l.IsWritten t := by
  refine ⟨[], sign, body, [], ?_, by simp, by simp, mem, magnitude⟩
  rw [chars, map_foldNumeralChar mem magnitude.solid, List.nil_append, List.append_nil]

/-! ## Decimal and hexadecimal texts -/

/-- The text is the integer in base sixteen: a minus sign if it is negative, a marker, any number of
zeros and the digits, the marker and the digits in either letter case. -/
def IsHexadecimal (n : Int) (t : String) : Prop :=
  ∃ marker ∈ ['x', 'X'], ∃ zeros digits,
    List.Forall₂ (fun c c' => c' = c ∨ c' = c.toUpper) (Nat.toDigits 16 n.natAbs) digits ∧
    t.toList = (if n < 0 then ['-'] else []) ++
      '0' :: marker :: (List.replicate zeros '0' ++ digits)

variable {n : Int}

/-- The decimal text of an integer is read as the integer, unless it is too long. -/
theorem readMarked_decimal (n : Int) :
    readMarked (decimal n) = if n.natAbs < tooLong then some n else none := by
  obtain ⟨ds, sign, mem, cs, chars, groups, value, short, leading⟩ := exists_groups_decimal n
  let l : Numeral := ⟨decide (n < 0), 10, ds⟩
  have written : l.IsWritten (decimal n) := isWritten_of_toList chars mem (.plain groups leading)
  have limited : l.IsShort ↔ n.natAbs < tooLong := (forall_prop_of_true rfl).trans short
  have same : l.value = n := by
    rw [Numeral.value, ← ofDigits_eq, value]
  rw [readMarked_of_isWritten written, same]
  simp only [limited]

theorem IsDigit.replicate {d : Nat} (digit : IsDigit base d c) (count : Nat) :
    List.Forall₂ (IsDigit base) (List.replicate count d) (List.replicate count c) := by
  induction count with
  | zero => exact .nil
  | succ count ih => exact .cons digit ih

/-- The hexadecimal text of an integer is read as the integer. -/
theorem readMarked_of_isHexadecimal (spelled : IsHexadecimal n t) : readMarked t = some n := by
  obtain ⟨marker, mem, zeros, cs, cased, chars⟩ := spelled
  obtain ⟨ds, digits, filled, bounded, value, -⟩ := exists_digits (by decide : 1 < 16) n.natAbs
  have known : (marker, 16) ∈ markers := by
    rcases List.mem_cons.mp mem with rfl | mem
    · decide
    · obtain rfl := List.mem_singleton.mp mem
      decide
  have spelled : List.Forall₂ (IsDigit 16) ds cs :=
    (List.forall₂_and_left ds cs).mpr ⟨bounded, List.forall₂_map_left_iff.mp (digits ▸ cased)⟩
  have zero : IsDigit 16 0 '0' := by decide
  have groups : Groups 16 (List.replicate zeros 0 ++ ds) (List.replicate zeros '0' ++ cs) :=
    .of_forall₂ (List.rel_append (zero.replicate zeros) spelled)
      (List.append_ne_nil_of_right_ne_nil _ filled)
  let l : Numeral := ⟨decide (n < 0), 16, List.replicate zeros 0 ++ ds⟩
  have written : l.IsWritten t :=
    isWritten_of_toList chars (sign_mem_signs n) (.marked known groups)
  have limited : l.IsShort := fun ten => absurd ten (show 16 ≠ 10 by decide)
  have same : l.value = n := by
    rw [Numeral.value, List.reverse_append, List.reverse_replicate,
      Nat.ofDigits_append_replicate_zero, ← ofDigits_eq, value, signed_natAbs]
  exact readMarked_eq_some_iff.mpr ⟨l, written, limited, same⟩

/-! ## Long numerals -/

/-- The marker of base sixteen and then its last digit, `k + 1` times. -/
def repeatedF (k : Nat) : String := String.ofList ('0' :: 'x' :: List.replicate (k + 1) 'f')

theorem ofDigits_replicate (k : Nat) : ofDigits 16 (List.replicate k 15) + 1 = 16 ^ k := by
  induction k with
  | zero => rfl
  | succ k ih =>
      rw [List.replicate_succ', ofDigits_append_singleton]
      omega

/-- A numeral in base sixteen is read whatever its length. -/
theorem readMarked_repeatedF (k : Nat) :
    readMarked (repeatedF k) = some (Int.ofNat (16 ^ (k + 1) - 1)) := by
  have last : IsDigit 16 15 'f' := by decide
  have groups : Groups 16 (List.replicate (k + 1) 15) (List.replicate (k + 1) 'f') :=
    .of_forall₂ (last.replicate (k + 1)) (List.cons_ne_nil _ _)
  have unsigned : [] ∈ signs false := by decide
  have known : ('x', 16) ∈ markers := by decide
  let l : Numeral := ⟨false, 16, List.replicate (k + 1) 15⟩
  have chars : (repeatedF k).toList = [] ++ '0' :: 'x' :: List.replicate (k + 1) 'f' :=
    String.toList_ofList
  have written : l.IsWritten (repeatedF k) :=
    isWritten_of_toList chars unsigned (.marked known groups)
  have limited : l.IsShort := fun ten => absurd ten (show 16 ≠ 10 by decide)
  have same : l.value = Int.ofNat (16 ^ (k + 1) - 1) := by
    rw [Numeral.value, ← ofDigits_eq, ← ofDigits_replicate, Nat.add_sub_cancel]
    rfl
  exact readMarked_eq_some_iff.mpr ⟨l, written, limited, same⟩

end SwapCodec.Text
