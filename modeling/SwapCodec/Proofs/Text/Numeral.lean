import SwapCodec.Proofs.Text
import SwapCodec.Text.Numeral
import Mathlib.Data.List.DropRight
import Mathlib.Data.List.Forall2
import Mathlib.Data.Nat.Digits.Defs

/-!
# Numerals that are read back

A character is a digit of a base if it stands for it in either letter case (`Text.IsDigit`), and
digits with single underscores between them are read as the digits
(`Text.ungrouped?_eq_some_iff`). Their value is that of base notation (`Text.ofDigits_eq`), and
every natural number is the value of its digits (`Text.exists_digits`).

A sign goes in front, and blanks around the whole are trimmed (`Text.readSigned_trimBlanks`).

So the numeral of an integer is read as the integer, unless it has more digits than a numeral
may have; then it is not read at all (`Text.readDecimal_decimal`).
-/

set_option autoImplicit false

namespace SwapCodec.Text

variable {base d : Nat} {c : Char} {ds : List Nat} {cs : List Char}

/-! ## Digits -/

/-- The character is the digit, in either letter case. -/
def IsDigit (base d : Nat) (c : Char) : Prop :=
  d < base ∧ (c = Nat.digitChar d ∨ c = (Nat.digitChar d).toUpper)

instance : Decidable (IsDigit base d c) := inferInstanceAs (Decidable (_ ∧ _))

namespace IsDigit

theorem mono {wide : Nat} (digit : IsDigit base d c) (narrow : base ≤ wide) : IsDigit wide d c :=
  ⟨digit.1.trans_le narrow, digit.2⟩

/-- What holds of the digits of a base in both letter cases holds of every digit. -/
theorem forall_of {p : Nat → Char → Prop} (digit : IsDigit base d c)
    (each : ∀ d ∈ List.range base, p d (Nat.digitChar d) ∧ p d (Nat.digitChar d).toUpper) :
    p d c := by
  obtain ⟨lower, upper⟩ := each d (List.mem_range.mpr digit.1)
  rcases digit.2 with rfl | rfl
  · exact lower
  · exact upper

theorem hexDigitValue?_eq (digit : IsDigit 16 d c) : hexDigitValue? c = some d :=
  digit.forall_of (p := fun d c => hexDigitValue? c = some d) (by decide)

theorem eq_zeroChar (digit : IsDigit base 0 c) : c = '0' :=
  digit.2.elim id id

theorem ne_underscore (narrow : base ≤ 16) (digit : IsDigit base d c) : c ≠ '_' :=
  (digit.mono narrow).forall_of (p := fun _ c => c ≠ '_') (by decide)

end IsDigit

/-- The characters from one to another stand for the numbers from `least` on, if they do so one by
one. -/
theorem isDigit_of_between {low high : Char} (least : Nat)
    (between : (low ≤ c && c ≤ high) = true)
    (each : ∀ k ∈ List.range (high.toNat - low.toNat + 1),
      IsDigit 16 (k + least) (Char.ofNat (low.toNat + k))) :
    IsDigit 16 (c.toNat - low.toNat + least) c := by
  simp only [Bool.and_eq_true, decide_eq_true_eq] at between
  have first : low.toNat ≤ c.toNat := between.1
  have last : c.toNat ≤ high.toNat := between.2
  have digit := each (c.toNat - low.toNat) (List.mem_range.mpr (by omega))
  rwa [Nat.add_sub_cancel' first, Char.ofNat_toNat] at digit

theorem isDigit_of_hexDigitValue? (found : hexDigitValue? c = some d) : IsDigit 16 d c := by
  rw [hexDigitValue?] at found
  split at found
  · obtain rfl := Option.some.inj found
    exact isDigit_of_between 0 ‹_› (by decide)
  · split at found
    · obtain rfl := Option.some.inj found
      exact isDigit_of_between 10 ‹_› (by decide)
    · split at found
      · obtain rfl := Option.some.inj found
        exact isDigit_of_between 10 ‹_› (by decide)
      · cases found

theorem digitIn?_eq_some_iff (narrow : base ≤ 16) :
    digitIn? base c = some d ↔ IsDigit base d c := by
  rw [digitIn?, Option.filter_eq_some_iff, decide_eq_true_eq]
  constructor
  · rintro ⟨found, small⟩
    exact ⟨small, (isDigit_of_hexDigitValue? found).2⟩
  · intro digit
    exact ⟨(digit.mono narrow).hexDigitValue?_eq, digit.1⟩

/-! ## Groups of digits -/

/-- The characters are the digits, between which single underscores may stand. -/
inductive Groups (base : Nat) : List Nat → List Char → Prop
  | last {d : Nat} {c : Char} (digit : IsDigit base d c) : Groups base [d] [c]
  | next {d : Nat} {c : Char} {ds : List Nat} {cs : List Char} (digit : IsDigit base d c)
      (rest : Groups base ds cs) : Groups base (d :: ds) (c :: cs)
  | apart {d : Nat} {c : Char} {ds : List Nat} {cs : List Char} (digit : IsDigit base d c)
      (rest : Groups base ds cs) : Groups base (d :: ds) (c :: '_' :: cs)

namespace Groups

theorem mono {wide : Nat} (groups : Groups base ds cs) (narrow : base ≤ wide) :
    Groups wide ds cs := by
  induction groups with
  | last digit => exact .last (digit.mono narrow)
  | next digit _ ih => exact .next (digit.mono narrow) ih
  | apart digit _ ih => exact .apart (digit.mono narrow) ih

/-- What holds of every digit and of the underscore holds of every character. -/
theorem forall_of {p : Char → Prop} (groups : Groups base ds cs)
    (each : ∀ d ∈ List.range base, p (Nat.digitChar d) ∧ p (Nat.digitChar d).toUpper)
    (underscore : p '_') : ∀ c ∈ cs, p c := by
  induction groups with
  | last digit =>
      exact List.forall_mem_singleton.mpr (digit.forall_of (p := fun _ c => p c) each)
  | next digit _ ih =>
      exact List.forall_mem_cons.mpr ⟨digit.forall_of (p := fun _ c => p c) each, ih⟩
  | apart digit _ ih =>
      exact List.forall_mem_cons.mpr ⟨digit.forall_of (p := fun _ c => p c) each,
        List.forall_mem_cons.mpr ⟨underscore, ih⟩⟩

/-- The first character is the first digit. -/
theorem exists_first (groups : Groups base ds cs) :
    ∃ c rest, cs = c :: rest ∧ ∃ d, ds.head? = some d ∧ IsDigit base d c := by
  cases groups with
  | last digit => exact ⟨_, _, rfl, _, rfl, digit⟩
  | next digit => exact ⟨_, _, rfl, _, rfl, digit⟩
  | apart digit => exact ⟨_, _, rfl, _, rfl, digit⟩

/-- Digits may follow each other without underscores. -/
theorem of_forall₂ (digits : List.Forall₂ (IsDigit base) ds cs) (filled : ds ≠ []) :
    Groups base ds cs := by
  induction digits with
  | nil => exact absurd rfl filled
  | @cons d c ds cs digit rest ih =>
      cases rest with
      | nil => exact .last digit
      | cons => exact .next digit (ih (List.cons_ne_nil _ _))

end Groups

theorem exists_of_bind_cons {first : Option Nat} {rest : Option (List Nat)}
    (read : (do let d ← first; let ds ← rest; return d :: ds) = some ds) :
    ∃ d more, first = some d ∧ rest = some more ∧ d :: more = ds := by
  obtain ⟨d, found, read⟩ := Option.bind_eq_some_iff.mp read
  obtain ⟨more, others, made⟩ := Option.bind_eq_some_iff.mp read
  exact ⟨d, more, found, others, Option.some.inj made⟩

/-- **Groups.** Digits are read with single underscores between them. -/
theorem ungrouped?_eq_some_iff (narrow : base ≤ 16) :
    ungrouped? base cs = some ds ↔ Groups base ds cs := by
  constructor
  · intro read
    fun_induction ungrouped? base cs generalizing ds with
    | case1 => cases read
    | case2 c =>
        obtain ⟨d, digit, rfl⟩ := Option.map_eq_some_iff.mp read
        exact .last ((digitIn?_eq_some_iff narrow).mp digit)
    | case3 c rest ih =>
        obtain ⟨d, ds, digit, more, rfl⟩ := exists_of_bind_cons read
        exact .apart ((digitIn?_eq_some_iff narrow).mp digit) (ih more)
    | case4 c rest single apart ih =>
        obtain ⟨d, ds, digit, more, rfl⟩ := exists_of_bind_cons read
        exact .next ((digitIn?_eq_some_iff narrow).mp digit) (ih more)
  · intro groups
    induction groups with
    | last digit =>
        rw [ungrouped?, (digitIn?_eq_some_iff narrow).mpr digit]
        rfl
    | next digit rest ih =>
        rw [ungrouped?, (digitIn?_eq_some_iff narrow).mpr digit, ih]
        · rfl
        · rintro rfl
          cases rest
        · -- the rest starts with a digit, which is not taken for an underscore
          rintro more rfl
          obtain ⟨_, _, here, _, _, digit⟩ := rest.exists_first
          exact digit.ne_underscore narrow (List.cons_eq_cons.mp here).1.symm
    | apart digit rest ih =>
        rw [ungrouped?, (digitIn?_eq_some_iff narrow).mpr digit, ih]
        rfl

/-! ## Values -/

theorem ofDigits_append_singleton (base : Nat) (ds : List Nat) (d : Nat) :
    ofDigits base (ds ++ [d]) = base * ofDigits base ds + d := by
  rw [ofDigits, List.foldl_append]
  rfl

/-- A natural number is the value of its digits, and no zero stands in front of them. -/
theorem exists_digits {base : Nat} (large : 1 < base) (n : Nat) :
    ∃ ds, Nat.toDigits base n = ds.map Nat.digitChar ∧ ds ≠ [] ∧ (∀ d ∈ ds, d < base) ∧
      ofDigits base ds = n ∧ (ds.head? = some 0 → ds = [0]) := by
  induction n using Nat.strongRecOn with
  | ind n ih =>
      by_cases small : n < base
      · refine ⟨[n], Nat.toDigits_of_lt_base small, List.cons_ne_nil _ _,
          List.forall_mem_singleton.mpr small, ?_, ?_⟩
        · exact (ofDigits_append_singleton base [] n).trans (Nat.zero_add n)
        · exact fun zero => congrArg (fun d => [d]) (Option.some.inj zero)
      · have high := Nat.div_pos (Nat.le_of_not_lt small) (Nat.zero_lt_of_lt large)
        obtain ⟨ds, digits, filled, bounded, value, leading⟩ :=
          ih (n / base) (Nat.div_lt_self (by omega) large)
        refine ⟨ds ++ [n % base], ?_, List.append_ne_nil_of_right_ne_nil ds (List.cons_ne_nil _ _),
          ?_, ?_, ?_⟩
        · rw [Nat.toDigits_of_base_le large (Nat.le_of_not_lt small), digits, List.map_append]
          rfl
        · exact List.forall_mem_append.mpr ⟨bounded,
            List.forall_mem_singleton.mpr (Nat.mod_lt n (Nat.zero_lt_of_lt large))⟩
        · rw [ofDigits_append_singleton, value]
          exact Nat.div_add_mod n base
        · intro zero
          have first : (ds ++ [n % base]).head? = ds.head? := by
            cases ds with
            | nil => exact absurd rfl filled
            | cons d ds => rfl
          rw [leading (first ▸ zero)] at value
          exact absurd value (Nat.ne_of_lt high)

/-- The digits have the same value, counted from the other end. -/
theorem ofDigits_eq (base : Nat) (ds : List Nat) :
    ofDigits base ds = Nat.ofDigits base ds.reverse := by
  induction ds using List.reverseRecOn with
  | nil => rfl
  | append_singleton ds d ih =>
      rw [ofDigits_append_singleton, ih, List.reverse_append, List.reverse_singleton,
        List.singleton_append, Nat.ofDigits_cons, Nat.add_comm]

theorem ofDigits_eq_zero_iff (positive : base ≠ 0) : ofDigits base ds = 0 ↔ ∀ d ∈ ds, d = 0 := by
  rw [ofDigits_eq]
  constructor
  · intro zero d mem
    exact Nat.digits_zero_of_eq_zero positive zero d (List.mem_reverse.mpr mem)
  · intro zeros
    rw [List.eq_replicate_of_mem zeros, List.reverse_replicate, Nat.ofDigits_replicate_zero]

theorem digitChar_ne (small : d < 10) {c : Char}
    (other : ∀ m ∈ List.range 10, Nat.digitChar m ≠ c) : Nat.digitChar d ≠ c :=
  other d (List.mem_range.mpr small)

/-! ## Signs -/

/-- The signs that an integer may have. -/
def signs (negative : Bool) : List (List Char) :=
  if negative then [['-']] else [[], ['+']]

/-- The number with a sign. -/
def signed (negative : Bool) (n : Nat) : Int :=
  if negative then -n else n

section

variable {magnitude : List Char → Option Nat} {negative : Bool} {sign body : List Char}

theorem readSigned_append (mem : sign ∈ signs negative)
    (unsigned : ∀ rest, body ≠ '+' :: rest ∧ body ≠ '-' :: rest) :
    readSigned magnitude (sign ++ body) = (magnitude body).map (signed negative) := by
  cases negative with
  | true =>
      obtain rfl := List.mem_singleton.mp mem
      rfl
  | false =>
      rcases List.mem_cons.mp mem with rfl | mem
      · rw [List.nil_append, readSigned]
        · rfl
        · exact fun rest => (unsigned rest).1
        · exact fun rest => (unsigned rest).2
      · obtain rfl := List.mem_singleton.mp mem
        rfl

theorem exists_sign_of_readSigned {n : Int} (read : readSigned magnitude cs = some n) :
    ∃ negative, ∃ sign ∈ signs negative, ∃ body m, cs = sign ++ body ∧ magnitude body = some m := by
  rw [readSigned.eq_def] at read
  split at read
  · obtain ⟨m, found, -⟩ := Option.map_eq_some_iff.mp read
    exact ⟨false, ['+'], by decide, _, m, rfl, found⟩
  · obtain ⟨m, found, -⟩ := Option.map_eq_some_iff.mp read
    exact ⟨true, ['-'], by decide, _, m, rfl, found⟩
  · obtain ⟨m, found, -⟩ := Option.map_eq_some_iff.mp read
    exact ⟨false, [], by decide, _, m, rfl, found⟩

end

theorem sign_mem_signs (n : Int) :
    (if n < 0 then ['-'] else []) ∈ signs (decide (n < 0)) := by
  by_cases negative : n < 0
  · simp [negative, signs]
  · simp [negative, signs]

theorem signed_natAbs (n : Int) : signed (decide (n < 0)) n.natAbs = n := by
  rw [signed]
  split
  · rename_i negative
    have below : n < 0 := of_decide_eq_true negative
    rw [Int.ofNat_natAbs_of_nonpos (Int.le_of_lt below), Int.neg_neg]
  · rename_i natural
    exact Int.natAbs_of_nonneg (Int.not_lt.mp fun negative => natural (decide_eq_true negative))

/-! ## Blanks -/

theorem trimBlanks_eq {cs : List Char} (solid : ∀ c ∈ cs, isAsciiBlank c = false) :
    trimBlanks cs = cs := by
  have front : cs.dropWhile isAsciiBlank = cs := by
    cases cs with
    | nil => rfl
    | cons c cs => rw [List.dropWhile_cons, solid c List.mem_cons_self, if_neg Bool.false_ne_true]
  have back : cs.reverse.dropWhile isAsciiBlank = cs.reverse := by
    cases reversed : cs.reverse with
    | nil => rfl
    | cons c rest =>
        have mem : c ∈ cs := List.mem_reverse.mp (reversed ▸ List.mem_cons_self)
        rw [List.dropWhile_cons, solid c mem, if_neg Bool.false_ne_true]
  rw [trimBlanks, front, back, List.reverse_reverse]

theorem trimBlanks_append {front back : List Char} (before : ∀ c ∈ front, isAsciiBlank c = true)
    (after : ∀ c ∈ back, isAsciiBlank c = true) :
    trimBlanks (front ++ cs ++ back) = trimBlanks cs := by
  rw [trimBlanks, trimBlanks, List.append_assoc, List.dropWhile_append_of_pos before,
    List.dropWhile_append]
  split
  · rename_i blank
    rw [List.isEmpty_iff.mp blank, List.dropWhile_eq_nil_iff.mpr after]
  · rw [List.reverse_append,
      List.dropWhile_append_of_pos fun c mem => after c (List.mem_reverse.mp mem)]

/-- Nothing but blanks is trimmed. -/
theorem exists_blanks (cs : List Char) :
    ∃ front back, cs = front ++ trimBlanks cs ++ back ∧ (∀ c ∈ front, isAsciiBlank c = true) ∧
      ∀ c ∈ back, isAsciiBlank c = true := by
  refine ⟨cs.takeWhile isAsciiBlank, (cs.dropWhile isAsciiBlank).rtakeWhile isAsciiBlank, ?_,
    fun c => List.mem_takeWhile_imp, fun c => List.mem_rtakeWhile_imp⟩
  have kept : trimBlanks cs = (cs.dropWhile isAsciiBlank).rdropWhile isAsciiBlank := rfl
  rw [kept, List.append_assoc, List.rdropWhile_append_rtakeWhile, List.takeWhile_append_dropWhile]

/-- Nothing is folded, trimmed or taken for a sign. -/
def Solid (c : Char) : Prop :=
  foldNumeralChar c = c ∧ isAsciiBlank c = false ∧ c ≠ '+' ∧ c ≠ '-'

instance (c : Char) : Decidable (Solid c) := inferInstanceAs (Decidable (_ ∧ _))

section

variable {negative : Bool} {sign body : List Char}

theorem solid_of_mem_signs (mem : sign ∈ signs negative) :
    ∀ c ∈ sign, foldNumeralChar c = c ∧ isAsciiBlank c = false := by
  cases negative with
  | true =>
      obtain rfl := List.mem_singleton.mp mem
      exact List.forall_mem_singleton.mpr (by decide)
  | false =>
      rcases List.mem_cons.mp mem with rfl | mem
      · exact List.forall_mem_nil _
      · obtain rfl := List.mem_singleton.mp mem
        exact List.forall_mem_singleton.mpr (by decide)

variable (mem : sign ∈ signs negative) (solid : ∀ c ∈ body, Solid c)

include mem solid

theorem map_foldNumeralChar : (sign ++ body).map foldNumeralChar = sign ++ body := by
  have kept : ∀ c ∈ sign ++ body, foldNumeralChar c = c :=
    List.forall_mem_append.mpr
      ⟨fun c here => (solid_of_mem_signs mem c here).1, fun c here => (solid c here).1⟩
  exact (List.map_congr_left kept).trans (List.map_id _)

/-- The sign is taken off and the blanks are trimmed. -/
theorem readSigned_trimBlanks {front back : List Char} (magnitude : List Char → Option Nat)
    (before : ∀ c ∈ front, isAsciiBlank c = true) (after : ∀ c ∈ back, isAsciiBlank c = true) :
    readSigned magnitude (trimBlanks (front ++ (sign ++ body) ++ back)) =
      (magnitude body).map (signed negative) := by
  have inner : ∀ c ∈ sign ++ body, isAsciiBlank c = false :=
    List.forall_mem_append.mpr
      ⟨fun c here => (solid_of_mem_signs mem c here).2, fun c here => (solid c here).2.1⟩
  rw [trimBlanks_append before after, trimBlanks_eq inner, readSigned_append mem]
  intro rest
  constructor
  · rintro rfl
    exact (solid '+' List.mem_cons_self).2.2.1 rfl
  · rintro rfl
    exact (solid '-' List.mem_cons_self).2.2.2 rfl

end

/-! ## Base ten -/

theorem readMagnitude_eq_of_groups (groups : Groups 10 ds cs) :
    readMagnitude cs = if ds.length ≤ digitLimit then some (ofDigits 10 ds) else none := by
  rw [readMagnitude, (ungrouped?_eq_some_iff (by decide)).mpr groups]
  rfl

theorem exists_groups_of_readMagnitude {n : Nat} (read : readMagnitude cs = some n) :
    ∃ ds, Groups 10 ds cs ∧ ofDigits 10 ds = n := by
  obtain ⟨ds, digits, kept⟩ := Option.bind_eq_some_iff.mp read
  split at kept
  · exact ⟨ds, (ungrouped?_eq_some_iff (by decide)).mp digits, Option.some.inj kept⟩
  · cases kept

theorem toList_decimal (n : Int) :
    (decimal n).toList = (if n < 0 then ['-'] else []) ++ Nat.toDigits 10 n.natAbs := by
  rw [decimal]
  split
  · rw [String.toList_ofList]
    rfl
  · rw [String.toList_ofList]
    rfl

theorem exists_toList_decimal (n : Int) :
    ∃ ds, (decimal n).toList = (if n < 0 then ['-'] else []) ++ ds.map Nat.digitChar ∧ ds ≠ [] ∧
      ∀ d ∈ ds, d < 10 := by
  obtain ⟨ds, digits, filled, bounded, -, -⟩ := exists_digits (by decide : 1 < 10) n.natAbs
  exact ⟨ds, by rw [toList_decimal, digits], filled, bounded⟩

/-- The decimal text of an integer is a sign and the digits of the integer, with no zero in front
of others. -/
theorem exists_groups_decimal (n : Int) :
    ∃ ds, ∃ sign ∈ signs (decide (n < 0)), ∃ cs, (decimal n).toList = sign ++ cs ∧
      Groups 10 ds cs ∧ signed (decide (n < 0)) (ofDigits 10 ds) = n ∧
      (ds.length ≤ digitLimit ↔ n.natAbs < tooLong) ∧
      (ds.head? = some 0 → ∀ d ∈ ds, d = 0) := by
  obtain ⟨ds, chars, filled, bounded, value, leading⟩ :=
    exists_digits (by decide : 1 < 10) n.natAbs
  have digits : List.Forall₂ (IsDigit 10) ds (ds.map Nat.digitChar) :=
    List.forall₂_map_right_iff.mpr (List.forall₂_same.mpr fun d mem => ⟨bounded d mem, .inl rfl⟩)
  refine ⟨ds, _, sign_mem_signs n, ds.map Nat.digitChar, ?_, .of_forall₂ digits filled, ?_, ?_, ?_⟩
  · rw [toList_decimal, chars]
  · rw [value, signed_natAbs]
  · rw [← length_toDigits_le_digitLimit_iff, chars, List.length_map]
  · intro first
    rw [leading first]
    exact List.forall_mem_singleton.mpr rfl

/-- **Numerals** are read back, unless they are too long. -/
theorem readDecimal_decimal (n : Int) :
    readDecimal (decimal n) = if n.natAbs < tooLong then some n else none := by
  obtain ⟨ds, sign, mem, cs, chars, groups, value, short, -⟩ := exists_groups_decimal n
  have solid := groups.forall_of (p := Solid) (by decide) (by decide)
  have trimmed : readSigned readMagnitude (trimBlanks ([] ++ (sign ++ cs) ++ [])) = _ :=
    readSigned_trimBlanks mem solid readMagnitude (by simp) (by simp)
  rw [List.nil_append, List.append_nil] at trimmed
  rw [readDecimal, chars, map_foldNumeralChar mem solid, trimmed,
    readMagnitude_eq_of_groups groups]
  simp only [short]
  split
  · rw [Option.map_some, value]
  · rfl

end SwapCodec.Text
