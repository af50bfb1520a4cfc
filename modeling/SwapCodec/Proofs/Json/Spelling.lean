import SwapCodec.Proofs.Json.Scalar
import Mathlib.Data.List.Forall2

/-!
# Characters that spell a value

Characters spell a value if they are read as that value from the front of any text that
does not go on with a number (`Json.Spells`). Reading takes at most one step for each
character, so as many steps as there are characters always suffice.

Words, numerals and texts between quotes spell what was written. Where the elements of
a list or a dictionary spell their values, the written elements between brackets spell
the list (`Json.spells_list`) or the dictionary (`Json.spells_dict`), whatever blanks
the style puts between them (`Json.Gaps`).
-/

set_option autoImplicit false

namespace SwapCodec

namespace Json

/-- A character that is no blank and no closing bracket. -/
def isOpening (c : Char) : Bool := !(isBlank c || c == ']' || c == '\x7d')

/-- The characters start neither with a blank nor with a closing bracket. -/
def Opens (cs : List Char) : Prop :=
  ∃ c more, cs = c :: more ∧ isOpening c = true

theorem opens_cons {c : Char} (opening : isOpening c = true) (more : List Char) :
    Opens (c :: more) :=
  ⟨c, more, rfl, opening⟩

/-- The characters are read as the value, whatever follows them that does not go on
with a number. -/
structure Spells (cs : List Char) (v : Value) : Prop where
  /-- They start neither with a blank nor with a closing bracket. -/
  opens : Opens cs
  /-- They are read in at most as many steps as there are characters. -/
  reads : ∀ {limit fuel : Nat} {rest : List Char}, Text.digitLimit ≤ limit → cs.length ≤ fuel →
    endsNumber rest = true → readValue limit fuel (cs ++ rest) = .ok (v, rest)

/-! ## Words and numerals -/

theorem spells_null : Spells "null".toList .null where
  opens := opens_cons rfl _
  reads {limit fuel rest} _ enough _ := by
    obtain ⟨fuel, rfl⟩ := Nat.exists_eq_add_of_le' enough
    rfl

theorem spells_bool (b : Bool) : Spells (if b then "true" else "false").toList (.bool b) where
  opens := by cases b <;> exact opens_cons rfl _
  reads {limit fuel rest} _ enough _ := by
    cases b with
    | true =>
        obtain ⟨fuel, rfl⟩ := Nat.exists_eq_add_of_le' enough
        rfl
    | false =>
        obtain ⟨fuel, rfl⟩ := Nat.exists_eq_add_of_le' enough
        rfl

theorem readWord?_eq_none {cs : List Char} (other : ∀ w ∈ words, afterWord? w.1.toList cs = none) :
    readWord? cs = none := by
  rw [readWord?, List.findSome?_eq_none_iff]
  intro w mem
  rw [other w mem, Option.map_none]

theorem afterWord?_of_ne {c d : Char} (other : c ≠ d) (word cs : List Char) :
    afterWord? (c :: word) (d :: cs) = none := by
  simp [afterWord?, other]

/-- No word starts with a digit. -/
theorem readWord?_of_isDigit {c : Char} (digit : isDigit c = true) (cs : List Char) :
    readWord? (c :: cs) = none := by
  have other {d : Char} (letter : isDigit d = false) : d ≠ c := by
    rintro rfl
    cases letter.symm.trans digit
  refine readWord?_eq_none ?_
  simp only [words, List.forall_mem_cons]
  exact ⟨afterWord?_of_ne (other rfl) _ _, afterWord?_of_ne (other rfl) _ _,
    afterWord?_of_ne (other rfl) _ _, afterWord?_of_ne (other rfl) _ _,
    afterWord?_of_ne (other rfl) _ _, afterWord?_of_ne (other rfl) _ _, List.forall_mem_nil _⟩

/-- The only word behind a minus sign starts with a letter. -/
theorem readWord?_minus {c : Char} (digit : isDigit c = true) (cs : List Char) :
    readWord? ('-' :: c :: cs) = none := by
  have other : 'I' ≠ c := by
    rintro rfl
    cases digit
  refine readWord?_eq_none ?_
  simp only [words, List.forall_mem_cons]
  exact ⟨rfl, rfl, rfl, rfl, rfl, afterWord?_of_ne other _ _, List.forall_mem_nil _⟩

theorem readValue_scalar {c : Char} (text : c ≠ '"') (list : c ≠ '[') (dict : c ≠ '\x7b')
    (limit fuel : Nat) (cs : List Char) :
    readValue limit (fuel + 1) (c :: cs) = readScalar limit (c :: cs) := by
  rw [readValue]
  · exact fun _ same => absurd (List.cons_eq_cons.mp same).1 text
  · exact fun _ same => absurd (List.cons_eq_cons.mp same).1 list
  · exact fun _ same => absurd (List.cons_eq_cons.mp same).1 dict

theorem readValue_isDigit {c : Char} (digit : isDigit c = true) (limit fuel : Nat)
    (cs : List Char) :
    readValue limit (fuel + 1) (c :: cs) = readNumber limit false (c :: cs) := by
  have other {d : Char} (letter : isDigit d = false) : c ≠ d := by
    rintro rfl
    cases letter.symm.trans digit
  rw [readValue_scalar (other rfl) (other rfl) (other rfl), readScalar,
    readWord?_of_isDigit digit]
  exact fun _ same => absurd (List.cons_eq_cons.mp same).1 (other rfl)

theorem spells_decimal {n : Int} (short : n.natAbs < Text.tooLong) :
    Spells (Text.decimal n).toList (.int n) := by
  have few := Text.length_toDigits_le_digitLimit_iff.mpr short
  obtain ⟨c, more, digits⟩ := List.exists_cons_of_ne_nil
    (Nat.toDigits_ne_nil (n := n.natAbs) (b := 10))
  have digit : isDigit c = true :=
    isDigit_of_mem_toDigits (digits ▸ List.mem_cons_self : c ∈ Nat.toDigits 10 n.natAbs)
  have other {d : Char} (letter : isDigit d = false) : c ≠ d := by
    rintro rfl
    cases letter.symm.trans digit
  by_cases negative : n < 0
  · rw [Text.decimal, if_pos negative, String.toList_ofList]
    refine ⟨opens_cons rfl _, fun {limit fuel rest} wide enough ends => ?_⟩
    obtain ⟨fuel, rfl⟩ := Nat.exists_eq_add_of_le' (Nat.le_of_add_left_le enough)
    rw [List.cons_append, readValue_scalar (by decide) (by decide) (by decide), readScalar, digits,
      List.cons_append, readWord?_minus digit, ← List.cons_append, ← digits]
    refine (readNumber_toDigits (Nat.le_trans few wide) true ends).trans ?_
    rw [if_pos rfl, Int.ofNat_natAbs_of_nonpos (Int.le_of_lt negative), Int.neg_neg]
  · rw [Text.decimal, if_neg negative, String.toList_ofList]
    refine ⟨⟨c, more, digits, ?_⟩, fun {limit fuel rest} wide enough ends => ?_⟩
    · simp [isOpening, isBlank, (other rfl : c ≠ ' '), (other rfl : c ≠ '\t'),
        (other rfl : c ≠ '\n'), (other rfl : c ≠ '\r'), (other rfl : c ≠ ']'),
        (other rfl : c ≠ '\x7d')]
    · obtain ⟨fuel, rfl⟩ : ∃ k, fuel = k + 1 := by
        rw [digits] at enough
        exact Nat.exists_eq_add_of_le' (Nat.le_of_add_left_le enough)
      have read := readNumber_toDigits (Nat.le_trans few wide) false ends
      rw [digits, List.cons_append] at read ⊢
      rw [readValue_isDigit digit, read, if_neg Bool.false_ne_true,
        Int.natAbs_of_nonneg (Int.not_lt.mp negative)]

/-! ## Texts -/

theorem quoted_toList (s : String) :
    (quoted s).toList = '"' :: (s.toList.flatMap escapeChar ++ ['"']) := by
  rw [quoted, String.toList_ofList, List.cons_append]

theorem readText_quoted {s : String} {fuel : Nat}
    (enough : (s.toList.flatMap escapeChar).length < fuel) (rest : List Char) :
    readText [] fuel (s.toList.flatMap escapeChar ++ ['"'] ++ rest) = .ok (s, rest) := by
  have steps := Nat.lt_of_le_of_lt (length_le_flatMap_escapeChar s.toList) enough
  rw [List.append_assoc, List.singleton_append, readText_flatMap steps, List.reverse_nil,
    List.nil_append, String.ofList_toList]

theorem spells_quoted (s : String) : Spells (quoted s).toList (.str s) where
  opens := ⟨_, _, quoted_toList s, rfl⟩
  reads {limit fuel rest} _ enough _ := by
    rw [quoted_toList] at enough ⊢
    rw [List.length_cons, List.length_append, List.length_singleton] at enough
    obtain ⟨fuel, rfl⟩ := Nat.exists_eq_add_of_le' (Nat.le_of_add_left_le enough)
    rw [List.cons_append, readValue, readText_quoted (by omega)]

/-! ## Between the elements -/

theorem skipBlanks_append {gap : List Char} (blank : ∀ c ∈ gap, isBlank c = true)
    (cs : List Char) : skipBlanks (gap ++ cs) = skipBlanks cs :=
  List.dropWhile_append_of_pos blank

theorem skipBlanks_cons {c : Char} (solid : isBlank c = false) (cs : List Char) :
    skipBlanks (c :: cs) = c :: cs := by
  rw [skipBlanks, List.dropWhile_cons, solid]
  rfl

/-- A number ends at blanks and at what stands behind the elements. -/
theorem endsNumber_append {gap : List Char} (blank : ∀ c ∈ gap, isBlank c = true)
    {rest : List Char} (ends : endsNumber rest = true) : endsNumber (gap ++ rest) = true := by
  cases gap with
  | nil => exact ends
  | cons c more =>
      have solid := blank c List.mem_cons_self
      simp only [isBlank, Bool.or_eq_true, beq_iff_eq] at solid
      rcases solid with ((rfl | rfl) | rfl) | rfl <;> rfl

/-- The blanks that a style puts around the elements. -/
structure Gaps (style : Style) (start gap stop : List Char) : Prop where
  start_blank : ∀ c ∈ start, isBlank c = true
  gap_blank : ∀ c ∈ gap, isBlank c = true
  stop_blank : ∀ c ∈ stop, isBlank c = true
  oneLine : style = .compact → '\n' ∉ start ∧ '\n' ∉ gap ∧ '\n' ∉ stop

theorem isBlank_of_mem_lineStart {depth : Nat} {c : Char} (mem : c ∈ (lineStart depth).toList) :
    isBlank c = true := by
  rw [lineStart, String.toList_ofList, List.mem_cons, List.mem_replicate] at mem
  rcases mem with rfl | ⟨_, rfl⟩ <;> rfl

theorem bracketed_nil (style : Style) (depth : Nat) (first last : String) :
    (bracketed style depth first last []).toList = first.toList ++ last.toList := by
  rw [bracketed.eq_def, List.isEmpty_nil, if_pos rfl, String.toList_append]

/-- Elements stand between brackets, with commas and blanks between them. -/
theorem exists_bracketed_eq (style : Style) (depth : Nat) (first last : String)
    {parts : List String} (nonempty : parts ≠ []) :
    ∃ start gap stop, Gaps style start gap stop ∧
      (bracketed style depth first last parts).toList =
        first.toList ++ (start ++ ((',' :: gap).intercalate (parts.map String.toList) ++
          (stop ++ last.toList))) := by
  have filled : parts.isEmpty = false := List.isEmpty_eq_false_iff.mpr nonempty
  cases style with
  | compact =>
      refine ⟨[], [' '], [], ⟨by simp, by simp [isBlank], by simp, by simp⟩, ?_⟩
      simp only [bracketed, filled, joined_eq_intercalate, Bool.false_eq_true, if_false,
        String.toList_append, String.toList_intercalate, List.nil_append, List.append_assoc]
      rfl
  | indented =>
      refine ⟨(lineStart (depth + 1)).toList, (lineStart (depth + 1)).toList,
        (lineStart depth).toList, ⟨fun _ => isBlank_of_mem_lineStart,
          fun _ => isBlank_of_mem_lineStart, fun _ => isBlank_of_mem_lineStart, nofun⟩, ?_⟩
      simp only [bracketed, filled, joined_eq_intercalate, Bool.false_eq_true, if_false,
        String.toList_append, String.toList_intercalate, List.append_assoc]
      rfl

/-! ## Lists -/

variable {limit fuel : Nat} {start gap stop rest : List Char}

theorem Opens.append {cs : List Char} (h : Opens cs) (rest : List Char) : Opens (cs ++ rest) := by
  obtain ⟨c, more, rfl, solid⟩ := h
  exact ⟨c, more ++ rest, rfl, solid⟩

theorem Opens.skipBlanks_eq {cs : List Char} (h : Opens cs) : skipBlanks cs = cs := by
  obtain ⟨c, more, rfl, opening⟩ := h
  simp only [isOpening, Bool.not_eq_true', Bool.or_eq_false_iff] at opening
  exact skipBlanks_cons opening.1.1 more

theorem opens_intercalate {parts : List (List Char)} (opens : ∀ part ∈ parts, Opens part)
    (nonempty : parts ≠ []) (separator : List Char) : Opens (separator.intercalate parts) := by
  obtain ⟨part, parts, rfl⟩ := List.exists_cons_of_ne_nil nonempty
  have first := opens part List.mem_cons_self
  cases parts with
  | nil => rwa [List.intercalate_singleton]
  | cons part' parts =>
      rw [List.intercalate_cons_cons, List.append_assoc]
      exact first.append _

theorem Spells.forall_opens {parts : List (List Char)} {items : List Value}
    (spells : List.Forall₂ Spells parts items) : ∀ part ∈ parts, Opens part := by
  induction spells with
  | nil => exact List.forall_mem_nil _
  | cons first _ ih => exact List.forall_mem_cons.mpr ⟨first.opens, ih⟩

/-- The elements of a list are read behind those that are done. -/
theorem readItems_intercalate (wide : Text.digitLimit ≤ limit)
    (gapBlank : ∀ c ∈ gap, isBlank c = true) (stopBlank : ∀ c ∈ stop, isBlank c = true)
    {parts : List (List Char)} {items : List Value} (spells : List.Forall₂ Spells parts items)
    (nonempty : parts ≠ []) (done : List Value)
    (enough : ((',' :: gap).intercalate parts).length < fuel) :
    readItems limit done fuel ((',' :: gap).intercalate parts ++ (stop ++ ']' :: rest)) =
      .ok (.list (done.reverse ++ items), rest) := by
  induction spells generalizing done fuel with
  | nil => exact absurd rfl nonempty
  | @cons part v parts items first others ih =>
      obtain ⟨fuel, rfl⟩ := Nat.exists_eq_add_one_of_ne_zero (Nat.ne_zero_of_lt enough)
      cases parts with
      | nil =>
          cases others
          rw [List.intercalate_singleton] at enough ⊢
          rw [readItems, first.reads wide (Nat.le_of_lt_succ enough)
            (endsNumber_append stopBlank rfl)]
          simp only [skipBlanks_append stopBlank, skipBlanks_cons (rfl : isBlank ']' = false)]
          rw [List.reverse_cons]
      | cons part' parts =>
          have next := opens_intercalate (Spells.forall_opens others) (by simp) (',' :: gap)
          rw [List.intercalate_cons_cons, List.length_append, List.length_append,
            List.length_cons] at enough
          rw [List.intercalate_cons_cons, List.append_assoc, List.append_assoc, List.cons_append,
            readItems, first.reads wide (by omega) rfl]
          simp only [skipBlanks_cons (rfl : isBlank ',' = false), skipBlanks_append gapBlank,
            (next.append _).skipBlanks_eq]
          rw [ih (by simp) (v :: done) (by omega), List.reverse_cons, List.append_assoc,
            List.singleton_append]

/-- A list that does not end at once has elements. -/
theorem readValue_list {cs items : List Char} (skipped : skipBlanks cs = items)
    (opens : Opens items) :
    readValue limit (fuel + 1) ('[' :: cs) = readItems limit [] fuel items := by
  obtain ⟨c, more, rfl, opening⟩ := opens
  simp only [readValue, skipped]
  split
  · rename_i same
    cases (List.cons_eq_cons.mp same).1
    cases opening
  · rfl

/-- Brackets spell a value if it is read from what is behind the opening one, once the
blanks are skipped. -/
theorem spells_bracketed {style : Style} {depth : Nat} {first last : String}
    (opening closing : Char) (opens : first.toList = [opening]) (closes : last.toList = [closing])
    (bracket : isOpening opening = true) {parts : List String} (nonempty : parts ≠ [])
    (each : ∀ part ∈ parts.map String.toList, Opens part) {v : Value}
    (reads : ∀ {limit fuel : Nat} {start gap stop cs rest : List Char},
      Text.digitLimit ≤ limit → Gaps style start gap stop →
      ((',' :: gap).intercalate (parts.map String.toList)).length < fuel →
      let elements :=
        (',' :: gap).intercalate (parts.map String.toList) ++ (stop ++ closing :: rest)
      skipBlanks cs = elements → Opens elements →
        readValue limit (fuel + 1) (opening :: cs) = .ok (v, rest)) :
    Spells (bracketed style depth first last parts).toList v := by
  obtain ⟨start, gap, stop, gaps, written⟩ := exists_bracketed_eq style depth first last nonempty
  rw [written, opens, closes]
  refine ⟨opens_cons bracket _, fun {limit fuel rest} wide enough _ => ?_⟩
  simp only [List.cons_append, List.nil_append, List.length_cons, List.length_append] at enough
  obtain ⟨fuel, rfl⟩ := Nat.exists_eq_add_of_le' (Nat.le_of_add_left_le enough)
  have elements := (opens_intercalate each (by simpa using nonempty) (',' :: gap)).append
    (stop ++ closing :: rest)
  have skipped := (skipBlanks_append gaps.start_blank _).trans elements.skipBlanks_eq
  simp only [List.cons_append, List.nil_append, List.append_assoc]
  exact reads wide gaps (by omega) skipped elements

theorem spells_list (style : Style) (depth : Nat) {parts : List String} {items : List Value}
    (spells : List.Forall₂ Spells (parts.map String.toList) items) :
    Spells (bracketed style depth "[" "]" parts).toList (.list items) := by
  by_cases empty : parts = []
  · subst empty
    cases spells
    rw [bracketed_nil]
    refine ⟨opens_cons rfl _, fun {limit fuel rest} _ enough _ => ?_⟩
    obtain ⟨fuel, rfl⟩ := Nat.exists_eq_add_of_le' enough
    rfl
  · refine spells_bracketed '[' ']' rfl rfl rfl empty
      (Spells.forall_opens spells) ?_
    intro limit fuel start gap stop cs rest wide gaps enough elements skipped opens
    rw [readValue_list skipped opens]
    exact readItems_intercalate wide gaps.gap_blank gaps.stop_blank spells (by simpa using empty)
      [] enough

/-! ## Dictionaries -/

/-- The characters spell a key, and behind a colon its value. -/
def SpellsEntry (cs : List Char) (entry : Key × Value) : Prop :=
  ∃ name text, entry.1 = .str name ∧ Spells text entry.2 ∧
    cs = '"' :: (name.toList.flatMap escapeChar ++ ['"'] ++ (':' :: ' ' :: text))

theorem SpellsEntry.forall_opens {parts : List (List Char)} {entries : List (Key × Value)}
    (spells : List.Forall₂ SpellsEntry parts entries) : ∀ part ∈ parts, Opens part := by
  induction spells with
  | nil => exact List.forall_mem_nil _
  | cons first _ ih =>
      obtain ⟨_, _, _, _, rfl⟩ := first
      exact List.forall_mem_cons.mpr ⟨opens_cons rfl _, ih⟩

theorem putEntry_of_fresh {name : String} {done : List (Key × Value)}
    (fresh : ∀ e ∈ done, e.1.same (.str name) = false) (v : Value) :
    putEntry (.str name) v done = done ++ [(.str name, v)] := by
  induction done with
  | nil => rfl
  | cons e done ih =>
      obtain ⟨other, fresh⟩ := List.forall_mem_cons.mp fresh
      rw [putEntry, other, if_neg Bool.false_ne_true, ih fresh, List.cons_append]

/-- Behind an entry there is a comma and another entry, or the end of the dictionary. -/
theorem readEntries_entry {name : String} {text : List Char} {v : Value}
    (wide : Text.digitLimit ≤ limit) (spells : Spells text v)
    (enough : (name.toList.flatMap escapeChar).length + text.length < fuel)
    (ends : endsNumber rest = true) (done : List (Key × Value)) {cs : List Char}
    (written : cs = '"' :: (name.toList.flatMap escapeChar ++ ['"'] ++ (':' :: ' ' :: text))) :
    (∀ more, skipBlanks rest = ',' :: more →
      readEntries limit done (fuel + 1) (cs ++ rest) =
        readEntries limit (putEntry (.str name) v done) fuel (skipBlanks more)) ∧
    (∀ more, skipBlanks rest = '\x7d' :: more →
      readEntries limit done (fuel + 1) (cs ++ rest) =
        .ok (.dict (putEntry (.str name) v done), more)) := by
  have skipped : skipBlanks (' ' :: (text ++ rest)) = text ++ rest :=
    (spells.opens.append rest).skipBlanks_eq
  have value := spells.reads wide (by omega : text.length ≤ fuel) ends
  rw [written, List.cons_append, List.append_assoc, readEntries, readText_quoted (by omega)]
  simp only [List.cons_append, skipBlanks_cons (rfl : isBlank ':' = false), skipped, value]
  refine ⟨fun more comma => ?_, fun more close => ?_⟩
  · simp only [comma]
  · simp only [close]

/-- The entries of a dictionary are read behind those that are done, whose keys are
others. -/
theorem readEntries_intercalate (wide : Text.digitLimit ≤ limit)
    (gapBlank : ∀ c ∈ gap, isBlank c = true) (stopBlank : ∀ c ∈ stop, isBlank c = true)
    {parts : List (List Char)} {entries : List (Key × Value)}
    (spells : List.Forall₂ SpellsEntry parts entries) (nonempty : parts ≠ [])
    {done : List (Key × Value)}
    (distinct : (done ++ entries).Pairwise fun e f => e.1.same f.1 = false)
    (enough : ((',' :: gap).intercalate parts).length < fuel) :
    readEntries limit done fuel ((',' :: gap).intercalate parts ++ (stop ++ '\x7d' :: rest)) =
      .ok (.dict (done ++ entries), rest) := by
  induction spells generalizing done fuel with
  | nil => exact absurd rfl nonempty
  | @cons part entry parts entries first others ih =>
      obtain ⟨fuel, rfl⟩ := Nat.exists_eq_add_one_of_ne_zero (Nat.ne_zero_of_lt enough)
      obtain ⟨name, text, key, formed, rfl⟩ := first
      obtain ⟨key', v⟩ := entry
      obtain rfl : key' = .str name := key
      have fresh : ∀ e ∈ done, e.1.same (.str name) = false := fun e mem =>
        (List.pairwise_append.mp distinct).2.2 e mem _ List.mem_cons_self
      rw [List.append_cons] at distinct
      have step (room : (name.toList.flatMap escapeChar).length + text.length < fuel)
          {more : List Char} (ends : endsNumber more = true) :=
        readEntries_entry wide formed room ends done rfl
      cases parts with
      | nil =>
          cases others
          rw [List.intercalate_singleton] at enough ⊢
          simp only [List.length_cons, List.length_append, List.length_nil] at enough
          have close : skipBlanks (stop ++ '\x7d' :: rest) = '\x7d' :: rest := by
            rw [skipBlanks_append stopBlank, skipBlanks_cons rfl]
          rw [(step (by omega) (endsNumber_append stopBlank rfl)).2 rest close,
            putEntry_of_fresh fresh]
      | cons part' parts =>
          have next := opens_intercalate (SpellsEntry.forall_opens others) (by simp) (',' :: gap)
          simp only [List.intercalate_cons_cons, List.length_cons, List.length_append,
            List.length_nil] at enough
          have comma : ∀ more, skipBlanks (',' :: gap ++ more) = ',' :: (gap ++ more) :=
            fun more => skipBlanks_cons rfl (gap ++ more)
          rw [List.intercalate_cons_cons, List.append_assoc, List.append_assoc,
            (step (by omega) rfl).1 _ (comma _), skipBlanks_append gapBlank,
            (next.append _).skipBlanks_eq, putEntry_of_fresh fresh, ih (by simp) distinct (by omega),
            List.append_assoc, List.singleton_append]

/-- A dictionary that does not end at once has entries. -/
theorem readValue_dict {cs entries : List Char} (skipped : skipBlanks cs = entries)
    (opens : Opens entries) :
    readValue limit (fuel + 1) ('\x7b' :: cs) = readEntries limit [] fuel entries := by
  obtain ⟨c, more, rfl, opening⟩ := opens
  simp only [readValue, skipped]
  split
  · rename_i same
    cases (List.cons_eq_cons.mp same).1
    cases opening
  · rfl

theorem spells_dict (style : Style) (depth : Nat) {parts : List String}
    {entries : List (Key × Value)}
    (spells : List.Forall₂ SpellsEntry (parts.map String.toList) entries)
    (distinct : entries.Pairwise fun e f => e.1.same f.1 = false) :
    Spells (bracketed style depth "\x7b" "\x7d" parts).toList (.dict entries) := by
  by_cases empty : parts = []
  · subst empty
    cases spells
    rw [bracketed_nil]
    refine ⟨opens_cons rfl _, fun {limit fuel rest} _ enough _ => ?_⟩
    obtain ⟨fuel, rfl⟩ := Nat.exists_eq_add_of_le' enough
    rfl
  · refine spells_bracketed '\x7b' '\x7d' rfl rfl rfl empty (SpellsEntry.forall_opens spells) ?_
    intro limit fuel start gap stop cs rest wide gaps enough elements skipped opens
    rw [readValue_dict skipped opens]
    exact readEntries_intercalate wide gaps.gap_blank gaps.stop_blank spells (by simpa using empty)
      distinct enough

end Json

end SwapCodec
