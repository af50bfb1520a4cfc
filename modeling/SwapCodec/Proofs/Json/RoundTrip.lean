import SwapCodec.Proofs.Failure
import SwapCodec.Proofs.Json.Spelling

/-!
# Documents that are read back

A value is a document if it is made of texts, truth values, the null value, integers
that have a numeral, lists, and dictionaries in which each key is a text and comes once
(`Value.isDocument`).

What is written for a document spells it, in either style and at any depth
(`Json.exists_write_eq_ok`), so it is read back (`Json.exists_write_readWithin`). The
compact style writes one line (`Json.exists_compact_read`).
-/

set_option autoImplicit false

namespace SwapCodec

mutual

/-- The value is written in one way and read back as itself. -/
def Value.isDocument : Value → Bool
  | .null => true
  | .bool _ => true
  | .int n => n.natAbs < Text.tooLong
  | .str _ => true
  | .list items => Value.allDocuments items
  | .dict entries =>
    decide (entries.Pairwise fun e f => e.1.same f.1 = false) && Value.entriesDocuments entries
  | _ => false

/-- Every value of a list is a document. -/
def Value.allDocuments : List Value → Bool
  | [] => true
  | v :: rest => Value.isDocument v && Value.allDocuments rest

/-- Every key of a dictionary is a text, and every value is a document. -/
def Value.entriesDocuments : List (Key × Value) → Bool
  | [] => true
  | (.str _, v) :: rest => Value.isDocument v && Value.entriesDocuments rest
  | _ => false

end

namespace Json

/-! ## All documents -/

theorem not_mem_intercalate {c : Char} {separator : List Char} (between : c ∉ separator)
    {parts : List (List Char)} (each : ∀ part ∈ parts, c ∉ part) :
    c ∉ separator.intercalate parts := by
  induction parts with
  | nil => exact List.not_mem_nil
  | cons part parts ih =>
      obtain ⟨first, others⟩ := List.forall_mem_cons.mp each
      cases parts with
      | nil => rwa [List.intercalate_singleton]
      | cons part' parts =>
          rw [List.intercalate_cons_cons, List.mem_append, List.mem_append, not_or, not_or]
          exact ⟨⟨first, between⟩, ih others⟩

/-- On one line there are no line ends but those of the elements. -/
theorem newline_not_mem_bracketed {depth : Nat} {first last : String} {parts : List String}
    (opens : '\n' ∉ first.toList) (closes : '\n' ∉ last.toList)
    (each : ∀ part ∈ parts, '\n' ∉ part.toList) :
    '\n' ∉ (bracketed .compact depth first last parts).toList := by
  by_cases empty : parts = []
  · rw [empty, bracketed_nil, List.mem_append, not_or]
    exact ⟨opens, closes⟩
  · obtain ⟨start, gap, stop, gaps, written⟩ := exists_bracketed_eq .compact depth first last empty
    obtain ⟨atStart, between, atStop⟩ := gaps.oneLine rfl
    have inside : '\n' ∉ (',' :: gap).intercalate (parts.map String.toList) :=
      not_mem_intercalate (by simp [between]) (List.forall_mem_map.mpr each)
    simp only [written, List.mem_append, not_or]
    exact ⟨opens, atStart, inside, atStop, closes⟩

theorem newline_not_mem_decimal (n : Int) : '\n' ∉ (Text.decimal n).toList := by
  have digits : '\n' ∉ Nat.toDigits 10 n.natAbs := fun mem => by
    cases isDigit_of_mem_toDigits mem
  rw [Text.decimal]
  split
  · rw [String.toList_ofList, List.mem_cons, not_or]
    exact ⟨by decide, digits⟩
  · rwa [String.toList_ofList]

theorem newline_not_mem_quoted (s : String) : '\n' ∉ (quoted s).toList := by
  rw [quoted_toList]
  simp [newline_not_mem_escapeChar]

theorem isDocument_int_iff {n : Int} :
    (Value.int n).isDocument = true ↔ n.natAbs < Text.tooLong := by
  rw [Value.isDocument, decide_eq_true_eq]

theorem write_int (style : Style) (depth : Nat) {n : Int} (short : n.natAbs < Text.tooLong) :
    write style depth (.int n) = .ok (Text.decimal n) := by
  have numeral : Text.decimal? n = some (Text.decimal n) := if_pos short
  unfold write
  rw [numeral]

theorem write_list {style : Style} {depth : Nat} {items : List Value} {parts : List String}
    (written : writeAll style (depth + 1) items = .ok parts) :
    write style depth (.list items) = .ok (bracketed style depth "[" "]" parts) :=
  Except.bind_eq_ok_iff.mpr ⟨parts, written, rfl⟩

theorem write_dict {style : Style} {depth : Nat} {entries : List (Key × Value)}
    {parts : List String} (written : writeEntries style (depth + 1) entries = .ok parts) :
    write style depth (.dict entries) = .ok (bracketed style depth "\x7b" "\x7d" parts) :=
  Except.bind_eq_ok_iff.mpr ⟨parts, written, rfl⟩

theorem writeAll_cons {style : Style} {depth : Nat} {v : Value} {items : List Value}
    {text : String} {parts : List String} (first : write style depth v = .ok text)
    (others : writeAll style depth items = .ok parts) :
    writeAll style depth (v :: items) = .ok (text :: parts) :=
  Except.bind_eq_ok_iff.mpr ⟨text, first, Except.bind_eq_ok_iff.mpr ⟨parts, others, rfl⟩⟩

theorem writeEntries_cons {style : Style} {depth : Nat} {name : String} {v : Value}
    {entries : List (Key × Value)} {text : String} {parts : List String}
    (first : write style depth v = .ok text)
    (others : writeEntries style depth entries = .ok parts) :
    writeEntries style depth ((.str name, v) :: entries) =
      .ok ((quoted name ++ ": " ++ text) :: parts) :=
  Except.bind_eq_ok_iff.mpr ⟨text, first, Except.bind_eq_ok_iff.mpr ⟨parts, others, rfl⟩⟩

mutual

/-- A document is written, and what is written spells it. -/
theorem exists_write_eq_ok (style : Style) (depth : Nat) : ∀ v : Value, v.isDocument = true →
    ∃ text, write style depth v = .ok text ∧ Spells text.toList v ∧
      (style = .compact → '\n' ∉ text.toList)
  | .null => fun _ => ⟨_, rfl, spells_null, fun _ => by decide⟩
  | .bool b => fun _ => ⟨_, rfl, spells_bool b, fun _ => by cases b <;> decide⟩
  | .int n => fun document => by
      have short := isDocument_int_iff.mp document
      exact ⟨_, write_int style depth short, spells_decimal short,
        fun _ => newline_not_mem_decimal n⟩
  | .str s => fun _ => ⟨_, rfl, spells_quoted s, fun _ => newline_not_mem_quoted s⟩
  | .list items => fun documents => by
      obtain ⟨parts, written, spells, oneLine⟩ :=
        exists_writeAll_eq_ok style (depth + 1) items documents
      refine ⟨_, write_list written, spells_list style depth spells, fun compact => ?_⟩
      subst compact
      exact newline_not_mem_bracketed (by decide) (by decide) (oneLine rfl)
  | .dict entries => fun documents => by
      rw [Value.isDocument, Bool.and_eq_true, decide_eq_true_eq] at documents
      obtain ⟨parts, written, spells, oneLine⟩ :=
        exists_writeEntries_eq_ok style (depth + 1) entries documents.2
      refine ⟨_, write_dict written, spells_dict style depth spells documents.1, fun compact => ?_⟩
      subst compact
      exact newline_not_mem_bracketed (by decide) (by decide) (oneLine rfl)
  | .float _ | .bytes _ | .tuple _ | .traits _ | .args _ _ | .opcode _ => nofun

theorem exists_writeAll_eq_ok (style : Style) (depth : Nat) :
    ∀ items : List Value, Value.allDocuments items = true →
      ∃ parts, writeAll style depth items = .ok parts ∧
        List.Forall₂ Spells (parts.map String.toList) items ∧
        (style = .compact → ∀ part ∈ parts, '\n' ∉ part.toList)
  | [], _ => ⟨[], rfl, .nil, fun _ => List.forall_mem_nil _⟩
  | v :: items, documents => by
      rw [Value.allDocuments, Bool.and_eq_true] at documents
      obtain ⟨text, written, spells, oneLine⟩ := exists_write_eq_ok style depth v documents.1
      obtain ⟨parts, others, spellAll, oneLines⟩ :=
        exists_writeAll_eq_ok style depth items documents.2
      exact ⟨text :: parts, writeAll_cons written others, .cons spells spellAll, fun compact =>
        List.forall_mem_cons.mpr ⟨oneLine compact, oneLines compact⟩⟩

theorem exists_writeEntries_eq_ok (style : Style) (depth : Nat) :
    ∀ entries : List (Key × Value), Value.entriesDocuments entries = true →
      ∃ parts, writeEntries style depth entries = .ok parts ∧
        List.Forall₂ SpellsEntry (parts.map String.toList) entries ∧
        (style = .compact → ∀ part ∈ parts, '\n' ∉ part.toList)
  | [], _ => ⟨[], rfl, .nil, fun _ => List.forall_mem_nil _⟩
  | (.str name, v) :: entries, documents => by
      rw [Value.entriesDocuments, Bool.and_eq_true] at documents
      obtain ⟨text, written, spells, oneLine⟩ := exists_write_eq_ok style depth v documents.1
      obtain ⟨parts, others, spellAll, oneLines⟩ :=
        exists_writeEntries_eq_ok style depth entries documents.2
      refine ⟨_, writeEntries_cons written others, .cons ⟨name, text.toList, rfl, spells, ?_⟩
        spellAll, fun compact => List.forall_mem_cons.mpr ⟨?_, oneLines compact⟩⟩
      · rw [String.toList_append, String.toList_append, quoted_toList]
        simp
      · simp only [String.toList_append, List.mem_append, not_or]
        exact ⟨⟨newline_not_mem_quoted name, by decide⟩, oneLine compact⟩

end

theorem Spells.readWithin_eq {text : String} {v : Value} {limit : Nat} (h : Spells text.toList v)
    (wide : Text.digitLimit ≤ limit) : readWithin limit text = .ok v := by
  have read := h.reads wide (Nat.le_succ _) (rfl : endsNumber [] = true)
  rw [List.append_nil] at read
  simp only [readWithin, h.opens.skipBlanks_eq, read]
  rfl

/-- **Documents** are written in either style and read back. -/
theorem exists_write_readWithin (style : Style) {v : Value} (document : v.isDocument = true) :
    ∃ text, write style 0 v = .ok text ∧
      ∀ limit, Text.digitLimit ≤ limit → readWithin limit text = .ok v := by
  obtain ⟨text, written, spells, _⟩ := exists_write_eq_ok style 0 v document
  exact ⟨text, written, fun _ => spells.readWithin_eq⟩

/-- **Documents on one line** have no line end in them, and they are read back. -/
theorem exists_compact_read {v : Value} (document : v.isDocument = true) :
    ∃ text, compact v = .ok text ∧ read text = .ok v ∧ '\n' ∉ text.toList := by
  obtain ⟨text, written, spells, oneLine⟩ := exists_write_eq_ok .compact 0 v document
  exact ⟨text, written, spells.readWithin_eq (Nat.le_refl _), oneLine rfl⟩

end Json

end SwapCodec
