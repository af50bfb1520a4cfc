import SwapCodec.Proofs.Json.RoundTrip
import SwapCodec.Proofs.Schema.Document
import SwapCodec.Proofs.Schema.Flaws

/-!
# Arguments as text

The documents of narrow types can be written: their integers have numerals, and the
fields of traits and of records have different names
(`ArgType.Wire.isDocument_render`). So a record in the wire form has a text on one
line, and the record is read back from it (`Schema.Wire.exists_text`).
-/

set_option autoImplicit false

namespace SwapCodec

/-! ## Documents -/

namespace Value

theorem allDocuments_iff {items : List Value} :
    allDocuments items = true ↔ ∀ v ∈ items, v.isDocument = true := by
  induction items with
  | nil => exact iff_of_true rfl (List.forall_mem_nil _)
  | cons v items ih => rw [allDocuments, Bool.and_eq_true, ih, List.forall_mem_cons]

theorem entriesDocuments_iff {values : List (String × Value)} :
    entriesDocuments (values.map fun e => (.str e.1, e.2)) = true ↔
      ∀ e ∈ values, e.2.isDocument = true := by
  induction values with
  | nil => exact iff_of_true rfl (List.forall_mem_nil _)
  | cons e values ih =>
      rw [List.map_cons, entriesDocuments, Bool.and_eq_true, ih, List.forall_mem_cons]

theorem isDocument_list {items : List Value} (each : ∀ v ∈ items, v.isDocument = true) :
    (list items).isDocument = true :=
  allDocuments_iff.mpr each

theorem isDocument_record {values : List (String × Value)}
    (distinct : (values.map (·.1)).Nodup) (each : ∀ e ∈ values, e.2.isDocument = true) :
    (record values).isDocument = true := by
  rw [record, isDocument, Bool.and_eq_true, decide_eq_true_eq]
  refine ⟨?_, entriesDocuments_iff.mpr each⟩
  rw [List.pairwise_map]
  simp only [Key.same_str, decide_eq_false_iff_not]
  exact List.pairwise_map.mp distinct

theorem isDocument_int {n : Int} (short : n.natAbs < Text.tooLong) :
    (int n).isDocument = true :=
  Json.isDocument_int_iff.mpr short

end Value

/-! ## Types -/

theorem natAbs_lt_of_fits {s : Signedness} {w : Width} {n : Int} (narrow : w.bits ≤ 256)
    (fits : s.fits w n = true) : n.natAbs < Text.tooLong := by
  have small := natAbs_wordOfBytes_lt s (wordBytes w n)
  rw [wordOfBytes_wordBytes fits, length_wordBytes] at small
  exact Nat.lt_of_lt_of_le small (Width.capacity_le_tooLong narrow)

theorem BitField.isDocument_read (f : BitField) {word : Nat} (small : word < 2 ^ 256) :
    (f.read word).toValue.isDocument = true := by
  have inside : f.extract word ≤ word := by
    rw [extract, Nat.shiftRight_eq_div_pow]
    exact Nat.le_trans Nat.and_le_left (Nat.div_le_self _ _)
  rw [read]
  split
  · rfl
  · exact Value.isDocument_int (Nat.lt_of_le_of_lt inside
      (Nat.lt_of_lt_of_le small Text.two_pow_256_le_tooLong))

theorem Traits.Plain.isDocument_toJson {t : Traits} (plain : t.Plain) :
    t.toJson.isDocument = true := by
  have fields : t.fields = t.kind.layout.readFields t.word := by
    rw [Traits.fields, plain, Layout.names, List.zip_map']
    rfl
  rw [toJson, fields, Layout.readFields, List.map_map]
  refine Value.isDocument_record ?_ (List.forall_mem_map.mpr fun f _ => f.isDocument_read t.word_lt)
  rw [List.map_map]
  exact t.kind.layout_sound.distinct

/-- The document of a narrow type can be written. -/
theorem ArgType.Wire.isDocument_render {T : ArgType} {v : Value} {data : List UInt8}
    (formed : T.Wire v data) (narrow : T.Narrow) : (T.render v).isDocument = true := by
  induction T generalizing v data with
  | word s w =>
      obtain ⟨n, rfl, fits, _⟩ := formed
      exact Value.isDocument_int (natAbs_lt_of_fits narrow fits)
  | bool =>
      obtain ⟨b, rfl, _⟩ := formed
      rfl
  | address =>
      obtain ⟨rfl, _⟩ := formed
      rfl
  | traits kind =>
      obtain ⟨t, rfl, _, plain, _⟩ := formed
      exact plain.isDocument_toJson
  | array inner ih =>
      obtain ⟨items, parts, rfl, -, forms, -⟩ := formed
      refine Value.isDocument_list (List.forall_mem_map.mpr ?_)
      induction forms with
      | nil => exact List.forall_mem_nil _
      | cons first _ rest => exact List.forall_mem_cons.mpr ⟨ih first narrow, rest⟩

/-! ## Records -/

namespace Schema

variable {s : Schema} {entries : List (String × ArgType)} {fields given : Fields}
  {args : Value} {data : List UInt8}

theorem FieldsWire.forall_isDocument_render (h : FieldsWire entries fields data)
    (narrow : ∀ entry ∈ entries, entry.2.Narrow)
    (found : ∀ field ∈ fields, (fieldOf? field.1 given).getD .null = field.2) :
    ∀ e ∈ renderFields given entries, e.2.isDocument = true := by
  induction entries generalizing fields data with
  | nil => exact List.forall_mem_nil _
  | cons entry entries ih =>
      obtain ⟨v, rest, first, second, rfl, formed, others, rfl⟩ := h
      rw [List.forall_mem_cons] at narrow found
      rw [renderFields, List.map_cons, List.forall_mem_cons]
      refine ⟨?_, ih others narrow.2 found.2⟩
      rw [found.1]
      exact formed.isDocument_render narrow.1

/-- A record of narrow types has a document that can be written, and it is read back. -/
theorem Wire.exists_document (built : s.IsBuilt) (narrow : ∀ entry ∈ s.entries, entry.2.Narrow)
    (h : s.Wire args data) :
    ∃ document, s.toJson args = .ok document ∧ document.isDocument = true ∧
      s.ofJson document = .ok args := by
  obtain ⟨document, written, back⟩ := h.document built
  obtain ⟨given, accepted, rfl⟩ := toJson_eq_ok_iff.mp written
  obtain ⟨fields, formed, _, rfl⟩ := h
  obtain ⟨shape, _, _⟩ := accept_eq_ok_iff.mp accepted
  cases shape
  have names := s.names_renderFields (s.recordFields fields)
  have values := formed.forall_isDocument_render narrow
    fun field mem => formed.recordFields_of_mem built mem
  exact ⟨_, written, Value.isDocument_record (names ▸ built.nodup) values, back⟩

/-- **Text.** A record of narrow types has a text on one line, from which it is read
back. -/
theorem Wire.exists_text (built : s.IsBuilt) (narrow : ∀ entry ∈ s.entries, entry.2.Narrow)
    (h : s.Wire args data) :
    ∃ document text, s.toJson args = .ok document ∧ Json.compact document = .ok text ∧
      '\n' ∉ text.toList ∧ Json.read text = .ok document ∧ s.ofJson document = .ok args := by
  obtain ⟨document, written, writable, back⟩ := h.exists_document built narrow
  obtain ⟨text, printed, read, oneLine⟩ := Json.exists_compact_read writable
  exact ⟨document, text, written, printed, oneLine, read, back⟩

end Schema

end SwapCodec
