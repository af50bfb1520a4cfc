import SwapCodec.Proofs.ArgType.Document
import SwapCodec.Proofs.Schema.Wire

/-!
# Documents and the wire form of records

A record in the wire form has a document, and it is read back from it
(`Schema.Wire.document`). Only records in the wire form are read from documents
(`Schema.exists_wire_of_ofJson`), so a document that has been read and written once
stays as it is. Together these say that the document form loses nothing
(`documents_lossless`).
-/

set_option autoImplicit false

namespace SwapCodec

namespace Schema

variable {s : Schema} {entries : List (String × ArgType)} {fields given : Fields}
  {args j : Value} {data : List UInt8}

/-! ## Reading a document -/

/-- Fields that are equal to fields in the wire form are read as those, wherever
their documents are looked up. -/
theorem FieldsWire.readDocument_eq (h : FieldsWire entries fields data) (record : String)
    (documents : List (Key × Value))
    (found : ∀ entry ∈ entries, valueAt? (.str entry.1) documents =
      some (entry.2.render ((fieldOf? entry.1 given).getD .null)))
    (same : ∀ field ∈ fields, ((fieldOf? field.1 given).getD .null).Agrees field.2) :
    readDocument record documents entries = .ok fields := by
  induction entries generalizing fields data with
  | nil =>
      rw [h.1]
      rfl
  | cons entry entries ih =>
      obtain ⟨v, rest, first, second, rfl, formed, others, rfl⟩ := h
      rw [List.forall_mem_cons] at found same
      simp only [readDocument, found.1]
      refine Except.bind_eq_ok_iff.mpr ⟨v, ArgType.ofJson_render same.1 formed, ?_⟩
      exact Except.bind_eq_ok_iff.mpr ⟨rest, ih others found.2 same.2, rfl⟩

theorem exists_fieldsWire_of_readDocument {record : String} {documents : List (Key × Value)}
    (read : readDocument record documents entries = .ok fields) :
    ∃ data, FieldsWire entries fields data := by
  induction entries generalizing fields with
  | nil =>
      cases read
      exact ⟨[], rfl, rfl⟩
  | cons entry entries ih =>
      obtain ⟨name, T⟩ := entry
      rw [readDocument] at read
      split at read
      · exact absurd read fail_ne_ok
      · obtain ⟨v, taken, read⟩ := Except.bind_eq_ok_iff.mp read
        obtain ⟨rest, others, made⟩ := Except.bind_eq_ok_iff.mp read
        cases made
        obtain ⟨first, formed⟩ := ArgType.exists_wire_of_ofJson taken
        obtain ⟨second, forms⟩ := ih others
        exact ⟨first ++ second, v, rest, first, second, rfl, formed, forms, rfl⟩

theorem ofJson_dict_eq_ok_iff {documents : List (Key × Value)} :
    s.ofJson (.dict documents) = .ok args ↔
      (∀ e ∈ documents, isOddKey e.1 = false) ∧ s.unknownNames documents = [] ∧
        ∃ fields, readDocument s.record.name documents s.entries = .ok fields ∧
          args = s.recordOf fields ∧ s.check args = .ok () := by
  rw [ofJson]
  by_cases odd : (documents.any fun e => isOddKey e.1) = true
  · rw [if_pos odd]
    refine ⟨fun read => absurd read fail_ne_ok, fun ⟨even, _⟩ => ?_⟩
    obtain ⟨e, mem, stray⟩ := List.any_eq_true.mp odd
    rw [even e mem] at stray
    cases stray
  · have even : ∀ e ∈ documents, isOddKey e.1 = false := by simpa using odd
    rw [if_neg odd, and_iff_right even]
    by_cases known : s.unknownNames documents = []
    · rw [if_neg (not_not.mpr known), and_iff_right known, Except.bind_eq_ok_iff]
      refine exists_congr fun fields => and_congr_right fun _ => ?_
      rw [Except.bind_eq_ok_iff]
      constructor
      · rintro ⟨_, checked, made⟩
        cases made
        exact ⟨rfl, checked⟩
      · rintro ⟨rfl, checked⟩
        exact ⟨(), checked, rfl⟩
    · rw [if_pos known]
      exact ⟨fun read => absurd read fail_ne_ok, fun ⟨absent, _⟩ => absurd absent known⟩

/-- **Reading.** Only records in the wire form are read from documents. -/
theorem exists_wire_of_ofJson (read : s.ofJson j = .ok args) :
    ∃ data, s.Wire args data := by
  cases j with
  | dict documents =>
      obtain ⟨_, _, fields, taken, rfl, checked⟩ := ofJson_dict_eq_ok_iff.mp read
      obtain ⟨data, formed⟩ := exists_fieldsWire_of_readDocument taken
      obtain ⟨given, accepted⟩ := check_eq_ok_iff.mp checked
      obtain ⟨shape, _, related⟩ := accept_eq_ok_iff.mp accepted
      cases shape
      exact ⟨data, fields, formed, related, rfl⟩
  | _ => exact absurd read fail_ne_ok

/-! ## Writing a document -/

theorem names_renderFields (s : Schema) (given : Fields) :
    (renderFields given s.entries).map (·.1) = s.names := by
  rw [renderFields, List.map_map]
  rfl

theorem toJson_eq_ok_iff :
    s.toJson args = .ok j ↔
      ∃ given, s.accept args = .ok given ∧ j = .record (renderFields given s.entries) := by
  rw [toJson, Except.bind_eq_ok_iff]
  refine exists_congr fun given => and_congr_right fun _ => ?_
  constructor
  · intro made
    exact (Except.ok.inj made).symm
  · rintro rfl
    rfl

/-- The names in the document of a record are those of the schema, so none is
unknown and none is missing. -/
theorem ofJson_renderFields_eq_ok (built : s.IsBuilt) (formed : FieldsWire s.entries fields data)
    (same : ∀ field ∈ fields, ((fieldOf? field.1 given).getD .null).Agrees field.2)
    (related : s.relation (s.recordFields fields) = .ok ()) :
    s.ofJson (.record (renderFields given s.entries)) = .ok (s.recordOf fields) := by
  have names := s.names_renderFields given
  have wire : s.Wire (s.recordOf fields) data := ⟨fields, formed, related, rfl⟩
  refine ofJson_dict_eq_ok_iff.mpr ⟨?_, ?_, fields, ?_, rfl, wire.check_eq_ok built⟩
  · rw [List.forall_mem_map]
    exact fun _ _ => rfl
  · rw [unknownNames, List.filterMap_eq_nil_iff, List.forall_mem_map]
    intro field mem
    have named : field.1 ∈ s.names := names ▸ List.mem_map_of_mem mem
    simp [named]
  · refine formed.readDocument_eq _ _ (fun entry mem => ?_) same
    exact valueAt?_of_mem (names ▸ built.nodup) (List.mem_map_of_mem mem :
      (entry.1, entry.2.render ((fieldOf? entry.1 given).getD .null)) ∈
        renderFields given s.entries)

/-- A record in the wire form is read back from its document. -/
theorem Wire.document (built : s.IsBuilt) (h : s.Wire args data) :
    ∃ j, s.toJson args = .ok j ∧ s.ofJson j = .ok args := by
  obtain ⟨given, accepted, _⟩ := h.accept_eq_ok built
  obtain ⟨fields, formed, related, rfl⟩ := h
  obtain ⟨shape, _, _⟩ := accept_eq_ok_iff.mp accepted
  cases shape
  refine ⟨_, toJson_eq_ok_iff.mpr ⟨_, accepted, rfl⟩,
    ofJson_renderFields_eq_ok built formed (fun field mem => ?_) related⟩
  rw [formed.recordFields_of_mem built mem]
  exact .refl _

/-- **Writing.** An accepted record has a document that is read as an equal record in
the wire form, with the same bytes. -/
theorem exists_document_of_check (lawful : s.Lawful) (checked : s.check args = .ok ()) :
    ∃ j w data, s.toJson args = .ok j ∧ s.ofJson j = .ok w ∧ s.record.Agrees args w ∧
      s.Wire w data ∧ s.encode args = .ok data := by
  obtain ⟨given, accepted⟩ := check_eq_ok_iff.mp checked
  obtain ⟨rfl, each, related⟩ := accept_eq_ok_iff.mp accepted
  obtain ⟨fields, data, formed, emitted, same⟩ := exists_fieldsWire_of_check each
  have agree := formed.agree lawful.built same
  have relatedBack := (lawful.respects _ _ agree).mp related
  exact ⟨_, s.recordOf fields, data, toJson_eq_ok_iff.mpr ⟨given, accepted, rfl⟩,
    ofJson_renderFields_eq_ok lawful.built formed same relatedBack,
    ⟨given, _, rfl, rfl, agree⟩, ⟨fields, formed, relatedBack, rfl⟩,
    encode_eq_of_emits (emits_serialize accepted emitted)⟩

end Schema

/-- **Lossless documents.** Take any schema that was built for its record type, over
types that are nested to any depth.

If its relation respects equality, every accepted record has a document, from which
an equal record is read that is encoded as the same bytes.

Every record that is read from a document at all is encoded, and it has a document of
its own, from which exactly this record is read. So writing and reading again changes
neither of the two. -/
theorem documents_lossless {s : Schema} (built : s.IsBuilt) :
    (s.RespectsAgreement → ∀ args, s.check args = .ok () →
      ∃ j w data, s.toJson args = .ok j ∧ s.ofJson j = .ok w ∧ s.record.Agrees args w ∧
        s.encode args = .ok data ∧ s.encode w = .ok data) ∧
    ∀ j args, s.ofJson j = .ok args →
      (∃ data, s.encode args = .ok data) ∧
        ∃ fixed, s.toJson args = .ok fixed ∧ s.ofJson fixed = .ok args ∧
          (s.ofJson fixed >>= s.toJson) = .ok fixed := by
  refine ⟨fun respects args checked => ?_, fun j args read => ?_⟩
  · obtain ⟨j, w, data, written, read, same, wire, encoded⟩ :=
      Schema.exists_document_of_check ⟨built, respects⟩ checked
    exact ⟨j, w, data, written, read, same, encoded, wire.encode_eq built⟩
  · obtain ⟨data, wire⟩ := Schema.exists_wire_of_ofJson read
    obtain ⟨fixed, written, back⟩ := wire.document built
    exact ⟨⟨data, wire.encode_eq built⟩, fixed, written, back,
      Except.bind_eq_ok_iff.mpr ⟨args, back, written⟩⟩

/-- Rows of numbers and the traits of a taker, written in another order than they are
declared in. -/
def nestedSchema : Schema where
  record := ⟨"NestedArgs", ["traits", "rows"]⟩
  entries := [("rows", .array (.array .uint16)), ("traits", .traits .taker)]

/-- A record with a flag given as one. -/
def nestedArgs : Value :=
  .args "NestedArgs" [("traits", .traits {
    kind := .taker
    values := [.int 7, .int 0, .int 0, .bool false, .int 1, .int 0, .int 0, .bool true]
    packs := by decide +kernel }), ("rows", .tuple [.tuple [.int 3, .int 4], .tuple []])]

/-- A document with a numeral in place of a number and with most fields of the traits
left out. -/
def sparseDocument : Value :=
  .record [("rows", .list [.list [.int 3, .str "0x4"], .list []]),
    ("traits", .record [("use_permit2", .int 1)])]

theorem documents_lossless_nested :
    nestedSchema.IsBuilt ∧ nestedSchema.RespectsAgreement ∧
      nestedSchema.check nestedArgs = .ok () ∧
      (∃ j w data, nestedSchema.toJson nestedArgs = .ok j ∧ nestedSchema.ofJson j = .ok w ∧
        nestedSchema.record.Agrees nestedArgs w ∧ nestedSchema.encode nestedArgs = .ok data ∧
        nestedSchema.encode w = .ok data) ∧
      ∃ args fixed, nestedSchema.ofJson sparseDocument = .ok args ∧
        nestedSchema.toJson args = .ok fixed ∧ nestedSchema.ofJson fixed = .ok args := by
  have built : nestedSchema.IsBuilt := by decide
  have respects : nestedSchema.RespectsAgreement := fun _ _ _ => Iff.rfl
  have checked : nestedSchema.check nestedArgs = .ok () := by rfl
  obtain ⟨args, read⟩ : ∃ args, nestedSchema.ofJson sparseDocument = .ok args := ⟨_, rfl⟩
  obtain ⟨lossless, fixed⟩ := documents_lossless built
  obtain ⟨_, document, written, back, _⟩ := fixed sparseDocument args read
  exact ⟨built, respects, checked, lossless respects nestedArgs checked, args, document, read,
    written, back⟩

end SwapCodec
