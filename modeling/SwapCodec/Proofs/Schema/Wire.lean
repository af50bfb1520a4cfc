import SwapCodec.Proofs.ArgType.Wire

/-!
# The wire form of records

The wire form of a record is that of its fields, one after the other in the
order of the schema (`Schema.FieldsWire`); the record is complete when its
relation holds (`Schema.Wire`).

A schema that was built names each field once. Then a record in the wire form is
accepted and written as its bytes (`Schema.Wire.check_eq_ok`,
`Schema.Wire.encode_eq`), decoding gives exactly the records in the wire form
(`Schema.decode_eq_ok_iff`), and every record that is encoded is equal to one in
the wire form (`Schema.exists_wire_of_encode`).
-/

set_option autoImplicit false

namespace SwapCodec

namespace Schema

/-- The byte string is the wire form of the fields, in the order of the
entries. -/
def FieldsWire : List (String × ArgType) → Fields → List UInt8 → Prop
  | [], fields, data => fields = [] ∧ data = []
  | (name, T) :: entries, fields, data =>
    ∃ v rest first second, fields = (name, v) :: rest ∧ T.Wire v first ∧
      FieldsWire entries rest second ∧ data = first ++ second

/-- The byte string is the wire form of the record. -/
def Wire (s : Schema) (args : Value) (data : List UInt8) : Prop :=
  ∃ fields, FieldsWire s.entries fields data ∧ s.relation (s.recordFields fields) = .ok () ∧
    args = s.recordOf fields

variable {s : Schema} {entries : List (String × ArgType)} {fields given : Fields}
  {args : Value} {data : List UInt8}

/-! ## Reading -/

theorem readFields_parses (entries : List (String × ArgType)) :
    (readFields entries).Parses (FieldsWire entries) := by
  induction entries with
  | nil => exact Decoder.Parses.pure []
  | cons entry entries ih =>
      obtain ⟨name, T⟩ := entry
      refine (T.deserialize_parses.bind fun v => ih.map fun rest => (name, v) :: rest).congr ?_
      intro fields data
      constructor
      · rintro ⟨v, first, second, formed, ⟨rest, others, rfl⟩, rfl⟩
        exact ⟨v, rest, first, second, rfl, formed, others, rfl⟩
      · rintro ⟨v, rest, first, second, rfl, formed, others, rfl⟩
        exact ⟨v, first, second, formed, ⟨rest, others, rfl⟩, rfl⟩

/-- **Reading.** A record is read from its wire form and from nothing else. -/
theorem deserialize_parses (s : Schema) : s.deserialize.Parses s.Wire := by
  refine ((readFields_parses s.entries).bind fun fields =>
    (Decoder.Parses.lift (s.relation (s.recordFields fields))).map
      fun _ => s.recordOf fields).congr fun args data => ?_
  constructor
  · rintro ⟨fields, first, second, formed, ⟨_, ⟨related, rfl⟩, rfl⟩, rfl⟩
    exact ⟨fields, by rwa [List.append_nil], related, rfl⟩
  · rintro ⟨fields, formed, related, rfl⟩
    exact ⟨fields, data, [], formed, ⟨(), ⟨related, rfl⟩, rfl⟩, (List.append_nil _).symm⟩

/-! ## Fields by name -/

theorem FieldsWire.names_eq (h : FieldsWire entries fields data) :
    fields.map (·.1) = entries.map (·.1) := by
  induction entries generalizing fields data with
  | nil => rw [h.1, List.map_nil, List.map_nil]
  | cons entry entries ih =>
      obtain ⟨v, rest, first, second, rfl, _, others, rfl⟩ := h
      rw [List.map_cons, List.map_cons, ih others]

theorem fieldOf?_of_mem (nodup : (fields.map (·.1)).Nodup) {field : String × Value}
    (mem : field ∈ fields) : fieldOf? field.1 fields = some field.2 := by
  induction fields with
  | nil => cases mem
  | cons first fields ih =>
      rw [List.map_cons, List.nodup_cons] at nodup
      rcases List.mem_cons.mp mem with rfl | later
      · exact fieldOf?_cons_self _ _ _
      · rw [fieldOf?_cons_of_ne]
        · exact ih nodup.2 later
        · rintro same
          exact nodup.1 (same ▸ List.mem_map_of_mem later)

/-- The record has the fields it was made of. -/
theorem FieldsWire.recordFields_of_mem (built : s.IsBuilt) (h : FieldsWire s.entries fields data)
    {field : String × Value} (mem : field ∈ fields) :
    (fieldOf? field.1 (s.recordFields fields)).getD .null = field.2 := by
  have named : field.1 ∈ s.names := by
    rw [names, ← h.names_eq]
    exact List.mem_map_of_mem mem
  have nodup : (fields.map (·.1)).Nodup := by
    rw [h.names_eq]
    exact built.nodup
  rw [fieldOf?_recordFields fields (built.mem_fields_iff.mpr named), Option.getD_some,
    fieldOf?_of_mem nodup mem, Option.getD_some]

/-- Values that are equal to the fields one by one make an equal record. -/
theorem FieldsWire.agree (built : s.IsBuilt) (h : FieldsWire s.entries fields data)
    (same : ∀ field ∈ fields, ((fieldOf? field.1 given).getD .null).Agrees field.2) :
    Fields.Agree s.record.fields given (s.recordFields fields) := by
  intro name mem
  have named : name ∈ fields.map (·.1) := by
    rw [h.names_eq]
    exact built.mem_fields_iff.mp mem
  obtain ⟨field, found, rfl⟩ := List.mem_map.mp named
  rw [h.recordFields_of_mem built found]
  exact same field found

/-! ## Checking -/

theorem check_null_ne_ok (T : ArgType) : T.check .null ≠ .ok () := by
  cases T <;> simp [ArgType.check, checkWord, fail, bind, Except.bind]

theorem checkFields_cons_eq_ok_iff {record name : String} {T : ArgType} :
    checkFields record given ((name, T) :: entries) = .ok () ↔
      T.check ((fieldOf? name given).getD .null) = .ok () ∧
        checkFields record given entries = .ok () := by
  rw [checkFields]
  generalize (fieldOf? name given).getD .null = v
  split
  · simp [check_null_ne_ok, fail]
  · rw [Except.bind_eq_ok_iff]
    constructor
    · rintro ⟨_, checked⟩
      exact checked
    · intro checked
      exact ⟨(), checked⟩

theorem fieldsOf_eq_ok_iff : s.fieldsOf args = .ok given ↔ args = .args s.record.name given := by
  cases args with
  | args record fields =>
      by_cases same : record = s.record.name
      · simp [fieldsOf, same]
      · simp [fieldsOf, same, fail]
  | _ => simp [fieldsOf, fail]

theorem accept_eq_ok_iff :
    s.accept args = .ok given ↔
      args = .args s.record.name given ∧ checkFields s.record.name given s.entries = .ok () ∧
        s.relation given = .ok () := by
  simp only [accept, Except.bind_eq_ok_iff, fieldsOf_eq_ok_iff]
  constructor
  · rintro ⟨f, taken, _, checked, _, related, same⟩
    cases same
    exact ⟨taken, checked, related⟩
  · rintro ⟨taken, checked, related⟩
    exact ⟨given, taken, (), checked, (), related, rfl⟩

theorem check_eq_ok_iff : s.check args = .ok () ↔ ∃ given, s.accept args = .ok given := by
  rw [check, Except.bind_eq_ok_iff]
  constructor
  · rintro ⟨given, accepted, _⟩
    exact ⟨given, accepted⟩
  · rintro ⟨given, accepted⟩
    exact ⟨given, accepted, rfl⟩

/-! ## Writing -/

/-- Fields in the wire form are accepted and written, wherever they are looked
up. -/
theorem FieldsWire.check_and_emits (h : FieldsWire entries fields data) (record : String)
    (found : ∀ field ∈ fields, (fieldOf? field.1 given).getD .null = field.2) :
    checkFields record given entries = .ok () ∧ (emitFields given entries).Emits data := by
  induction entries generalizing fields data with
  | nil =>
      rw [h.2]
      exact ⟨rfl, Encoder.emits_pure⟩
  | cons entry entries ih =>
      obtain ⟨v, rest, first, second, rfl, formed, others, rfl⟩ := h
      have value := found _ List.mem_cons_self
      obtain ⟨checked, emitted⟩ := ih others fun field mem =>
        found field (List.mem_cons_of_mem _ mem)
      constructor
      · rw [checkFields_cons_eq_ok_iff, value]
        exact ⟨formed.check_eq_ok, checked⟩
      · rw [emitFields, value]
        exact (ArgType.emits_serialize formed.check_eq_ok formed.emits).bind emitted

/-- Checked fields are equal to fields in the wire form and are written as those
are. -/
theorem exists_fieldsWire_of_check {record : String}
    (checked : checkFields record given entries = .ok ()) :
    ∃ fields data, FieldsWire entries fields data ∧ (emitFields given entries).Emits data ∧
      ∀ field ∈ fields, ((fieldOf? field.1 given).getD .null).Agrees field.2 := by
  induction entries with
  | nil => exact ⟨[], [], ⟨rfl, rfl⟩, Encoder.emits_pure, fun _ mem => nomatch mem⟩
  | cons entry entries ih =>
      obtain ⟨name, T⟩ := entry
      obtain ⟨first, others⟩ := checkFields_cons_eq_ok_iff.mp checked
      obtain ⟨v, start, same, formed, written⟩ := ArgType.exists_wire_of_check first
      obtain ⟨rest, remaining, forms, emitted, agree⟩ := ih others
      refine ⟨(name, v) :: rest, start ++ remaining,
        ⟨v, rest, start, remaining, rfl, formed, forms, rfl⟩,
        (ArgType.emits_serialize first written).bind emitted, ?_⟩
      exact List.forall_mem_cons.mpr ⟨same, agree⟩

theorem emits_serialize (accepted : s.accept args = .ok given)
    (emitted : (emitFields given s.entries).Emits data) : (s.serialize args).Emits data :=
  Encoder.emits_lift_bind accepted emitted

theorem Wire.accept_eq_ok (built : s.IsBuilt) (h : s.Wire args data) :
    ∃ given, s.accept args = .ok given ∧ (emitFields given s.entries).Emits data := by
  obtain ⟨fields, formed, related, rfl⟩ := h
  obtain ⟨checked, emitted⟩ := formed.check_and_emits s.record.name
    fun field mem => formed.recordFields_of_mem built mem
  exact ⟨s.recordFields fields, accept_eq_ok_iff.mpr ⟨rfl, checked, related⟩, emitted⟩

/-- A record in the wire form is accepted. -/
theorem Wire.check_eq_ok (built : s.IsBuilt) (h : s.Wire args data) : s.check args = .ok () := by
  obtain ⟨given, accepted, _⟩ := h.accept_eq_ok built
  exact check_eq_ok_iff.mpr ⟨given, accepted⟩

/-- A record in the wire form is written as its bytes. -/
theorem Wire.emits (built : s.IsBuilt) (h : s.Wire args data) : (s.serialize args).Emits data := by
  obtain ⟨given, accepted, emitted⟩ := h.accept_eq_ok built
  exact emits_serialize accepted emitted

/-- Every accepted record is equal to one made of fields in the wire form and is
written as those are. -/
theorem exists_fieldsWire_of_accept (built : s.IsBuilt) (accepted : s.accept args = .ok given) :
    ∃ fields data, FieldsWire s.entries fields data ∧ (s.serialize args).Emits data ∧
      Fields.Agree s.record.fields given (s.recordFields fields) := by
  obtain ⟨_, checked, _⟩ := accept_eq_ok_iff.mp accepted
  obtain ⟨fields, data, formed, emitted, same⟩ := exists_fieldsWire_of_check checked
  exact ⟨fields, data, formed, emits_serialize accepted emitted, formed.agree built same⟩

/-- Every accepted record is equal to one in the wire form and is written as that
one is. -/
theorem exists_wire_of_check (lawful : s.Lawful) (checked : s.check args = .ok ()) :
    ∃ w data, s.record.Agrees args w ∧ s.Wire w data ∧ (s.serialize args).Emits data := by
  obtain ⟨given, accepted⟩ := check_eq_ok_iff.mp checked
  obtain ⟨fields, data, formed, emitted, agree⟩ := exists_fieldsWire_of_accept lawful.built accepted
  obtain ⟨rfl, _, related⟩ := accept_eq_ok_iff.mp accepted
  exact ⟨s.recordOf fields, data, ⟨given, _, rfl, rfl, agree⟩,
    ⟨fields, formed, (lawful.respects _ _ agree).mp related, rfl⟩, emitted⟩

/-! ## Whole byte strings -/

theorem encode_eq_of_emits (emitted : (s.serialize args).Emits data) :
    s.encode args = .ok data := by
  rw [encode, emitted.toBytes]

theorem check_of_encode (encoded : s.encode args = .ok data) : s.check args = .ok () := by
  cases accepted : s.accept args with
  | ok given => exact check_eq_ok_iff.mpr ⟨given, accepted⟩
  | error e =>
      have stopped : (s.serialize args).toBytes = .error e := by
        rw [Encoder.toBytes, serialize, bind_apply, accepted]
        rfl
      simp only [encode, stopped] at encoded
      split at encoded
      · exact absurd encoded fail_ne_ok
      · cases encoded

/-- A record in the wire form is encoded as its bytes. -/
theorem Wire.encode_eq (built : s.IsBuilt) (h : s.Wire args data) : s.encode args = .ok data :=
  encode_eq_of_emits (h.emits built)

/-- Every record that is encoded is equal to one in the wire form, with the same
bytes. -/
theorem exists_wire_of_encode (lawful : s.Lawful) (encoded : s.encode args = .ok data) :
    ∃ w, s.record.Agrees args w ∧ s.Wire w data := by
  obtain ⟨w, bytes, same, formed, emitted⟩ := exists_wire_of_check lawful (check_of_encode encoded)
  have sameBytes := (encode_eq_of_emits emitted).symm.trans encoded
  cases sameBytes
  exact ⟨w, same, formed⟩

theorem FieldsWire.length_eq {size : Nat} (h : FieldsWire entries fields data)
    (fixed : fixedLengthOf? entries = some size) : data.length = size := by
  induction entries generalizing fields data size with
  | nil =>
      cases fixed
      rw [h.2, List.length_nil]
  | cons entry entries ih =>
      obtain ⟨v, rest, first, second, rfl, formed, others, rfl⟩ := h
      simp only [fixedLengthOf?, Option.bind_eq_bind, Option.bind_eq_some_iff] at fixed
      obtain ⟨one, fixedFirst, more, fixedRest, total⟩ := fixed
      cases total
      rw [List.length_append, formed.length_eq fixedFirst, ih others fixedRest]

theorem Wire.isShort_eq_false (h : s.Wire args data) : s.isShort data = false := by
  obtain ⟨fields, formed, _⟩ := h
  cases fixed : s.fixedLength? with
  | none => simp only [isShort, fixed]
  | some size =>
      simp only [isShort, fixed, formed.length_eq fixed, Nat.lt_irrefl, decide_false]

/-- **Decoding.** The byte strings that are decoded are the wire forms of the
records that come out. -/
theorem decode_eq_ok_iff : s.decode data = .ok args ↔ s.Wire args data := by
  rw [← s.deserialize_parses.run_eq_ok_iff]
  constructor
  · intro decoded
    simp only [decode] at decoded
    split at decoded
    · exact absurd decoded fail_ne_ok
    · split at decoded
      · rwa [← decoded]
      · split at decoded
        · cases decoded
        · split at decoded
          · exact absurd decoded fail_ne_ok
          · cases decoded
  · intro ran
    have long := (s.deserialize_parses.run_eq_ok_iff.mp ran).isShort_eq_false
    simp only [decode, long, ran, Bool.false_eq_true, if_false]

end Schema

end SwapCodec
