import SwapCodec.ArgType.Binary
import SwapCodec.Proofs.Agreement
import SwapCodec.Proofs.Traits

/-!
# The wire form of arguments

`ArgType.Wire` says which byte string is the form of which value, type by type:
an integer is a word, a truth value a byte, an address itself, traits the word
of their fields, and an array a count in front of its elements.

Reading a type parses its wire form (`ArgType.deserialize_parses`), and writing
emits it (`ArgType.Wire.emits`). The values in the wire form are accepted by
`ArgType.check`, but not all accepted values are in it: a flag given as zero or
one has no bytes of its own. Every accepted value is equal to one in the wire
form and is written as that one is (`ArgType.exists_wire_of_check`).
-/

set_option autoImplicit false

namespace SwapCodec

namespace ArgType

/-- The byte string is the wire form of the value. -/
def Wire : ArgType → Value → List UInt8 → Prop
  | word s w, v, data => ∃ n, v = .int n ∧ s.fits w n = true ∧ data = wordBytes w n
  | bool, v, data => ∃ b : Bool, v = .bool b ∧ data = [if b then 1 else 0]
  | address, v, data => v = .bytes data ∧ data.length = addressSize
  | traits kind, v, data =>
    ∃ t : Traits, v = .traits t ∧ t.kind = kind ∧ t.Plain ∧ data = wordBytes traitsWidth t.word
  | array inner, v, data =>
    ∃ items parts, v = .tuple items ∧ items.length ≤ maxElements ∧
      List.Forall₂ inner.Wire items parts ∧
      data = wordBytes countWidth items.length ++ parts.flatten

/-! ## Reading -/

theorem traitsWord_fits (t : Traits) :
    Signedness.unsigned.fits traitsWidth t.word = true := by
  have small := t.word_lt
  rw [fits_iff]
  simp only [Signedness.lower, Signedness.upper, traitsWidth, Width.full, Nat.pow_eq]
  omega

/-- **Reading.** A type is read from its wire form and from nothing else. -/
theorem deserialize_parses (T : ArgType) : T.deserialize.Parses T.Wire := by
  induction T with
  | word s w =>
      refine ((Decoder.Parses.word s w).map Value.int).congr fun v data => ?_
      constructor
      · rintro ⟨n, ⟨fits, rfl⟩, rfl⟩
        exact ⟨n, rfl, fits, rfl⟩
      · rintro ⟨n, rfl, fits, rfl⟩
        exact ⟨n, ⟨fits, rfl⟩, rfl⟩
  | bool =>
      refine (Decoder.Parses.bool.map Value.bool).congr fun v data => ?_
      constructor
      · rintro ⟨b, rfl, rfl⟩
        exact ⟨b, rfl, rfl⟩
      · rintro ⟨b, rfl, rfl⟩
        exact ⟨b, rfl, rfl⟩
  | address =>
      refine ((Decoder.Parses.bytes addressSize).map Value.bytes).congr fun v data => ?_
      constructor
      · rintro ⟨x, ⟨rfl, sized⟩, rfl⟩
        exact ⟨rfl, sized⟩
      · rintro ⟨rfl, sized⟩
        exact ⟨data, ⟨rfl, sized⟩, rfl⟩
  | traits kind =>
      refine (((Decoder.Parses.word .unsigned traitsWidth).bind fun n =>
        (Decoder.Parses.lift (Traits.ofWord kind true (.int n))).map Value.traits)).congr ?_
      intro v data
      constructor
      · rintro ⟨n, first, second, ⟨_, rfl⟩, ⟨t, ⟨read, rfl⟩, rfl⟩, rfl⟩
        obtain ⟨rfl, plain, rfl⟩ := Traits.ofWord_strict_eq_ok_iff.mp read
        exact ⟨t, rfl, rfl, plain, List.append_nil _⟩
      · rintro ⟨t, rfl, rfl, plain, rfl⟩
        have read := Traits.ofWord_strict_eq_ok_iff.mpr ⟨rfl, plain, rfl⟩
        exact ⟨t.word, _, [], ⟨traitsWord_fits t, rfl⟩, ⟨t, ⟨read, rfl⟩, rfl⟩,
          (List.append_nil _).symm⟩
  | array inner ih =>
      refine ((Decoder.Parses.array ih).map Value.tuple).congr fun v data => ?_
      constructor
      · rintro ⟨items, ⟨few, parts, forms, rfl⟩, rfl⟩
        exact ⟨items, parts, rfl, few, forms, rfl⟩
      · rintro ⟨items, parts, rfl, few, forms, rfl⟩
        exact ⟨items, ⟨few, parts, forms, rfl⟩, rfl⟩

/-! ## Checking -/

theorem checkWord_eq_ok_iff {s : Signedness} {w : Width} {v : Value} {n : Int} :
    checkWord s w v = .ok n ↔ v = .int n ∧ s.fits w n = true := by
  cases v with
  | int m =>
      rw [checkWord, checkFits_eq_ok_iff, Value.int.injEq]
      constructor
      · rintro ⟨fits, rfl⟩
        exact ⟨rfl, fits⟩
      · rintro ⟨rfl, fits⟩
        exact ⟨fits, rfl⟩
  | _ => simp [checkWord, fail]

theorem checkEach_eq_ok_iff {check : Value → Except Error Unit} {items : List Value} :
    checkEach check items = .ok () ↔ ∀ v ∈ items, check v = .ok () := by
  induction items with
  | nil => simp [checkEach]
  | cons v items ih =>
      rw [checkEach, Except.bind_eq_ok_iff, List.forall_mem_cons, ← ih]
      constructor
      · rintro ⟨_, first, others⟩
        exact ⟨first, others⟩
      · rintro ⟨first, others⟩
        exact ⟨(), first, others⟩

theorem check_word_eq_ok_iff {s : Signedness} {w : Width} {v : Value} :
    (word s w).check v = .ok () ↔ ∃ n, v = .int n ∧ s.fits w n = true := by
  rw [check, Except.bind_eq_ok_iff]
  constructor
  · rintro ⟨n, checked, _⟩
    exact ⟨n, checkWord_eq_ok_iff.mp checked⟩
  · rintro ⟨n, checked⟩
    exact ⟨n, checkWord_eq_ok_iff.mpr checked, rfl⟩

theorem check_bool_eq_ok_iff {v : Value} : bool.check v = .ok () ↔ ∃ b, v = .bool b := by
  cases v <;> simp [check, fail]

theorem check_address_eq_ok_iff {v : Value} :
    address.check v = .ok () ↔ ∃ data, v = .bytes data ∧ data.length = addressSize := by
  cases v with
  | bytes data =>
      by_cases sized : data.length = addressSize
      · simp [check, sized]
      · simp [check, sized, fail]
  | _ => simp [check, fail]

theorem check_traits_eq_ok_iff {kind : TraitKind} {v : Value} :
    (traits kind).check v = .ok () ↔ ∃ t : Traits, v = .traits t ∧ t.kind = kind := by
  cases v with
  | traits t =>
      by_cases same : t.kind = kind
      · simp [check, same]
      · simp [check, same, fail]
  | _ => simp [check, fail]

theorem check_array_eq_ok_iff {inner : ArgType} {v : Value} :
    (array inner).check v = .ok () ↔
      ∃ items, v = .tuple items ∧ items.length ≤ maxElements ∧
        ∀ x ∈ items, inner.check x = .ok () := by
  cases v with
  | tuple items =>
      by_cases long : maxElements < items.length
      · simp [check, long, fail]
      · simp [check, long, checkEach_eq_ok_iff, Nat.le_of_not_lt long]
  | _ => simp [check, fail]

/-- The values in the wire form are values of the type. -/
theorem Wire.check_eq_ok {T : ArgType} {v : Value} {data : List UInt8} (h : T.Wire v data) :
    T.check v = .ok () := by
  induction T generalizing v data with
  | word s w =>
      obtain ⟨n, rfl, fits, _⟩ := h
      exact check_word_eq_ok_iff.mpr ⟨n, rfl, fits⟩
  | bool =>
      obtain ⟨b, rfl, _⟩ := h
      rfl
  | address =>
      obtain ⟨rfl, sized⟩ := h
      exact check_address_eq_ok_iff.mpr ⟨data, rfl, sized⟩
  | traits kind =>
      obtain ⟨t, rfl, same, _⟩ := h
      exact check_traits_eq_ok_iff.mpr ⟨t, rfl, same⟩
  | array inner ih =>
      obtain ⟨items, parts, rfl, few, forms, -⟩ := h
      refine check_array_eq_ok_iff.mpr ⟨items, rfl, few, ?_⟩
      clear few
      induction forms with
      | nil => exact List.forall_mem_nil _
      | cons first _ rest => exact List.forall_mem_cons.mpr ⟨ih first, rest⟩

/-! ## Writing -/

theorem emits_serialize {T : ArgType} {v : Value} {data : List UInt8}
    (checked : T.check v = .ok ()) (emitted : (T.emit v).Emits data) :
    (T.serialize v).Emits data :=
  Encoder.emits_lift_bind checked emitted

/-- Every value of the type is equal to one in the wire form and is written as
that one is. -/
theorem exists_wire_of_check {T : ArgType} {v : Value} (checked : T.check v = .ok ()) :
    ∃ w data, v.Agrees w ∧ T.Wire w data ∧ (T.emit v).Emits data := by
  induction T generalizing v with
  | word s w =>
      obtain ⟨n, rfl, fits⟩ := check_word_eq_ok_iff.mp checked
      exact ⟨_, _, .refl _, ⟨n, rfl, fits, rfl⟩, Encoder.emits_word fits⟩
  | bool =>
      obtain ⟨b, rfl⟩ := check_bool_eq_ok_iff.mp checked
      exact ⟨_, _, .refl _, ⟨b, rfl, rfl⟩, Encoder.emits_write _⟩
  | address =>
      obtain ⟨data, rfl, sized⟩ := check_address_eq_ok_iff.mp checked
      refine ⟨_, data, .refl _, ⟨rfl, sized⟩, ?_⟩
      simp only [emit, Encoder.address, if_pos sized]
      exact Encoder.emits_write data
  | traits kind =>
      obtain ⟨t, rfl, rfl⟩ := check_traits_eq_ok_iff.mp checked
      exact ⟨.traits t.normal, _, .traits t.agrees_normal,
        ⟨t.normal, rfl, rfl, t.normal_plain, by rw [Traits.normal_word]⟩,
        Encoder.emits_word (traitsWord_fits t)⟩
  | array inner ih =>
      obtain ⟨items, rfl, few, each⟩ := check_array_eq_ok_iff.mp checked
      -- One element after the other, each by the induction on its type.
      have formed : ∃ others parts, List.Forall₂ Value.Agrees items others ∧
          List.Forall₂ inner.Wire others parts ∧
          List.Forall₂ (fun x data => (inner.serialize x).Emits data) items parts := by
        clear few checked
        induction items with
        | nil => exact ⟨[], [], .nil, .nil, .nil⟩
        | cons x items rest =>
            obtain ⟨y, part, same, form, emitted⟩ := ih (each x List.mem_cons_self)
            obtain ⟨others, parts, agree, forms, written⟩ :=
              rest fun z mem => each z (List.mem_cons_of_mem x mem)
            exact ⟨y :: others, part :: parts, .cons same agree, .cons form forms,
              .cons (emits_serialize (each x List.mem_cons_self) emitted) written⟩
      obtain ⟨others, parts, agree, forms, written⟩ := formed
      refine ⟨.tuple others, _, .tuple agree,
        ⟨others, parts, rfl, agree.length_eq ▸ few, forms, rfl⟩, ?_⟩
      rw [← agree.length_eq]
      exact Encoder.emits_array few written

/-- A value in the wire form is written as its bytes. -/
theorem Wire.emits {T : ArgType} {v : Value} {data : List UInt8} (h : T.Wire v data) :
    (T.emit v).Emits data := by
  induction T generalizing v data with
  | word s w =>
      obtain ⟨n, rfl, fits, rfl⟩ := h
      exact Encoder.emits_word fits
  | bool =>
      obtain ⟨b, rfl, rfl⟩ := h
      exact Encoder.emits_write _
  | address =>
      obtain ⟨rfl, sized⟩ := h
      simp only [emit, Encoder.address, if_pos sized]
      exact Encoder.emits_write data
  | traits kind =>
      obtain ⟨t, rfl, _, _, rfl⟩ := h
      exact Encoder.emits_word (traitsWord_fits t)
  | array inner ih =>
      obtain ⟨items, parts, rfl, few, forms, rfl⟩ := h
      exact Encoder.emits_array few
        (forms.imp fun _ _ form => emits_serialize form.check_eq_ok (ih form))

/-- The values in the wire form of a type of a fixed size have that many bytes. -/
theorem Wire.length_eq {T : ArgType} {v : Value} {data : List UInt8} {size : Nat}
    (h : T.Wire v data) (fixed : T.fixedSize? = some size) : data.length = size := by
  cases T with
  | word s w =>
      obtain ⟨n, rfl, _, rfl⟩ := h
      cases fixed
      exact length_wordBytes w n
  | bool =>
      obtain ⟨b, rfl, rfl⟩ := h
      cases fixed
      rfl
  | address =>
      cases fixed
      exact h.2
  | traits kind =>
      obtain ⟨t, rfl, _, _, rfl⟩ := h
      cases fixed
      exact length_wordBytes traitsWidth t.word
  | array inner => cases fixed

end ArgType

end SwapCodec
