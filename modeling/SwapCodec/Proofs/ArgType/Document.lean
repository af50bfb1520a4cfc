import SwapCodec.ArgType.Json
import SwapCodec.Proofs.ArgType.Wire
import SwapCodec.Proofs.Text

/-!
# Documents and the wire form of arguments

The documents of a type and its wire form are written separately, and they stand
for the same values. A value that is equal to one in the wire form has a document
that is read back as the one in the wire form (`ArgType.ofJson_render`), and only
values in the wire form are read from documents (`ArgType.exists_wire_of_ofJson`).
-/

set_option autoImplicit false

namespace SwapCodec

/-! ## Traits -/

namespace Traits

theorem toJson_eq (t : Traits) : t.toJson = .dict (fieldEntries t.fields) := by
  rw [toJson, Value.record, List.map_map]
  rfl

/-- Traits are read from the dictionary of their fields in their plain form. -/
theorem ofJson_toJson (t : Traits) : ofJson t.kind t.toJson = .ok t.normal := by
  rw [toJson_eq, ofJson]
  refine Except.bind_eq_ok_iff.mpr ⟨t.word, t.pack_fields, ?_⟩
  rw [ofWord_of_pack t.pack_fields]
  exact ofWord_strict_eq_ok_iff.mpr ⟨rfl, t.normal_plain, by rw [normal_word]⟩

/-- Only plain traits are read from documents. -/
theorem plain_of_ofJson {kind : TraitKind} {j : Value} {t : Traits}
    (read : ofJson kind j = .ok t) : t.kind = kind ∧ t.Plain := by
  cases j with
  | dict entries =>
      obtain ⟨word, packed, made⟩ := Except.bind_eq_ok_iff.mp read
      rw [ofWord_of_pack packed] at made
      obtain ⟨same, plain, _⟩ := ofWord_strict_eq_ok_iff.mp made
      exact ⟨same, plain⟩
  | _ => exact absurd read fail_ne_ok

end Traits

/-! ## Addresses and lists -/

theorem addressOfJson_markedHex (data : List UInt8) :
    addressOfJson (.str (markedHex data)) = .ok data := by
  simp only [addressOfJson, markedHex, Text.dropHexMarker_marked, Text.bytesOfHex?_hexOfBytes]

theorem convertEach_eq_ok_iff {convert : Value → Except Error Value} {items values : List Value} :
    convertEach convert items = .ok values ↔
      List.Forall₂ (fun x y => convert x = .ok y) items values := by
  induction items generalizing values with
  | nil => rw [convertEach, Except.ok.injEq, List.forall₂_nil_left_iff, eq_comm]
  | cons x items ih =>
      simp only [convertEach, Except.bind_eq_ok_iff, ih, List.forall₂_cons_left_iff]
      constructor
      · rintro ⟨y, first, rest, others, made⟩
        cases made
        exact ⟨y, rest, first, others, rfl⟩
      · rintro ⟨y, rest, first, others, rfl⟩
        exact ⟨y, first, rest, others, rfl⟩

/-! ## All types -/

namespace ArgType

variable {T : ArgType} {v w j : Value} {data : List UInt8}

theorem checked_eq_ok_iff : T.checked v = .ok w ↔ T.check v = .ok () ∧ w = v := by
  rw [checked, Except.bind_eq_ok_iff]
  constructor
  · rintro ⟨_, accepted, same⟩
    exact ⟨accepted, (Except.ok.inj same).symm⟩
  · rintro ⟨accepted, rfl⟩
    exact ⟨(), accepted, rfl⟩

theorem Wire.checked_eq (formed : T.Wire v data) : T.checked v = .ok v :=
  checked_eq_ok_iff.mpr ⟨formed.check_eq_ok, rfl⟩

/-- The document of a value is read as the equal value in the wire form. -/
theorem ofJson_render (same : v.Agrees w) (formed : T.Wire w data) :
    T.ofJson (T.render v) = .ok w := by
  induction T generalizing v w data with
  | word s width =>
      obtain ⟨n, rfl, _⟩ := id formed
      cases same
      exact formed.checked_eq
  | bool =>
      obtain ⟨b, rfl, _⟩ := formed
      cases same
      rfl
  | address =>
      obtain ⟨rfl, _⟩ := id formed
      cases same
      exact Except.bind_eq_ok_iff.mpr ⟨data, addressOfJson_markedHex data, formed.checked_eq⟩
  | traits kind =>
      obtain ⟨u, rfl, rfl, plain, _⟩ := id formed
      obtain ⟨t, rfl, agrees⟩ : ∃ t, v = .traits t ∧ t.agrees u = true := by
        cases same with
        | refl => exact ⟨u, rfl, by simp [Traits.agrees]⟩
        | traits agrees => exact ⟨_, rfl, agrees⟩
      obtain rfl := plain.eq_normal agrees
      exact Except.bind_eq_ok_iff.mpr ⟨t.normal, t.ofJson_toJson, formed.checked_eq⟩
  | array inner ih =>
      obtain ⟨others, parts, rfl, few, forms, whole⟩ := id formed
      obtain ⟨items, rfl, each⟩ : ∃ items, v = .tuple items ∧
          List.Forall₂ Value.Agrees items others := by
        cases same with
        | refl => exact ⟨others, rfl, List.forall₂_same.mpr fun x _ => .refl x⟩
        | tuple each => exact ⟨_, rfl, each⟩
      have read : convertEach inner.ofJson (items.map inner.render) = .ok others := by
        rw [convertEach_eq_ok_iff, List.forall₂_map_left_iff]
        clear same formed few whole
        induction each generalizing parts with
        | nil => exact .nil
        | cons first _ rest =>
            cases forms with
            | cons form forms => exact .cons (ih first form) (rest _ forms)
      exact Except.bind_eq_ok_iff.mpr ⟨others, read, formed.checked_eq⟩

/-- Only values in the wire form are read from documents. -/
theorem exists_wire_of_ofJson (read : T.ofJson j = .ok v) : ∃ data, T.Wire v data := by
  induction T generalizing j v with
  | word s width =>
      obtain ⟨n, _, made⟩ := Except.bind_eq_ok_iff.mp read
      obtain ⟨accepted, rfl⟩ := checked_eq_ok_iff.mp made
      obtain ⟨_, same, fits⟩ := check_word_eq_ok_iff.mp accepted
      exact ⟨_, _, same, fits, rfl⟩
  | bool =>
      cases j with
      | bool b =>
          cases read
          exact ⟨_, b, rfl, rfl⟩
      | _ => exact absurd read fail_ne_ok
  | address =>
      obtain ⟨data, _, made⟩ := Except.bind_eq_ok_iff.mp read
      obtain ⟨accepted, rfl⟩ := checked_eq_ok_iff.mp made
      obtain ⟨_, same, sized⟩ := check_address_eq_ok_iff.mp accepted
      exact ⟨_, same, sized⟩
  | traits kind =>
      obtain ⟨t, taken, made⟩ := Except.bind_eq_ok_iff.mp read
      obtain ⟨_, rfl⟩ := checked_eq_ok_iff.mp made
      obtain ⟨same, plain⟩ := Traits.plain_of_ofJson taken
      exact ⟨_, t, rfl, same, plain, rfl⟩
  | array inner ih =>
      cases j with
      | list items =>
          obtain ⟨values, converted, made⟩ := Except.bind_eq_ok_iff.mp read
          obtain ⟨accepted, rfl⟩ := checked_eq_ok_iff.mp made
          obtain ⟨_, same, few, -⟩ := check_array_eq_ok_iff.mp accepted
          cases same
          obtain ⟨parts, forms⟩ : ∃ parts, List.Forall₂ inner.Wire values parts := by
            have each := convertEach_eq_ok_iff.mp converted
            clear read converted made accepted few
            induction each with
            | nil => exact ⟨[], .nil⟩
            | cons first _ rest =>
                obtain ⟨part, form⟩ := ih first
                obtain ⟨parts, forms⟩ := rest
                exact ⟨part :: parts, .cons form forms⟩
          exact ⟨_, values, parts, rfl, few, forms, rfl⟩
      | _ => exact absurd read fail_ne_ok

end ArgType

end SwapCodec
