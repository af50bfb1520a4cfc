import SwapCodec.Proofs.Failure
import SwapCodec.Proofs.Word
import SwapCodec.Stream.Reader
import Mathlib.Data.List.Forall2

/-!
# Streams and wire forms

A wire form relates values to byte strings and mentions neither an encoder nor
a decoder.

An encoder emits a byte string when it appends exactly that string to every
writer (`Encoder.Emits`). A decoder parses a wire form when it reads every
value from its bytes, whatever follows them, and reads nothing else
(`Decoder.Parses`). Both notions go through the steps that encoders and
decoders are made of, so a codec is compared with its wire form piece by piece.

A decoder that parses a wire form, run on a whole byte string, accepts exactly
the byte strings of the form (`Decoder.Parses.run_eq_ok_iff`).
-/

set_option autoImplicit false

namespace SwapCodec

/-! ## Writers and encoders -/

namespace Writer

@[simp]
theorem append_nil (w : Writer) : w.append [] = w := by
  simp [append]

@[simp]
theorem append_append (w : Writer) (first second : List UInt8) :
    (w.append first).append second = w.append (first ++ second) :=
  congrArg Writer.mk (Array.ext' (by simp [append]))

@[simp]
theorem toList_append (w : Writer) (data : List UInt8) :
    (w.append data).toList = w.toList ++ data := by
  simp [append, toList]

@[simp]
theorem toList_empty : ({} : Writer).toList = [] := rfl

theorem position_eq (w : Writer) : w.position = w.toList.length := by
  simp [position, toList]

end Writer

namespace Encoder

variable {α : Type}

/-- Appends exactly the given bytes to every writer. -/
def Emits (e : Encoder Unit) (data : List UInt8) : Prop :=
  ∀ w : Writer, e w = (.ok (), w.append data)

theorem emits_pure : Emits (pure ()) [] := fun w =>
  congrArg (Prod.mk (Except.ok ())) w.append_nil.symm

theorem emits_write (data : List UInt8) : Emits (write data) data := fun _ => rfl

theorem Emits.bind {e : Encoder Unit} {f : Unit → Encoder Unit} {first second : List UInt8}
    (he : e.Emits first) (hf : (f ()).Emits second) : (e >>= f).Emits (first ++ second) := by
  intro w
  rw [bind_apply, he w]
  show f () (w.append first) = _
  rw [hf, Writer.append_append]

theorem emits_lift_bind {x : Except Error α} {a : α} {f : α → Encoder Unit} {data : List UInt8}
    (hx : x = .ok a) (hf : (f a).Emits data) : (lift x >>= f).Emits data := by
  intro w
  rw [bind_apply, hx]
  exact hf w

theorem Emits.toBytes {e : Encoder Unit} {data : List UInt8} (h : e.Emits data) :
    e.toBytes = .ok data := by
  rw [Encoder.toBytes, h {}]
  simp

theorem toBytes_lift_bind (x : Except Error α) (f : α → Encoder Unit) :
    (lift x >>= f).toBytes = x >>= fun a => (f a).toBytes := by
  rw [Encoder.toBytes, bind_apply]
  cases x <;> rfl

theorem toBytes_reject (e : Error) : (reject e).toBytes = fail e := rfl

theorem emits_word {s : Signedness} {w : Width} {n : Int} (fits : s.fits w n = true) :
    Emits (word s w (.int n)) (wordBytes w n) := by
  refine emits_lift_bind (a := wordBytes w n) ?_ (emits_write _)
  simp only [encodeWord, checkWord, checkFits, fits, if_true]
  rfl

theorem emits_each {element : Value → Encoder Unit} {items : List Value}
    {parts : List (List UInt8)}
    (h : List.Forall₂ (fun v data => (element v).Emits data) items parts) :
    Emits (each element items) parts.flatten := by
  induction h with
  | nil => exact emits_pure
  | cons first _ ih => exact first.bind ih

/-- A count of elements fits in front of them. -/
theorem count_fits {n : Nat} (few : n ≤ maxElements) :
    Signedness.unsigned.fits countWidth n = true := by
  rw [fits_iff]
  simp only [maxElements] at few
  simp only [Signedness.lower, Signedness.upper, countWidth, Width.short, Nat.pow_eq]
  omega

theorem emits_array {element : Value → Encoder Unit} {items : List Value}
    {parts : List (List UInt8)} (few : items.length ≤ maxElements)
    (h : List.Forall₂ (fun v data => (element v).Emits data) items parts) :
    Emits (array element items) (wordBytes countWidth items.length ++ parts.flatten) := by
  rw [array, if_neg (Nat.not_lt.mpr few)]
  exact (emits_word (count_fits few)).bind (emits_each h)

end Encoder

/-! ## Readers and decoders -/

theorem checkFits_eq_ok_iff {s : Signedness} {w : Width} {n m : Int} :
    checkFits s w n = .ok m ↔ s.fits w n = true ∧ m = n := by
  by_cases fits : s.fits w n = true
  · simp only [checkFits, fits, if_true, Except.ok.injEq, true_and]
    exact eq_comm
  · simp [checkFits, fits, fail]

namespace Reader

theorem peekBytes_eq_ok_iff {r : Reader} {n : Nat} {chunk : List UInt8} :
    r.peekBytes n true = .ok chunk ↔
      r.closed = false ∧ n ≤ r.rest.length ∧ chunk = r.rest.take n := by
  have natural : ¬ (n : Int) < 0 := by omega
  simp only [peekBytes, Int.toNat_natCast, Bool.true_and, if_neg natural, List.length_take,
    decide_eq_true_eq]
  by_cases closed : r.closed = true
  · simp [closed, fail]
  · by_cases enough : n ≤ r.rest.length
    · simp [closed, enough, eq_comm]
    · simp [closed, fail, show min n r.rest.length < n by omega]
      omega

theorem peekByte_eq_ok {r : Reader} {b : UInt8} (h : r.peekByte = .ok b) :
    ∃ rest, r.rest = b :: rest := by
  simp only [peekByte] at h
  split at h
  · exact absurd h fail_ne_ok
  · split at h
    · exact absurd h fail_ne_ok
    · cases h
      exact ⟨_, by assumption⟩

end Reader

namespace Decoder

variable {α β : Type}

theorem close_eq_ok {r next : Reader} (h : close r = (.ok (), next)) : r.rest = [] := by
  by_cases empty : r.rest.isEmpty = true
  · exact List.isEmpty_iff.mp empty
  · simp only [close, Reader.isEmpty, empty] at h
    by_cases closed : r.closed = true
    · rw [if_pos closed] at h
      cases h
    · rw [if_neg closed] at h
      cases h

/-- Reads every value of a wire form from its bytes, whatever follows them, and
reads nothing else. -/
structure Parses (d : Decoder α) (form : α → List UInt8 → Prop) : Prop where
  /-- A value is read from its bytes, and the bytes that follow are left. -/
  reads : ∀ {x : α} {data : List UInt8}, form x data → ∀ rest : List UInt8,
    d { rest := data ++ rest } = (.ok x, { rest := rest })
  /-- The bytes that a read takes are those of the value that it gives. -/
  takes : ∀ {r next : Reader} {x : α}, d r = (.ok x, next) →
    ∃ data, form x data ∧ r.rest = data ++ next.rest ∧ next.closed = r.closed

namespace Parses

theorem congr {d : Decoder α} {form other : α → List UInt8 → Prop} (h : d.Parses form)
    (same : ∀ x data, form x data ↔ other x data) : d.Parses other where
  reads hx := h.reads ((same _ _).mpr hx)
  takes hd := by
    obtain ⟨data, hx, parts⟩ := h.takes hd
    exact ⟨data, (same _ _).mp hx, parts⟩

theorem pure (x : α) : Parses (pure x) fun y data => y = x ∧ data = [] where
  reads := by
    rintro y data ⟨rfl, rfl⟩ rest
    rfl
  takes hd := by
    cases hd
    exact ⟨[], ⟨rfl, rfl⟩, rfl, rfl⟩

theorem lift (x : Except Error α) : Parses (lift x) fun y data => x = .ok y ∧ data = [] where
  reads := by
    rintro y data ⟨rfl, rfl⟩ rest
    rfl
  takes hd := by
    cases hd
    exact ⟨[], ⟨rfl, rfl⟩, rfl, rfl⟩

theorem bind {d : Decoder α} {f : α → Decoder β} {form : α → List UInt8 → Prop}
    {next : α → β → List UInt8 → Prop} (hd : d.Parses form) (hf : ∀ x, (f x).Parses (next x)) :
    (d >>= f).Parses fun y data =>
      ∃ x first second, form x first ∧ next x y second ∧ data = first ++ second where
  reads := by
    rintro y data ⟨x, first, second, hx, hy, rfl⟩ rest
    rw [bind_apply, List.append_assoc, hd.reads hx]
    exact (hf x).reads hy rest
  takes h := by
    obtain ⟨x, middle, hx, hy⟩ := bind_eq_ok h
    obtain ⟨first, formFirst, restFirst, closedFirst⟩ := hd.takes hx
    obtain ⟨second, formSecond, restSecond, closedSecond⟩ := (hf x).takes hy
    refine ⟨first ++ second, ⟨x, first, second, formFirst, formSecond, rfl⟩, ?_, ?_⟩
    · rw [restFirst, restSecond, List.append_assoc]
    · rw [closedSecond, closedFirst]

/-- A value is changed after it is read. -/
theorem map {d : Decoder α} {form : α → List UInt8 → Prop} (hd : d.Parses form) (f : α → β) :
    Parses (d >>= fun x => Pure.pure (f x)) fun y data => ∃ x, form x data ∧ y = f x := by
  refine (hd.bind fun x => pure (f x)).congr fun y data => ?_
  constructor
  · rintro ⟨x, first, second, hx, ⟨hy, rfl⟩, rfl⟩
    exact ⟨x, by simpa using hx, hy⟩
  · rintro ⟨x, hx, hy⟩
    exact ⟨x, data, [], hx, ⟨hy, rfl⟩, by simp⟩

/-- A value is checked, and perhaps changed, after it is read. -/
theorem check {d : Decoder α} {form : α → List UInt8 → Prop} (hd : d.Parses form)
    (f : α → Except Error β) :
    Parses (d >>= fun x => Decoder.lift (f x)) fun y data => ∃ x, form x data ∧ f x = .ok y := by
  refine (hd.bind fun x => lift (f x)).congr fun y data => ?_
  constructor
  · rintro ⟨x, first, second, hx, ⟨hy, rfl⟩, rfl⟩
    exact ⟨x, by simpa using hx, hy⟩
  · rintro ⟨x, hx, hy⟩
    exact ⟨x, data, [], hx, ⟨hy, rfl⟩, by simp⟩

/-- Taking a fixed number of bytes. -/
theorem bytes (n : Nat) :
    Parses (Decoder.bytes n true) fun x data => x = data ∧ data.length = n where
  reads := by
    rintro x data ⟨rfl, rfl⟩ rest
    have peeked : Reader.peekBytes { rest := x ++ rest } x.length true = .ok x := by
      rw [Reader.peekBytes_eq_ok_iff]
      simp
    simp only [Decoder.bytes, peeked, Reader.skip, List.drop_left]
  takes := by
    intro r next x h
    simp only [Decoder.bytes] at h
    split at h
    · rename_i chunk peeked
      obtain ⟨_, enough, rfl⟩ := Reader.peekBytes_eq_ok_iff.mp peeked
      cases h
      refine ⟨r.rest.take n, ⟨rfl, List.length_take_of_le enough⟩, ?_, rfl⟩
      rw [Reader.skip, List.length_take_of_le enough, List.take_append_drop]
    · cases h

/-- Taking one byte. -/
theorem byte : Parses Decoder.byte fun b data => data = [b] where
  reads := by
    rintro b data rfl rest
    rfl
  takes := by
    intro r next b h
    simp only [Decoder.byte] at h
    split at h
    · rename_i first peeked
      obtain ⟨rest, split⟩ := Reader.peekByte_eq_ok peeked
      cases h
      exact ⟨[b], rfl, by simp [Reader.skip, split], rfl⟩
    · cases h

/-- Taking an integer. -/
theorem word (s : Signedness) (w : Width) :
    Parses (Decoder.word s w) fun n data => s.fits w n = true ∧ data = wordBytes w n := by
  refine ((bytes w.byteCount).check fun data => checkFits s w (wordOfBytes s data)).congr ?_
  intro n data
  constructor
  · rintro ⟨_, ⟨rfl, sized⟩, checked⟩
    obtain ⟨fits, rfl⟩ := checkFits_eq_ok_iff.mp checked
    exact ⟨fits, (wordBytes_wordOfBytes s sized).symm⟩
  · rintro ⟨fits, rfl⟩
    refine ⟨_, ⟨rfl, length_wordBytes w n⟩, ?_⟩
    rw [checkFits_eq_ok_iff, wordOfBytes_wordBytes fits]
    exact ⟨fits, rfl⟩

theorem reject (e : Error) : Parses (Decoder.reject e : Decoder α) fun _ _ => False where
  reads := False.elim
  takes := by
    intro r next x h
    cases h

/-- Taking a truth value. -/
theorem bool : Parses Decoder.bool fun b data => data = [if b then 1 else 0] := by
  have decided (b : UInt8) : Parses
      (if b = 0 then Pure.pure false
        else if b = 1 then Pure.pure true
        else Decoder.reject (.badBoolean b) : Decoder Bool)
      fun x data => b = (if x then 1 else 0) ∧ data = [] := by
    split
    · exact (pure false).congr fun x data => by cases x <;> simp_all
    · split
      · exact (pure true).congr fun x data => by cases x <;> simp_all
      · exact (reject (.badBoolean b)).congr fun x data => by cases x <;> simp_all
  refine (byte.bind decided).congr fun x data => ?_
  constructor
  · rintro ⟨_, _, _, rfl, ⟨rfl, rfl⟩, rfl⟩
    rfl
  · rintro rfl
    exact ⟨_, _, _, rfl, ⟨rfl, rfl⟩, rfl⟩

/-- Taking as many elements as a count says. -/
theorem manyOnto {element : Decoder α} {form : α → List UInt8 → Prop} (h : element.Parses form)
    (done : List α) (n : Nat) :
    Parses (Decoder.manyOnto element done n) fun xs data =>
      ∃ items parts, xs = done.reverse ++ items ∧ items.length = n ∧
        List.Forall₂ form items parts ∧ data = parts.flatten := by
  induction n generalizing done with
  | zero =>
      refine (pure done.reverse).congr fun xs data => ?_
      constructor
      · rintro ⟨rfl, rfl⟩
        exact ⟨[], [], by simp, rfl, .nil, rfl⟩
      · rintro ⟨items, parts, rfl, none, forms, rfl⟩
        cases List.length_eq_zero_iff.mp none
        cases forms
        exact ⟨by simp, rfl⟩
  | succ n ih =>
      refine (h.bind fun x => ih (x :: done)).congr fun xs data => ?_
      constructor
      · rintro ⟨x, first, second, hx, ⟨items, parts, rfl, rfl, forms, rfl⟩, rfl⟩
        exact ⟨x :: items, first :: parts, by simp, rfl, .cons hx forms, rfl⟩
      · rintro ⟨items, parts, rfl, count, forms, rfl⟩
        cases forms with
        | nil => cases count
        | cons hx forms =>
            exact ⟨_, _, _, hx, ⟨_, _, by simp, by simpa using count, forms, rfl⟩, rfl⟩

/-- Taking a count and as many elements. -/
theorem array {element : Decoder α} {form : α → List UInt8 → Prop} (h : element.Parses form) :
    Parses (Decoder.array element) fun xs data =>
      xs.length ≤ maxElements ∧ ∃ parts, List.Forall₂ form xs parts ∧
        data = wordBytes countWidth xs.length ++ parts.flatten := by
  refine ((word .unsigned countWidth).bind fun count => manyOnto h [] count.toNat).congr ?_
  intro xs data
  constructor
  · rintro ⟨count, first, second, ⟨fits, rfl⟩, ⟨items, parts, taken, length, forms, rfl⟩, rfl⟩
    rw [List.reverse_nil, List.nil_append] at taken
    subst taken
    obtain ⟨lower, upper⟩ := fits_iff.mp fits
    simp only [Signedness.lower, Signedness.upper, countWidth, Width.short, Nat.pow_eq]
      at lower upper
    have counted : (xs.length : Int) = count := by rw [length, Int.toNat_of_nonneg lower]
    refine ⟨?_, parts, forms, by rw [counted]⟩
    simp only [maxElements]
    omega
  · rintro ⟨few, parts, forms, rfl⟩
    exact ⟨xs.length, _, _, ⟨Encoder.count_fits few, rfl⟩,
      ⟨xs, parts, rfl, by simp, forms, rfl⟩, rfl⟩

/-- **Whole byte strings.** A decoder that parses a wire form accepts a byte
string when it is the form of some value, and gives that value. -/
theorem run_eq_ok_iff {d : Decoder α} {form : α → List UInt8 → Prop} (h : d.Parses form)
    {data : List UInt8} {x : α} : d.run data = .ok x ↔ form x data := by
  constructor
  · intro accepted
    have ran : (whole d { rest := data }) = (.ok x, (whole d { rest := data }).2) :=
      Prod.ext accepted rfl
    obtain ⟨y, middle, taken, closing⟩ := bind_eq_ok ran
    obtain ⟨_, last, closed, given⟩ := bind_eq_ok closing
    cases given
    obtain ⟨part, formed, parted, _⟩ := h.takes taken
    rw [close_eq_ok closed, List.append_nil] at parted
    exact (show data = part from parted) ▸ formed
  · intro formed
    have taken := h.reads formed []
    rw [List.append_nil] at taken
    rw [run, whole, bind_apply, taken]
    rfl

end Parses

end Decoder

end SwapCodec
