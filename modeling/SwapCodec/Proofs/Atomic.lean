import SwapCodec.Proofs.Registry.Frame

/-!
# Writing all or nothing

Writers are shared: what is written for one value stands behind what was written
for others. An encoder is all or nothing when it appends the bytes that it gives
on its own, or fails for the same reason and appends nothing
(`Encoder.AllOrNothing`).

Not every encoder is: the count of an array and the elements in front of one that
fails stay written. What makes the codecs all or nothing is that they check a value
before its first byte, and that a value that was checked is always written: after a
step that fails without writing, only what emits its bytes may follow
(`Encoder.allOrNothing_lift_bind`), and after the first byte nothing may fail
(`Encoder.AllOrNothing.bind_emits`).
-/

set_option autoImplicit false

namespace SwapCodec

namespace Encoder

variable {α : Type} {e : Encoder Unit} {data : List UInt8}

/-- Appends the bytes of the outcome to every writer, or fails as the outcome does
and leaves every writer as it is. -/
def AllOrNothing (e : Encoder Unit) (outcome : Except Error (List UInt8)) : Prop :=
  ∀ w : Writer, e w = match outcome with
    | .ok data => (.ok (), w.append data)
    | .error err => (.error err, w)

theorem Emits.allOrNothing (h : e.Emits data) : e.AllOrNothing e.toBytes := by
  rw [h.toBytes]
  exact h

theorem allOrNothing_reject (err : Error) : (reject err).AllOrNothing (reject err).toBytes :=
  fun _ => rfl

/-- A step that writes nothing may fail in front of an encoder that is all or
nothing. -/
theorem allOrNothing_lift_bind {x : Except Error α} {f : α → Encoder Unit}
    (h : ∀ a, x = .ok a → (f a).AllOrNothing (f a).toBytes) :
    (lift x >>= f).AllOrNothing (lift x >>= f).toBytes := by
  intro w
  rw [toBytes_lift_bind, bind_apply]
  cases x with
  | error err => rfl
  | ok a => exact h a rfl w

/-- Behind an encoder that is all or nothing, bytes may follow that are always
written. -/
theorem AllOrNothing.bind_emits {f : Unit → Encoder Unit} (h : e.AllOrNothing e.toBytes)
    (written : (f ()).Emits data) : (e >>= f).AllOrNothing (e >>= f).toBytes := by
  cases outcome : e.toBytes with
  | ok first =>
      rw [outcome] at h
      exact (Emits.bind h written).allOrNothing
  | error err =>
      rw [outcome] at h
      have stopped (w : Writer) : (e >>= f) w = (.error err, w) := by
        rw [bind_apply, h w]
      intro w
      rw [stopped w, Encoder.toBytes, stopped {}]

theorem allOrNothing_word (s : Signedness) (w : Width) (v : Value) :
    (word s w v).AllOrNothing (word s w v).toBytes :=
  allOrNothing_lift_bind fun data _ => (emits_write data).allOrNothing

end Encoder

/-- A type writes a value that it accepts, and checks it before the first byte. -/
theorem ArgType.allOrNothing_serialize (T : ArgType) (v : Value) :
    (T.serialize v).AllOrNothing (T.serialize v).toBytes := by
  refine Encoder.allOrNothing_lift_bind fun _ checked => ?_
  obtain ⟨_, data, -, -, emitted⟩ := ArgType.exists_wire_of_check checked
  exact emitted.allOrNothing

namespace Schema

/-- A schema writes a record that it accepts, its relation included, and checks all
of it before the first byte. -/
theorem allOrNothing_serialize (s : Schema) (args : Value) :
    (s.serialize args).AllOrNothing (s.serialize args).toBytes := by
  refine Encoder.allOrNothing_lift_bind fun given accepted => ?_
  obtain ⟨_, checked, _⟩ := accept_eq_ok_iff.mp accepted
  obtain ⟨_, data, -, emitted, -⟩ := exists_fieldsWire_of_check checked
  exact emitted.allOrNothing

theorem toBytes_serialize_eq_ok_iff {s : Schema} {args : Value} {data : List UInt8} :
    (s.serialize args).toBytes = .ok data ↔ s.encode args = .ok data := by
  rw [encode]
  cases (s.serialize args).toBytes with
  | ok bytes => exact Iff.rfl
  | error e =>
      dsimp only
      split
      · exact iff_of_false Except.error_ne_ok fail_ne_ok
      · exact iff_of_false Except.error_ne_ok Except.error_ne_ok

end Schema

namespace Registry

theorem allOrNothing_writeFrame (o : Opcode) (discriminator : Nat) (payload : List UInt8) :
    (writeFrame o discriminator payload).AllOrNothing
      (writeFrame o discriminator payload).toBytes := by
  rw [writeFrame]
  split
  · exact Encoder.allOrNothing_reject _
  · -- The length is known to fit, so only the discriminator may fail, and it comes first.
    rename_i short
    have counted : payload.length < 256 := Nat.lt_succ_of_le (Nat.le_of_not_lt short)
    exact (Encoder.allOrNothing_word _ _ _).bind_emits
      ((Encoder.emits_word (byte_fits rfl counted)).bind (Encoder.emits_write payload))

theorem allOrNothing_serialize (R : Registry) (identity args : Value) :
    (R.serialize identity args).AllOrNothing (R.encode identity args) := by
  rw [encode]
  cases identity with
  | opcode o =>
      refine Encoder.allOrNothing_lift_bind fun i _ => ?_
      refine Encoder.allOrNothing_lift_bind fun entry _ => ?_
      exact Encoder.allOrNothing_lift_bind fun payload _ => allOrNothing_writeFrame o i payload
  | _ => exact Encoder.allOrNothing_reject _

end Registry

/-- **All or nothing.** Whatever has been written before, a value of any kind is
written by a type of arguments as its bytes, or it is refused and nothing is
written. The same is true of any record and any schema, whatever relation the
schema has, and of any opcode and any arguments in every registry. -/
theorem serialization_atomic :
    (∀ (T : ArgType) (v : Value), (T.serialize v).AllOrNothing (T.toBytes v)) ∧
    (∀ (s : Schema) (args : Value),
      (s.serialize args).AllOrNothing (s.serialize args).toBytes ∧
        ∀ data, (s.serialize args).toBytes = .ok data ↔ s.encode args = .ok data) ∧
    (∀ (R : Registry) (identity args : Value),
      (R.serialize identity args).AllOrNothing (R.encode identity args)) :=
  ⟨fun T v => T.allOrNothing_serialize v,
    fun s args => ⟨s.allOrNothing_serialize args, fun _ => Schema.toBytes_serialize_eq_ok_iff⟩,
    fun R identity args => R.allOrNothing_serialize identity args⟩

end SwapCodec
