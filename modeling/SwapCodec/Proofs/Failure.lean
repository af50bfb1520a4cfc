import SwapCodec.Error

/-!
# Failing

A failure is not a result (`fail_ne_ok`), and a computation in steps gives a
result exactly when each of its steps does (`Except.bind_eq_ok_iff`). Steps that
change a state as well pass it on (`bind_apply`).

A failure reports its cause if the cause can be worded (`fail_eq_error`), and
then its kind is that of the cause (`failsWith_fail`). Otherwise it reports what
stands in for the cause (`fail_eq_unworded`).
-/

set_option autoImplicit false

namespace SwapCodec

theorem fail_ne_ok {α : Type} {e : Error} {x : α} : fail e ≠ .ok x := by
  simp [fail]

theorem Except.error_ne_ok {ε α : Type} {e : ε} {x : α} : Except.error e ≠ .ok x := by
  intro same
  cases same

/-- A computation that fails does not go on. -/
theorem fail_bind_ne_ok {α β : Type} {e : Error} {f : α → Except Error β} {y : β} :
    (fail e >>= f) ≠ .ok y := by
  simp [fail, bind, Except.bind]

theorem Except.ok_bind {ε α β : Type} (a : α) (f : α → Except ε β) : (.ok a >>= f) = f a := rfl

/-- A computation that goes on succeeds when both of its parts do. -/
theorem Except.bind_eq_ok_iff {ε α β : Type} {x : Except ε α} {f : α → Except ε β} {b : β} :
    (x >>= f) = .ok b ↔ ∃ a, x = .ok a ∧ f a = .ok b := by
  cases x with
  | error e => simp [bind, Except.bind]
  | ok a => simp [bind, Except.bind]

theorem Except.map_eq_ok_iff {ε α β : Type} {x : Except ε α} {f : α → β} {b : β} :
    x.map f = .ok b ↔ ∃ a, x = .ok a ∧ f a = b := by
  cases x with
  | error e => simp [Except.map]
  | ok a => simp [Except.map]

theorem Except.eq_ok_of_toOption {ε α : Type} {r : Except ε α} {a : α}
    (result : r.toOption = some a) : r = .ok a := by
  cases r with
  | ok b =>
      cases result
      rfl
  | error e => cases result

/-- Steps that change a state are taken one after the other, up to the first that fails. -/
theorem bind_apply {ε σ α β : Type} (x : ExceptT ε (StateM σ) α)
    (f : α → ExceptT ε (StateM σ) β) (s : σ) :
    (x >>= f) s = match x s with
      | (.ok a, next) => f a next
      | (.error e, next) => (.error e, next) := by
  show ExceptT.bindCont f (x s).1 (x s).2 = _
  rcases x s with ⟨_ | _, _⟩ <;> rfl

theorem bind_eq_ok {ε σ α β : Type} {x : ExceptT ε (StateM σ) α}
    {f : α → ExceptT ε (StateM σ) β} {s last : σ} {b : β} (h : (x >>= f) s = (.ok b, last)) :
    ∃ a next, x s = (.ok a, next) ∧ f a next = (.ok b, last) := by
  rw [bind_apply] at h
  split at h
  · exact ⟨_, _, by assumption, h⟩
  · cases h

/-- The computation reports an error of the given kind, with its message. -/
def FailsWith {α : Type} (x : Except Error α) (kind : ErrorKind) : Prop :=
  ∃ e, x = .error e ∧ e.kind = kind ∧ e.message?.isSome = true

theorem fail_eq_error {α : Type} {e : Error} (worded : e.message?.isSome = true) :
    (fail e : Except Error α) = .error e := by
  rw [fail, Error.settled, worded, Bool.or_true, if_pos rfl]

/-- A failure whose cause would quote a numeral that is too long reports what replaces it. -/
theorem fail_eq_unworded {α : Type} {e : Error} (wordy : e.isWordless = false)
    (unworded : e.message? = none) : (fail e : Except Error α) = .error e.unworded := by
  rw [fail, Error.settled, wordy, unworded]
  rfl

theorem failsWith_fail {α : Type} {e : Error} (worded : e.message?.isSome = true) :
    FailsWith (fail e : Except Error α) e.kind :=
  ⟨e, fail_eq_error worded, rfl, worded⟩

/-- The error is of the given kind whatever it is that failed. -/
theorem FailsWith.error {α β : Type} {e : Error} {kind : ErrorKind}
    (h : FailsWith (.error e : Except Error α) kind) :
    FailsWith (.error e : Except Error β) kind := by
  obtain ⟨_, same, reported⟩ := h
  cases same
  exact ⟨e, rfl, reported⟩

theorem FailsWith.bind {α β : Type} {x : Except Error α} {kind : ErrorKind}
    (h : FailsWith x kind) (f : α → Except Error β) : FailsWith (x >>= f) kind := by
  obtain ⟨e, rfl, same, worded⟩ := h
  exact ⟨e, rfl, same, worded⟩

theorem FailsWith.map {α β : Type} {x : Except Error α} {kind : ErrorKind} (h : FailsWith x kind)
    (f : α → β) : FailsWith (x.map f) kind := by
  obtain ⟨e, rfl, same, worded⟩ := h
  exact ⟨e, rfl, same, worded⟩

theorem FailsWith.kind_eq {α : Type} {x : Except Error α} {kind : ErrorKind} {e : Error}
    (h : FailsWith x kind) (failed : x = .error e) : e.kind = kind := by
  obtain ⟨_, same, kind, _⟩ := h
  cases failed.symm.trans same
  exact kind

theorem FailsWith.ne_ok {α : Type} {x : Except Error α} {kind : ErrorKind} {a : α}
    (h : FailsWith x kind) : x ≠ .ok a := by
  obtain ⟨_, rfl, _⟩ := h
  simp

end SwapCodec
