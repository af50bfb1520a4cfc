import SwapCodec.Proofs.Schema.Flaws

/-!
# Refusing arguments

Values of any kind are offered as arguments. What is not accepted is refused: the
cause has a message, and it is a validation or a range error (`Error.IsRefusal`).
There is one exception. The message about an integer that does not fit quotes the
integer, and if that has no numeral the message cannot be made, and the failure is
that of the numeral. It takes an integer with more than `Text.digitLimit` digits
somewhere in the arguments (`Value.HoldsLong`).

Here are the steps that encoding is made of. Each fails only with refusals, the
exception aside (`OnlyRefusals`), and so does what is built from steps that do: the
check of a narrow type (`ArgType.Narrow.onlyRefusals`), and the encoding of a record
by a schema whose relation only refuses (`Schema.Refusing.encode`). Reading such a
schema fails only with flaws, since every refusal is one (`Schema.Refusing.narrow`).
-/

set_option autoImplicit false

namespace SwapCodec

/-! ## The parts of a value -/

namespace Value

mutual

/-- The value and everything that is in it. -/
def parts : Value → List Value
  | list items => list items :: partsOfAll items
  | tuple items => tuple items :: partsOfAll items
  | dict entries => dict entries :: partsOfEntries entries
  | args record fields => args record fields :: partsOfFields fields
  | v => [v]

/-- The parts of each value of a list. -/
def partsOfAll : List Value → List Value
  | [] => []
  | v :: rest => parts v ++ partsOfAll rest

/-- The parts of each value of a dictionary. -/
def partsOfEntries : List (Key × Value) → List Value
  | [] => []
  | (_, v) :: rest => parts v ++ partsOfEntries rest

/-- The parts of each field of a record. -/
def partsOfFields : List (String × Value) → List Value
  | [] => []
  | (_, v) :: rest => parts v ++ partsOfFields rest

end

theorem parts_subset_partsOfAll {v : Value} {items : List Value} (mem : v ∈ items) :
    v.parts ⊆ partsOfAll items := by
  induction items with
  | nil => cases mem
  | cons first items ih =>
      rw [partsOfAll]
      rcases List.mem_cons.mp mem with rfl | later
      · exact List.subset_append_left _ _
      · exact List.subset_append_of_subset_right _ (ih later)

theorem partsOfEntries_eq (entries : List (Key × Value)) :
    partsOfEntries entries = partsOfAll (entries.map (·.2)) := by
  induction entries with
  | nil => rfl
  | cons e entries ih => rw [partsOfEntries, List.map_cons, partsOfAll, ih]

theorem partsOfFields_eq (fields : Fields) :
    partsOfFields fields = partsOfAll (fields.map (·.2)) := by
  induction fields with
  | nil => rfl
  | cons f fields ih => rw [partsOfFields, List.map_cons, partsOfAll, ih]

theorem parts_subset_tuple {v : Value} {items : List Value} (mem : v ∈ items) :
    v.parts ⊆ (tuple items).parts :=
  List.subset_cons_of_subset _ (parts_subset_partsOfAll mem)

theorem parts_subset_list {v : Value} {items : List Value} (mem : v ∈ items) :
    v.parts ⊆ (list items).parts :=
  List.subset_cons_of_subset _ (parts_subset_partsOfAll mem)

theorem parts_subset_dict {entry : Key × Value} {entries : List (Key × Value)}
    (mem : entry ∈ entries) : entry.2.parts ⊆ (dict entries).parts := by
  refine List.subset_cons_of_subset _ ?_
  rw [partsOfEntries_eq]
  exact parts_subset_partsOfAll (List.mem_map_of_mem mem)

theorem parts_subset_field {record name : String} {v : Value} {fields : Fields}
    (found : fieldOf? name fields = some v) : v.parts ⊆ (args record fields).parts := by
  obtain ⟨field, taken, rfl⟩ := Option.map_eq_some_iff.mp found
  refine List.subset_cons_of_subset _ ?_
  rw [partsOfFields_eq]
  exact parts_subset_partsOfAll (List.mem_map_of_mem (List.mem_of_find?_eq_some taken))

/-- Some integer in the value has too many digits. -/
def HoldsLong (v : Value) : Prop := ∃ n, .int n ∈ v.parts ∧ Text.decimal? n = none

theorem holdsLong_int_iff {n : Int} : (int n).HoldsLong ↔ Text.decimal? n = none := by
  constructor
  · rintro ⟨m, part, long⟩
    cases List.mem_singleton.mp part
    exact long
  · exact fun long => ⟨n, List.mem_singleton_self _, long⟩

theorem HoldsLong.mono {v w : Value} (long : v.HoldsLong) (inside : v.parts ⊆ w.parts) :
    w.HoldsLong := by
  obtain ⟨n, part, unspelled⟩ := long
  exact ⟨n, inside part, unspelled⟩

end Value

/-! ## Refusals -/

/-- The cause has a message and is a validation or a range error. -/
structure Error.IsRefusal (e : Error) : Prop where
  /-- The cause has a message. -/
  worded : e.message?.isSome = true
  /-- Arguments are refused with it. -/
  known : e.kind = .validation ∨ e.kind = .range

theorem Error.IsRefusal.isFlaw {e : Error} (h : e.IsRefusal) : e.IsFlaw := by
  refine ⟨h.worded, ?_⟩
  rcases h.known with known | known <;> rw [known] <;> rfl

theorem Error.not_isRefusal_numeralTooLong : ¬Error.numeralTooLong.IsRefusal := by
  rintro ⟨-, known⟩
  rcases known with known | known <;> cases known

/-- The computation fails only with refusals, or for lack of a numeral, and the latter
only if some integer is long. -/
def OnlyRefusals {α : Type} (long : Prop) (x : Except Error α) : Prop :=
  ∀ e, x = .error e → e.IsRefusal ∨ (long ∧ e = .numeralTooLong)

namespace OnlyRefusals

variable {α β : Type} {long longer : Prop} {x : Except Error α} {e : Error}

theorem ok (a : α) : OnlyRefusals long (.ok a) := by
  intro e failed
  cases failed

theorem fail (worded : e.message?.isSome = true) (known : e.kind = .validation ∨ e.kind = .range) :
    OnlyRefusals long (fail e : Except Error α) := by
  intro other failed
  rw [fail_eq_error worded] at failed
  cases failed
  exact .inl ⟨worded, known⟩

/-- A cause that quotes integers is replaced if one of them is long. -/
theorem fail_quoting (worded : ¬long → e.message?.isSome = true)
    (known : e.kind = .validation ∨ e.kind = .range) (quotes : e.isWordless = false)
    (replaced : e.unworded = .numeralTooLong) :
    OnlyRefusals long (SwapCodec.fail e : Except Error α) := by
  by_cases spelled : e.message?.isSome = true
  · exact .fail spelled known
  · intro other failed
    rw [SwapCodec.fail, Error.settled, quotes, Bool.false_or, if_neg spelled, replaced] at failed
    cases failed
    exact .inr ⟨not_not.mp fun short => spelled (worded short), rfl⟩

theorem mono (h : OnlyRefusals long x) (implies : long → longer) : OnlyRefusals longer x :=
  fun e failed => (h e failed).imp_right (And.imp_left implies)

theorem bind {f : α → Except Error β} (h : OnlyRefusals long x)
    (hf : ∀ a, x = .ok a → OnlyRefusals long (f a)) : OnlyRefusals long (x >>= f) := by
  cases x with
  | ok a => exact hf a rfl
  | error e =>
      intro other failed
      cases failed
      exact h e rfl

theorem checkEach {check : Value → Except Error Unit} {items : List Value}
    (h : ∀ v ∈ items, OnlyRefusals long (check v)) :
    OnlyRefusals long (ArgType.checkEach check items) := by
  induction items with
  | nil => exact .ok ()
  | cons v items ih =>
      obtain ⟨first, others⟩ := List.forall_mem_cons.mp h
      exact first.bind fun _ _ => ih others

theorem onlyFlaws (h : OnlyRefusals False x) : OnlyFlaws x := by
  intro e failed
  rcases h e failed with refusal | ⟨none, _⟩
  · exact refusal.isFlaw
  · exact none.elim

end OnlyRefusals

/-! ## Types -/

theorem onlyRefusals_checkFits {w : Width} (narrow : w.bits ≤ 256) (s : Signedness) (n : Int) :
    OnlyRefusals (Text.decimal? n = none) (checkFits s w n) := by
  rw [checkFits]
  split
  · exact .ok n
  · exact .fail_quoting
      (fun short => isSome_message?_outOfWidth narrow (Option.isSome_iff_ne_none.mpr short))
      (.inr rfl) rfl rfl

namespace ArgType

/-- Checking a value of any kind against a narrow type. -/
theorem Narrow.onlyRefusals {T : ArgType} (narrow : T.Narrow) (v : Value) :
    OnlyRefusals v.HoldsLong (T.check v) := by
  induction T generalizing v with
  | word s w =>
      refine .bind ?_ fun n _ => .ok ()
      cases v with
      | int n => exact (onlyRefusals_checkFits narrow s n).mono Value.holdsLong_int_iff.mpr
      | _ => exact .fail rfl (.inr rfl)
  | bool =>
      cases v with
      | bool b => exact .ok ()
      | _ => exact .fail rfl (.inl rfl)
  | address =>
      cases v with
      | bytes data =>
          rw [check]
          split
          · exact .ok ()
          · exact .fail rfl (.inl rfl)
      | _ => exact .fail rfl (.inl rfl)
  | traits kind =>
      cases v with
      | traits t =>
          rw [check]
          split
          · exact .ok ()
          · exact .fail rfl (.inl rfl)
      | _ => exact .fail rfl (.inl rfl)
  | array inner ih =>
      cases v with
      | tuple items =>
          rw [check]
          split
          · exact .fail rfl (.inl rfl)
          · exact .checkEach fun v mem => (ih narrow v).mono (·.mono (Value.parts_subset_tuple mem))
      | _ => exact .fail rfl (.inl rfl)

end ArgType

/-! ## Records -/

namespace Schema

/-- The schema was built for its record type from narrow types, and its relation,
asked about fields that have their types, fails only with refusals. -/
structure Refusing (s : Schema) : Prop where
  /-- The names of the entries are those of the record type. -/
  built : s.IsBuilt
  /-- The types of the entries are narrow. -/
  types : ∀ entry ∈ s.entries, entry.2.Narrow
  /-- The relation reports refusals. -/
  relation : ∀ given, checkFields s.record.name given s.entries = .ok () →
    OnlyRefusals False (s.relation given)

variable {s : Schema}

theorem onlyRefusals_checkFields {entries : List (String × ArgType)}
    (narrow : ∀ entry ∈ entries, entry.2.Narrow) (record : String) (given : Fields) :
    OnlyRefusals (Value.args record given).HoldsLong (checkFields record given entries) := by
  induction entries with
  | nil => exact .ok ()
  | cons entry entries ih =>
      obtain ⟨name, T⟩ := entry
      obtain ⟨first, others⟩ := List.forall_mem_cons.mp narrow
      rw [checkFields]
      split
      · exact .fail rfl (.inl rfl)
      · rename_i absent
        cases found : fieldOf? name given with
        | none => exact absurd (by rw [found]; rfl) absent
        | some v =>
            exact ((first.onlyRefusals v).mono (·.mono (Value.parts_subset_field found))).bind
              fun _ _ => ih others

theorem Refusing.accept (h : s.Refusing) (args : Value) :
    OnlyRefusals args.HoldsLong (s.accept args) := by
  have shape : OnlyRefusals args.HoldsLong (s.fieldsOf args) := by
    cases args with
    | args record fields =>
        rw [fieldsOf]
        split
        · exact .ok fields
        · exact .fail rfl (.inl rfl)
    | _ => exact .fail rfl (.inl rfl)
  refine shape.bind fun given taken => ?_
  obtain rfl := fieldsOf_eq_ok_iff.mp taken
  refine (onlyRefusals_checkFields h.types s.record.name given).bind fun _ checked => ?_
  exact ((h.relation given checked).mono False.elim).bind fun _ _ => .ok given

/-- Encoding fails exactly as accepting does. -/
theorem Refusing.encode (h : s.Refusing) (args : Value) :
    OnlyRefusals args.HoldsLong (s.encode args) := by
  have refusals := h.accept args
  cases accepted : s.accept args with
  | ok given =>
      obtain ⟨_, checked, _⟩ := accept_eq_ok_iff.mp accepted
      obtain ⟨_, data, -, emitted, -⟩ := exists_fieldsWire_of_check checked
      rw [encode_eq_of_emits (emits_serialize accepted emitted)]
      exact .ok data
  | error e =>
      rw [accepted] at refusals
      have stopped : (s.serialize args).toBytes = .error e := by
        rw [serialize, Encoder.toBytes_lift_bind, accepted]
        rfl
      have outside : e.kind.isStreamKind = false := by
        rcases refusals e rfl with ⟨-, known | known⟩ | ⟨-, rfl⟩
        · rw [known]
          rfl
        · rw [known]
          rfl
        · rfl
      intro other failed
      simp only [Schema.encode, stopped, outside, Bool.false_eq_true, if_false] at failed
      cases failed
      exact refusals e rfl

/-- A record whose fields have their types is refused by the relation alone. -/
theorem Refusing.check_of_checkFields (h : s.Refusing) {given : Fields}
    (checked : checkFields s.record.name given s.entries = .ok ()) :
    OnlyRefusals False (s.check (.args s.record.name given)) := by
  have shape : s.fieldsOf (.args s.record.name given) = .ok given := fieldsOf_eq_ok_iff.mpr rfl
  have related := (h.relation given checked).bind fun _ _ => OnlyRefusals.ok given
  have accepted : OnlyRefusals False (s.accept (.args s.record.name given)) := by
    rw [Schema.accept, shape]
    show OnlyRefusals False (checkFields s.record.name given s.entries >>= _)
    rw [checked]
    exact related
  exact accepted.bind fun _ _ => .ok ()

/-- A record that was read has fields of their types, so its relation reports flaws. -/
theorem Refusing.narrow (h : s.Refusing) : s.Narrow := by
  refine ⟨h.types, fun fields data formed => OnlyRefusals.onlyFlaws (h.relation _ ?_)⟩
  exact (formed.check_and_emits s.record.name
    fun field mem => formed.recordFields_of_mem h.built mem).1

end Schema

end SwapCodec
