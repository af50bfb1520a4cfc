import SwapCodec.CommandLine.Response
import SwapCodec.Proofs.Settings.Session

/-!
# What runs end with

The result of a run is that of its steps (`Run.fst_bind`), and most steps leave alone
what has been done so far. So a command ends with a text exactly when each of its parts
gives a result: the registry, what is read, and what is computed from it
(`encodeInstruction_ends_iff`, `decodeInstruction_ends_iff`).

The registry is the one of the table that the arguments name
(`activeRegistry_of_named`), or else the one of the settings (`activeRegistry_of_described`);
a run that has just begun has no other (`exists_set_of_activeRegistry`). A program is read
with the limit of the settings, and these are loaded for the limit if they have not
been loaded for the registry (`fst_decodeProgram`).
-/

set_option autoImplicit false

namespace SwapCodec.CommandLine

/-! ## Steps -/

namespace Run

variable {α β : Type}

/-- The result of a run of two parts. -/
theorem fst_bind (x : Run α) (f : α → Run β) (p : Progress) :
    ((x >>= f) p).1 = (x p).1 >>= fun a => (f a (x p).2).1 := by
  rw [bind_apply]
  rcases x p with ⟨_ | _, _⟩ <;> rfl

theorem bind_of_fst {x : Run α} {p : Progress} {a : α} (step : (x p).1 = .ok a) (f : α → Run β) :
    (x >>= f) p = f a (x p).2 := by
  rw [bind_apply]
  rcases given : x p with ⟨_ | _, _⟩ <;> rw [given] at step <;> cases step
  rfl

@[simp] theorem fst_pure (a : α) (p : Progress) : ((pure a : Run α) p).1 = .ok a := rfl

@[simp] theorem fst_check (r : Except Error α) (p : Progress) :
    (check r p).1 = r.mapError Stop.ofError := rfl

@[simp] theorem snd_check (r : Except Error α) (p : Progress) : (check r p).2 = p := rfl

theorem fst_require (r : Option α) (why : Refusal) (p : Progress) :
    (require r why p).1 = r.elim (.error (.refused why)) .ok := by
  cases r <;> rfl

@[simp] theorem snd_require (r : Option α) (why : Refusal) (p : Progress) :
    (require r why p).2 = p := by
  cases r <;> rfl

@[simp] theorem fst_require_eq_ok_iff {r : Option α} {why : Refusal} {p : Progress} {a : α} :
    (require r why p).1 = .ok a ↔ r = some a := by
  cases r <;> simp [require]

@[simp] theorem mapError_ok {ε δ : Type} (g : ε → δ) (a : α) :
    (Except.ok a : Except ε α).mapError g = .ok a := rfl

@[simp] theorem mapError_eq_ok_iff {ε δ : Type} {g : ε → δ} {r : Except ε α} {a : α} :
    r.mapError g = .ok a ↔ r = .ok a := by
  cases r with
  | ok b => rw [mapError_ok, Except.ok.injEq, Except.ok.injEq]
  | error e => exact iff_of_false Except.error_ne_ok Except.error_ne_ok

@[simp] theorem fst_inSession (step : SessionM α) (p : Progress) :
    (inSession step p).1 = (step p.session).1.mapError Stop.ofError := rfl

@[simp] theorem session_inSession (step : SessionM α) (p : Progress) :
    (inSession step p).2.session = (step p.session).2 := rfl

end Run

@[simp] theorem fst_announceLoading (p : Progress) : (announceLoading p).1 = .ok () := by
  rw [announceLoading]
  cases p.session.loaded <;> rfl

@[simp] theorem session_announceLoading (p : Progress) :
    (announceLoading p).2.session = p.session := by
  rw [announceLoading]
  cases p.session.loaded <;> rfl

@[simp] theorem snd_readDocument (s : String) (p : Progress) : (readDocument s p).2 = p := by
  rw [readDocument]
  rcases Json.read s with (_ | _) | v <;> rfl

@[simp] theorem fst_readDocument_eq_ok_iff {s : String} {p : Progress} {v : Value} :
    (readDocument s p).1 = .ok v ↔ Json.read s = .ok v := by
  rw [readDocument]
  rcases Json.read s with (_ | _) | u <;> simp [Run.refuse, Run.stop]

/-! ## Settings and registries -/

section

variable {w : World} {a : Arguments} {p : Progress} {R : Registry} {X : Settings}

theorem fst_settings (w : World) (p : Progress) :
    (settings w p).1 = (Session.settings w.files p.session).1.mapError Stop.ofError := by
  rw [settings, Run.fst_bind, fst_announceLoading, Except.ok_bind, Run.fst_inSession,
    session_announceLoading]

theorem activeRegistry_congr {b : Arguments}
    (same : a.text? opcodeSetOption.name = b.text? opcodeSetOption.name) :
    activeRegistry w a = activeRegistry w b := by
  rw [activeRegistry, activeRegistry, same]

theorem ofName_name (S : OpcodeSet) : Registry.ofName (.str S.name) = .ok (.ofSet S) := by
  cases S <;> rfl

/-- A table that is named is used, and the session is not. -/
theorem activeRegistry_of_named {S : OpcodeSet}
    (named : a.text? opcodeSetOption.name = some S.name) :
    (activeRegistry w a p).1 = .ok (.ofSet S) ∧ (activeRegistry w a p).2.session = p.session := by
  have step : (Run.check (Registry.ofName (.str S.name)) p).1 = .ok (.ofSet S) := by
    rw [ofName_name, Run.fst_check, Run.mapError_ok]
  rw [activeRegistry, named]
  dsimp only
  rw [Run.bind_of_fst step]
  exact ⟨rfl, rfl⟩

/-- Without a table the settings are loaded, and theirs is used. -/
theorem activeRegistry_of_described (unnamed : a.text? opcodeSetOption.name = none)
    (fresh : p.session.loaded = none) (unbuilt : p.session.registry = none)
    (described : p.session.described w.files = .ok X) :
    (activeRegistry w a p).1 = .ok (.ofSet X.opcodeSet) ∧
      (activeRegistry w a p).2.session = { p.session with
        loaded := some (p.session.wanted, X), registry := some (.ofSet X.opcodeSet) } := by
  have built := Session.defaultRegistry_of_settings unbuilt
    (Session.settings_of_described fresh described)
  have step : (Run.inSession (Session.defaultRegistry w.files) (announceLoading p).2).1 =
      .ok (.ofSet X.opcodeSet) := by
    rw [Run.fst_inSession, session_announceLoading, built, Run.mapError_ok]
  rw [activeRegistry, unnamed]
  dsimp only
  rw [Run.bind_of_fst (fst_announceLoading p), Run.bind_of_fst step]
  refine ⟨rfl, ?_⟩
  show (Run.inSession (Session.defaultRegistry w.files) (announceLoading p).2).2.session = _
  rw [Run.session_inSession, session_announceLoading, built]

/-- The settings that are loaded from a source, or from the default one. -/
def World.described (w : World) (source : Option String) : Except Error Settings :=
  Session.described w.files { source := source }

/-- A run that has just begun works with the settings of its source, except for the table that is
named. -/
theorem activeRegistry_of_source {source : Option String} {T : Option OpcodeSet}
    (table : a.text? opcodeSetOption.name = T.map (·.name))
    (described : w.described source = .ok X) :
    let q := activeRegistry w a { session := { source := source } }
    q.1 = .ok (.ofSet (T.getD X.opcodeSet)) ∧ (settings w q.2).1 = .ok X := by
  cases T with
  | some S =>
      obtain ⟨active, session⟩ := activeRegistry_of_named (w := w)
        (p := { session := { source := source } }) table
      refine ⟨active, ?_⟩
      rw [fst_settings, session, Session.settings_of_described rfl described]
      rfl
  | none =>
      obtain ⟨active, session⟩ := activeRegistry_of_described (w := w)
        (p := { session := { source := source } }) table rfl rfl described
      refine ⟨active, ?_⟩
      rw [fst_settings, session, Session.settings_of_wanted rfl]
      rfl

/-- A run that has just begun works with the registry of a published table. -/
theorem exists_set_of_activeRegistry (unbuilt : p.session.registry = none)
    (active : (activeRegistry w a p).1 = .ok R) : ∃ S, R = .ofSet S := by
  rw [activeRegistry] at active
  cases named : a.text? opcodeSetOption.name with
  | some s =>
      simp only [named, Run.fst_bind, Except.bind_eq_ok_iff, Run.fst_check,
        Run.mapError_eq_ok_iff] at active
      obtain ⟨T, table, -, -, same⟩ := active
      cases same
      rw [Registry.ofName] at table
      split at table
      · cases table
        exact ⟨_, rfl⟩
      · exact absurd table fail_ne_ok
  | none =>
      simp only [named, Run.fst_bind, Except.bind_eq_ok_iff, Run.fst_inSession,
        Run.mapError_eq_ok_iff, session_announceLoading] at active
      obtain ⟨-, -, T, built, -, -, same⟩ := active
      cases same
      rw [Session.defaultRegistry, unbuilt] at built
      dsimp only at built
      split at built
      · cases built
        exact ⟨_, rfl⟩
      · cases built

end

/-! ## Commands -/

section

variable {w : World} {a : Arguments} {p : Progress} {text : String}

/-- An instruction is encoded from the document of its arguments. -/
theorem encodeInstruction_ends_iff :
    (encodeInstruction w a p).1 = .ok text ↔
      ∃ R, (activeRegistry w a p).1 = .ok R ∧
      ∃ document, Json.read (a.operand argsOperand.name) = .ok document ∧
      ∃ o, Opcode.ofName? (a.operand opcodeOperand.name) = some o ∧
      ∃ args, R.argsOfJson (.opcode o) document = .ok args ∧
      ∃ data, R.encode (.opcode o) args = .ok data ∧ "0x" ++ Text.hexOfBytes data = text := by
  rw [encodeInstruction]
  simp only [Run.fst_bind, Except.bind_eq_ok_iff, fst_readDocument_eq_ok_iff, snd_readDocument,
    Run.fst_require_eq_ok_iff, Run.snd_require, Run.fst_check, Run.mapError_eq_ok_iff,
    Run.snd_check, Run.fst_pure, Except.ok.injEq]

/-- An instruction is printed with the document of its arguments. -/
theorem decodeInstruction_ends_iff (plain : a.has jsonOption.name = false) :
    (decodeInstruction w a p).1 = .ok text ↔
      ∃ R, (activeRegistry w a p).1 = .ok R ∧
      ∃ data, Text.bytesOfHex? (Text.dropHexMarker (a.operand dataOperand.name)) = some data ∧
      ∃ i, R.decode data = .ok i ∧ ∃ document, argsDocument R i = .ok document ∧
      ∃ line, Json.compact document = .ok line ∧ i.opcode.dotted ++ " " ++ line = text := by
  rw [decodeInstruction]
  simp only [Run.fst_bind, Except.bind_eq_ok_iff, readHex, plain, Bool.false_eq_true, if_false,
    Run.fst_require_eq_ok_iff, Run.snd_require, Run.fst_check, Run.mapError_eq_ok_iff,
    Run.snd_check, Run.fst_pure, Except.ok.injEq]

/-- Where a document is asked for, an instruction is printed as one. -/
theorem decodeInstruction_document_iff (documented : a.has jsonOption.name = true) :
    (decodeInstruction w a p).1 = .ok text ↔
      ∃ R, (activeRegistry w a p).1 = .ok R ∧
      ∃ data, Text.bytesOfHex? (Text.dropHexMarker (a.operand dataOperand.name)) = some data ∧
      ∃ i, R.decode data = .ok i ∧ ∃ args, argsDocument R i = .ok args ∧
      ∃ index, R.discriminatorOf (.opcode i.opcode) = .ok index ∧
        Json.indented (.record [("discriminator", .int index), ("opcode", .str i.opcode.dotted),
          ("args", args)]) = .ok text := by
  rw [decodeInstruction]
  simp only [Run.fst_bind, Except.bind_eq_ok_iff, readHex, documented, if_true,
    Run.fst_require_eq_ok_iff, Run.snd_require, Run.fst_check, Run.mapError_eq_ok_iff,
    Run.snd_check]

/-- The listing of a program, which is read with a limit. -/
def programText (R : Registry) (limit : Except Stop Int) (text : String) : Except Stop String := do
  let data ← (Text.bytesOfHex? (Text.dropHexMarker text)).elim
    (.error (.refused (.badHex text))) .ok
  let n ← limit
  let is ← (R.decodeProgram data n).mapError Stop.ofError
  (R.listing (is.map Instruction.toPair)).mapError Stop.ofError

theorem programText_eq_ok {R : Registry} {limit : Int} {data : List UInt8} {is : List Instruction}
    {lines : String} (bytes : Text.bytesOfHex? (Text.dropHexMarker text) = some data)
    (decoded : R.decodeProgram data limit = .ok is)
    (listed : R.listing (is.map Instruction.toPair) = .ok lines) :
    programText R (.ok limit) text = .ok lines := by
  rw [programText, bytes]
  simp only [Option.elim_some, Except.ok_bind, decoded, Run.mapError_ok, listed]

theorem decodeProgram_congr {b : Arguments}
    (table : a.text? opcodeSetOption.name = b.text? opcodeSetOption.name)
    (data : a.operand dataOperand.name = b.operand dataOperand.name)
    (limit : a.integer? maxLengthOption.name = b.integer? maxLengthOption.name)
    (json : a.has jsonOption.name = b.has jsonOption.name) :
    decodeProgram w a = decodeProgram w b := by
  rw [decodeProgram, decodeProgram, activeRegistry_congr table, data, limit, json]

/-- Without a limit of its own a program is read with the limit of the settings. -/
theorem fst_decodeProgram (plain : a.has jsonOption.name = false)
    (unlimited : a.integer? maxLengthOption.name = none) :
    (decodeProgram w a p).1 = (activeRegistry w a p).1 >>= fun R =>
      programText R ((settings w (activeRegistry w a p).2).1.map (·.maxProgramLength))
        (a.operand dataOperand.name) := by
  rw [decodeProgram]
  simp only [Run.fst_bind, readHex, Run.fst_require, Run.snd_require, unlimited, plain,
    Bool.false_eq_true, if_false, Run.fst_check, Run.snd_check, programText]
  cases (settings w (activeRegistry w a p).2).1 <;> rfl

/-- Where a document is asked for, a program is printed as one. -/
theorem decodeProgram_document_iff (documented : a.has jsonOption.name = true)
    (unlimited : a.integer? maxLengthOption.name = none) :
    (decodeProgram w a p).1 = .ok text ↔
      ∃ R, (activeRegistry w a p).1 = .ok R ∧
      ∃ data, Text.bytesOfHex? (Text.dropHexMarker (a.operand dataOperand.name)) = some data ∧
      ∃ X, (settings w (activeRegistry w a p).2).1 = .ok X ∧
      ∃ is, R.decodeProgram data X.maxProgramLength = .ok is ∧
      ∃ document, programDocument R is = .ok document ∧ Json.indented document = .ok text := by
  rw [decodeProgram]
  simp only [Run.fst_bind, Except.bind_eq_ok_iff, readHex, unlimited, documented, if_true,
    Run.fst_require_eq_ok_iff, Run.snd_require, Run.fst_check, Run.mapError_eq_ok_iff,
    Run.snd_check, Run.fst_pure, Except.ok.injEq, exists_eq_left']

end

end SwapCodec.CommandLine
