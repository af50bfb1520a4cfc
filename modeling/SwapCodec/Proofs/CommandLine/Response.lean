import SwapCodec.Proofs.CommandLine.Invocation
import SwapCodec.Proofs.CommandLine.Run

/-!
# What is printed

A command line prints a text (`Response.Prints`) exactly when the command runs and ends
with it: a command that stops prints nothing, and what keeps a line from being read is
not that help was asked for. For a line that chooses a registry and then gives the
operands this is `Command.Registers.prints_iff`, where the run starts with the source
that the choice and the environment come to (`Arguments.begin`,
`RegistryChoice.exists_inherited`).

The commands for instructions and programs are spelled out in these terms:
`encode_prints_iff` and `decode_prints_iff` for any environment in which decoding asks for no
document, and `shown_decodeProgram` where nothing but the source of the settings comes from
the environment (`Variables.OnlySource`).
-/

set_option autoImplicit false

namespace SwapCodec.CommandLine

namespace Response

/-- The response exits without an error, and the text is all that it prints. -/
structure Prints (r : Response) (text : String) : Prop where
  /-- The exit code. -/
  exit : r.exit = 0
  /-- The line on the standard output. -/
  out : r.out = text ++ "\n"
  /-- There is no message. -/
  err : r.err = ""

/-- What a response comes to apart from the logged events. -/
def shown (r : Response) : Int × String × String := (r.exit, r.out, r.err)

theorem prints_of_shown {r : Response} {text : String} (shown : r.shown = (0, text ++ "\n", "")) :
    r.Prints text := by
  simp only [Response.shown, Prod.mk.injEq] at shown
  exact ⟨shown.1, shown.2.1, shown.2.2⟩

theorem Prints.congr {r s : Response} {text : String} (h : r.Prints text)
    (same : s.shown = r.shown) : s.Prints text :=
  prints_of_shown (by rw [same, shown, h.exit, h.out, h.err])

variable {logging : LogOptions} {log : List LogEntry} {outcome : Except Stop String}

theorem shown_ofRun (logging : LogOptions) (log : List LogEntry) (outcome : Except Stop String) :
    (ofRun logging log outcome).shown = (ofRun {} [] outcome).shown := by
  cases outcome with
  | ok text => rfl
  | error s => cases s <;> rfl

theorem append_newline_ne_empty (text : String) : "" ≠ text ++ "\n" := by
  intro same
  have chars := congrArg String.toList same
  simp at chars

/-- A run prints a text exactly when it ends with it. -/
theorem prints_ofRun_iff {text : String} :
    (ofRun logging log outcome).Prints text ↔ outcome = .ok text := by
  constructor
  · rintro ⟨exit, out, -⟩
    cases outcome with
    | error s => exact absurd out (append_newline_ne_empty text)
    | ok other =>
        have same : other ++ "\n" = text ++ "\n" := out
        rw [String.append_left_inj] at same
        rw [same]
  · rintro rfl
    exact ⟨rfl, rfl, rfl⟩

end Response

/-! ## Responses to commands -/

theorem Command.ofName?_name (c : Command) : ofName? c.name = some c := by
  cases c <;> decide

theorem Command.name_ne_overview (c : Command) : (c.name == overviewWord) = false := by
  cases c <;> decide

theorem respond_command (w : World) (c : Command) (line : List String) :
    respond w (c.name :: line) = match Invocation.read c w.environment line with
      | .error s => .ofUnread c s
      | .ok i => .ofRun i.logging (i.run w).2.log (i.run w).1 := by
  cases read : Invocation.read c w.environment line <;>
    simp only [respond, c.name_ne_overview, c.ofName?_name, read, Bool.false_eq_true, if_false]

/-- A line that says nothing about events prints what the run of its command ends with. -/
theorem prints_iff {w : World} {c : Command} {line : List String} {text : String}
    (unlogged : ∀ s ∈ line, Unlogged s)
    (unhelped : c.grammar.readAll w.environment line ≠ .error .help) :
    (respond w (c.name :: line)).Prints text ↔
      ∃ r a, Invocation.readLogging w.environment [] = .ok r ∧
        c.grammar.readAll w.environment line = .ok a ∧
        (Invocation.run ⟨c, r.1, a⟩ w).1 = .ok text := by
  -- A line that cannot be read ends with an exit code, unless it asks for help.
  have unread : ∀ s, s ≠ Stop.help → ¬ (Response.ofUnread c s).Prints text := by
    rintro (_ | _ | _ | _) other ⟨exit, -, -⟩
    · cases exit
    · exact other rfl
    · cases exit
    · cases exit
  rw [respond_command, Invocation.read, Invocation.readLogging_eq unlogged]
  cases logging : Invocation.readLogging w.environment [] with
  | error s =>
      obtain rfl := Invocation.readLogging_error logging
      refine iff_of_false (unread .usage nofun) ?_
      rintro ⟨r, a, read, -⟩
      cases read
  | ok r =>
      simp only [Except.map, Except.ok_bind]
      cases given : c.grammar.readAll w.environment line with
      | error s =>
          refine iff_of_false (unread s ?_) ?_
          · rintro rfl
            exact unhelped given
          · rintro ⟨r, a, -, read, -⟩
            cases read
      | ok a =>
          constructor
          · intro printed
            exact ⟨r, a, rfl, rfl, Response.prints_ofRun_iff.mp printed⟩
          · rintro ⟨r', a', same, same', ended⟩
            cases same
            cases same'
            exact Response.prints_ofRun_iff.mpr ended

namespace Command.Registers

variable {c : Command} {w : World} {k : RegistryChoice} {texts : List String}

theorem unlogged_line (named : k.Named) (single : ∀ s ∈ texts, Single s) :
    ∀ s ∈ k.words ++ texts, Unlogged s := by
  intro s within
  rcases List.mem_append.mp within with word | text
  · exact k.unlogged_words named s word
  · exact (single s text).unlogged

/-- **Responses.** A line that makes a choice and then gives the operands prints what the run
of the command ends with. -/
theorem prints_iff (h : c.Registers w.environment) (named : k.Named)
    (count : c.grammar.operands.length = texts.length) (single : ∀ s ∈ texts, Single s)
    (words : ∀ s ∈ texts, c.grammar.Reads s (.operand s)) {text : String} :
    (respond w (c.name :: (k.words ++ texts))).Prints text ↔
      ∃ r a, Invocation.readLogging w.environment [] = .ok r ∧
        k.inherited w.environment = .ok a ∧
        (Invocation.run ⟨c, r.1, (k.give a).fill c.grammar.operands texts⟩ w).1 = .ok text := by
  have given := h.readAll_eq named count single words
  have unhelped : c.grammar.readAll w.environment (k.words ++ texts) ≠ .error .help := by
    rw [given]
    cases inherited : k.inherited w.environment with
    | ok a => exact nofun
    | error s =>
        obtain rfl := Grammar.inherit_error inherited
        exact nofun
  rw [CommandLine.prints_iff (unlogged_line named single) unhelped, given]
  cases k.inherited w.environment with
  | error s => simp [Except.map]
  | ok a => simp [Except.map]

/-- A line that makes a choice and then gives the operands is responded to as the run of the
command. -/
theorem respond_eq (h : c.Registers w.environment) (named : k.Named)
    (count : c.grammar.operands.length = texts.length) (single : ∀ s ∈ texts, Single s)
    (words : ∀ s ∈ texts, c.grammar.Reads s (.operand s)) {logging : LogOptions} {a : Arguments}
    (logged : Invocation.readLogging w.environment [] = .ok (logging, []))
    (inherited : k.inherited w.environment = .ok a) :
    let i : Invocation := ⟨c, logging, (k.give a).fill c.grammar.operands texts⟩
    respond w (c.name :: (k.words ++ texts)) = .ofRun logging (i.run w).2.log (i.run w).1 := by
  rw [respond_command, Invocation.read, Invocation.readLogging_eq (unlogged_line named single),
    logged]
  simp only [Except.map, Except.ok_bind]
  rw [h.readAll_eq named count single words, inherited]
  rfl

end Command.Registers

/-! ## Environments without options -/

/-- Every option of the program. -/
def allOptions : List CommandOption :=
  outputGrammar.options ++ detailGrammar.options ++ Command.all.flatMap (·.grammar.options)

/-- No option comes from the environment, except for the source of the settings. -/
def Variables.OnlySource (env : Variables) : Prop :=
  ∀ o ∈ allOptions, o ≠ configOption → env.lookup o.variable = none

namespace Variables.OnlySource

variable {env : Variables}

theorem unset (h : env.OnlySource) {os : List CommandOption}
    (others : ∀ o ∈ os, o ∈ allOptions ∧ o ≠ configOption) :
    ∀ o ∈ os, env.lookup o.variable = none := by
  intro o mem
  exact h o (others o mem).1 (others o mem).2

theorem readLogging_eq (h : env.OnlySource) :
    Invocation.readLogging env [] = .ok ({}, []) := by
  rw [Invocation.readLogging, outputGrammar_readKnown (List.forall_mem_nil _),
    Grammar.inherit_of_unset (h.unset (by decide))]
  simp only [Except.map, Except.ok_bind]
  rw [detailGrammar_readKnown (List.forall_mem_nil _),
    Grammar.inherit_of_unset (h.unset (by decide))]
  rfl

theorem registers_decodeProgram (h : env.OnlySource) : Command.decodeProgram.Registers env := by
  apply CommandLine.registers_decodeProgram
  · exact h jsonOption (by decide) (by decide)
  · exact h maxLengthOption (by decide) (by decide)

end Variables.OnlySource

/-! ## Beginnings -/

/-- The beginning of a run with the given arguments, whatever the command. -/
def Arguments.begin (a : Arguments) (w : World) : Progress where
  session := { source := Invocation.source ⟨.listOpcodes, {}, a⟩ w.environment }

namespace Invocation

variable {i : Invocation} {env : Variables}

theorem source_of_named {name : String}
    (named : i.arguments.text? opcodeSetOption.name = some name) :
    i.source env = env.lookup sourceVariable := by
  simp [source, named]

theorem source_of_given (unnamed : i.arguments.text? opcodeSetOption.name = none) {s : String}
    (given : i.arguments.text? configOption.name = some s) (filled : s ≠ "") :
    i.source env = some s := by
  simp [source, unnamed, given, filled]

/-- Without a source on the command line, the one of the environment is used. -/
theorem source_of_not_given (unnamed : i.arguments.text? opcodeSetOption.name = none)
    (inherited : i.arguments.text? configOption.name = none ∨
      i.arguments.text? configOption.name = env.lookup sourceVariable) :
    i.source env = env.lookup sourceVariable := by
  rw [source, unnamed]
  rcases inherited with none | same
  · rw [none]
    rfl
  · rw [same]
    cases env.lookup sourceVariable with
    | none => rfl
    | some s =>
        show ((if (!s.isEmpty) = true then some s else none) <|> some s) = some s
        split <;> rfl

end Invocation

namespace RegistryChoice

variable {k : RegistryChoice}

/-- The source from which the settings are loaded: the one that is chosen, unless a table is
chosen too, or else the one of the environment. -/
def sourceIn (k : RegistryChoice) (env : Variables) : Option String :=
  match k.set, k.source with
  | none, some s => some s
  | _, _ => env.lookup sourceVariable

/-- A run begins with the source that is chosen. -/
theorem exists_inherited {w : World} (named : k.Named) (filled : k.source ≠ some "")
    (unset : k.set = none → w.environment.lookup opcodeSetOption.variable = none) :
    ∃ a, k.inherited w.environment = .ok a ∧
      (k.give a).text? opcodeSetOption.name = k.set.map (·.name) ∧
      (k.give a).begin w = { session := { source := k.sourceIn w.environment } } := by
  refine ⟨_, inherited_eq named unset, ?_⟩
  cases set : k.set with
  | some S =>
      refine ⟨text?_give_set set _, ?_⟩
      rw [Arguments.begin, Invocation.source_of_named (text?_give_set set _), sourceIn, set]
  | none =>
      rcases k with ⟨_ | s, _⟩ <;> cases set
      · simp only [Option.isSome_none, Bool.false_eq_true, if_false, give, sourceIn]
        cases source : w.environment.lookup sourceVariable with
        | none =>
            refine ⟨rfl, ?_⟩
            rw [Arguments.begin, Invocation.source_of_not_given rfl (.inl rfl), source]
        | some s =>
            refine ⟨rfl, ?_⟩
            rw [Arguments.begin, Invocation.source_of_not_given rfl, source]
            rw [source]
            dsimp only
            cases s == separatorMark
            · exact .inr Arguments.text?_give_self
            · exact .inl rfl
      · refine ⟨rfl, ?_⟩
        rw [Arguments.begin, Invocation.source_of_given rfl Arguments.text?_give_self
          (by simpa using filled)]
        rfl

end RegistryChoice

/-! ## Instructions -/

/-- The command line of an instruction works with the registry. -/
def RegistryChoice.Chooses (k : RegistryChoice) (w : World) (R : Registry) : Prop :=
  ∃ r a, Invocation.readLogging w.environment [] = .ok r ∧ k.inherited w.environment = .ok a ∧
    (activeRegistry w (k.give a) ((k.give a).begin w)).1 = .ok R

section

variable {w : World} {k : RegistryChoice}

theorem RegistryChoice.Chooses.exists_set {R : Registry} (h : k.Chooses w R) :
    ∃ S, R = .ofSet S := by
  obtain ⟨r, a, -, -, active⟩ := h
  exact exists_set_of_activeRegistry rfl active

/-- A run begins where the options that choose a registry say. -/
theorem run_congr (c : Command) (logging : LogOptions) {a b : Arguments}
    (config : b.text? configOption.name = a.text? configOption.name)
    (set : b.text? opcodeSetOption.name = a.text? opcodeSetOption.name) (w : World) :
    Invocation.run ⟨c, logging, b⟩ w = c.run w b (a.begin w) := by
  simp only [Invocation.run, Arguments.begin, Invocation.source, config, set]

/-- The table that is named is chosen, or else the one of the settings. -/
theorem Variables.OnlySource.chooses (h : w.environment.OnlySource) (named : k.Named)
    (filled : k.source ≠ some "") {X : Settings}
    (described : w.described (k.sourceIn w.environment) = .ok X) :
    k.Chooses w (.ofSet (k.set.getD X.opcodeSet)) := by
  obtain ⟨a, inherited, table, begins⟩ := k.exists_inherited named filled
    fun _ => h opcodeSetOption (by decide) (by decide)
  refine ⟨_, a, h.readLogging_eq, inherited, ?_⟩
  rw [begins]
  exact (activeRegistry_of_source table described).1

/-- Operands make no difference to where a run begins. -/
theorem run_fill (c : Command) (logging : LogOptions) {a : Arguments} {ps : List Operand}
    (apart : ∀ p ∈ ps, configOption.name ≠ p.name ∧ opcodeSetOption.name ≠ p.name)
    (texts : List String) (w : World) :
    Invocation.run ⟨c, logging, a.fill ps texts⟩ w = c.run w (a.fill ps texts) (a.begin w) := by
  apply run_congr
  · exact Arguments.text?_congr (Arguments.lookup_fill_of_ne (fun p mem => (apart p mem).1) texts)
  · exact Arguments.text?_congr (Arguments.lookup_fill_of_ne (fun p mem => (apart p mem).2) texts)

/-- **Encoding.** What is printed are the bytes of the instruction. -/
theorem encode_prints_iff (named : k.Named) {name json text : String} (plain : Plain name)
    (single : Single json)
    (word : Command.encodeInstruction.grammar.Reads json (.operand json)) :
    (respond w ("encode_instruction" :: (k.words ++ [name, json]))).Prints text ↔
      ∃ R, k.Chooses w R ∧ ∃ document, Json.read json = .ok document ∧
      ∃ o, Opcode.ofName? name = some o ∧ ∃ args, R.argsOfJson (.opcode o) document = .ok args ∧
      ∃ data, R.encode (.opcode o) args = .ok data ∧ "0x" ++ Text.hexOfBytes data = text := by
  have ends : ∀ r a, (Invocation.run ⟨.encodeInstruction, r,
      (k.give a).fill Command.encodeInstruction.grammar.operands [name, json]⟩ w).1 = .ok text ↔
        ∃ R, (activeRegistry w (k.give a) ((k.give a).begin w)).1 = .ok R ∧
        ∃ document, Json.read json = .ok document ∧ ∃ o, Opcode.ofName? name = some o ∧
        ∃ args, R.argsOfJson (.opcode o) document = .ok args ∧
        ∃ data, R.encode (.opcode o) args = .ok data ∧ "0x" ++ Text.hexOfBytes data = text := by
    intro r a
    rw [run_fill _ _ (by decide)]
    show (encodeInstruction w _ _).1 = _ ↔ _
    rw [encodeInstruction_ends_iff,
      activeRegistry_congr (Arguments.text?_congr (Arguments.lookup_fill_of_ne (by decide) _))]
    rfl
  have printed : (respond w (Command.encodeInstruction.name :: (k.words ++ [name, json]))).Prints
      text ↔ _ := (registers_encodeInstruction w.environment).prints_iff named rfl
    (by simpa using ⟨plain.single, single⟩) (by simpa using ⟨Grammar.reads_of_plain _ plain, word⟩)
  refine printed.trans ?_
  simp only [ends]
  constructor
  · rintro ⟨r, a, logging, inherited, R, active, rest⟩
    exact ⟨R, ⟨r, a, logging, inherited, active⟩, rest⟩
  · rintro ⟨R, ⟨r, a, logging, inherited, active⟩, rest⟩
    exact ⟨r, a, logging, inherited, R, active, rest⟩

/-- **Decoding.** What is printed is the name of the opcode and the document of the arguments. -/
theorem decode_prints_iff (plainly : w.environment.lookup jsonOption.variable = none)
    (named : k.Named) {data text : String} (plain : Plain data) :
    (respond w ("decode_instruction" :: (k.words ++ [data]))).Prints text ↔
      ∃ R, k.Chooses w R ∧
      ∃ bytes, Text.bytesOfHex? (Text.dropHexMarker data) = some bytes ∧
      ∃ i, R.decode bytes = .ok i ∧ ∃ document, argsDocument R i = .ok document ∧
      ∃ line, Json.compact document = .ok line ∧ i.opcode.dotted ++ " " ++ line = text := by
  have ends : ∀ r a, k.inherited w.environment = .ok a → ((Invocation.run ⟨.decodeInstruction, r,
      (k.give a).fill Command.decodeInstruction.grammar.operands [data]⟩ w).1 = .ok text ↔
        ∃ R, (activeRegistry w (k.give a) ((k.give a).begin w)).1 = .ok R ∧
        ∃ bytes, Text.bytesOfHex? (Text.dropHexMarker data) = some bytes ∧
        ∃ i, R.decode bytes = .ok i ∧ ∃ document, argsDocument R i = .ok document ∧
        ∃ line, Json.compact document = .ok line ∧ i.opcode.dotted ++ " " ++ line = text) := by
    intro r a inherited
    have json : ((k.give a).fill Command.decodeInstruction.grammar.operands [data]).has
        jsonOption.name = false := by
      apply Arguments.has_eq_false
      rw [Arguments.lookup_fill_of_ne (by decide)]
      exact RegistryChoice.lookup_eq_none inherited (by decide)
    rw [run_fill _ _ (by decide)]
    show (decodeInstruction w _ _).1 = _ ↔ _
    rw [decodeInstruction_ends_iff json,
      activeRegistry_congr (Arguments.text?_congr (Arguments.lookup_fill_of_ne (by decide) _))]
    rfl
  have printed : (respond w (Command.decodeInstruction.name :: (k.words ++ [data]))).Prints
      text ↔ _ := (registers_decodeInstruction plainly).prints_iff named rfl
    (by simpa using plain.single) (by simpa using Grammar.reads_of_plain _ plain)
  refine printed.trans ?_
  constructor
  · rintro ⟨r, a, logging, inherited, ended⟩
    obtain ⟨R, active, rest⟩ := (ends r.1 a inherited).mp ended
    exact ⟨R, ⟨r, a, logging, inherited, active⟩, rest⟩
  · rintro ⟨R, ⟨r, a, logging, inherited, active⟩, rest⟩
    exact ⟨r, a, logging, inherited, (ends r.1 a inherited).mpr ⟨R, active, rest⟩⟩

end

/-! ## Programs -/

section

variable {w : World} {k : RegistryChoice} {text : String}

/-- The command line of a program runs the command with the choice and the text. -/
theorem exists_run_decodeProgram (env : w.environment.OnlySource) (named : k.Named)
    (filled : k.source ≠ some "") (plain : Plain text) :
    ∃ a : Arguments, a.text? opcodeSetOption.name = k.set.map (·.name) ∧
      a.operand dataOperand.name = text ∧ a.has jsonOption.name = false ∧
      a.integer? maxLengthOption.name = none ∧
      let out := decodeProgram w a { session := { source := k.sourceIn w.environment } }
      respond w ("decode_program" :: (k.words ++ [text])) = .ofRun {} out.2.log out.1 := by
  obtain ⟨a, inherited, table, begins⟩ := k.exists_inherited named filled
    fun _ => env opcodeSetOption (by decide) (by decide)
  let b := (k.give a).fill Command.decodeProgram.grammar.operands [text]
  have nothing : ∀ o : CommandOption,
      (∀ p ∈ Command.decodeProgram.grammar.operands, o.name ≠ p.name) →
      (∀ p ∈ registryGrammar.options, o.name ≠ p.name) → b.given.lookup o.name = none := by
    intro o apart others
    rw [Arguments.lookup_fill_of_ne apart]
    exact RegistryChoice.lookup_eq_none inherited others
  refine ⟨b, ?_, Arguments.operand_give_self, ?_, ?_, ?_⟩
  · rw [Arguments.text?_congr (Arguments.lookup_fill_of_ne (by decide) _), table]
  · exact Arguments.has_eq_false (nothing jsonOption (by decide) (by decide))
  · exact Arguments.integer?_eq_none (nothing maxLengthOption (by decide) (by decide))
  · have responded := env.registers_decodeProgram.respond_eq named rfl
      (List.forall_mem_singleton.mpr plain.single)
      (List.forall_mem_singleton.mpr (Grammar.reads_of_plain _ plain)) env.readLogging_eq inherited
    dsimp only at responded
    rw [run_fill _ _ (by decide), begins] at responded
    exact responded

/-- A program line shows what the registry and the limit of the settings make of the program,
where a table that is named stands in for theirs. -/
theorem shown_decodeProgram (env : w.environment.OnlySource) (named : k.Named)
    (filled : k.source ≠ some "") (plain : Plain text) {X : Settings}
    (described : w.described (k.sourceIn w.environment) = .ok X) :
    (respond w ("decode_program" :: (k.words ++ [text]))).shown =
      (Response.ofRun {} [] (programText (.ofSet (k.set.getD X.opcodeSet))
        (.ok X.maxProgramLength) text)).shown := by
  obtain ⟨a, table, data, json, limit, responded⟩ := exists_run_decodeProgram env named filled plain
  have ended : (decodeProgram w a { session := { source := k.sourceIn w.environment } }).1 =
      programText (.ofSet (k.set.getD X.opcodeSet)) (.ok X.maxProgramLength) text := by
    obtain ⟨active, loaded⟩ := activeRegistry_of_source table described
    rw [fst_decodeProgram json limit, data, active, loaded]
    rfl
  rw [responded, Response.shown_ofRun, ended]

/-- A program that the registry decodes is printed as its listing. -/
theorem decodeProgram_prints (env : w.environment.OnlySource) (named : k.Named)
    (filled : k.source ≠ some "") (plain : Plain text) {X : Settings}
    (described : w.described (k.sourceIn w.environment) = .ok X) {data : List UInt8}
    (bytes : Text.bytesOfHex? (Text.dropHexMarker text) = some data) {is : List Instruction}
    (decoded : (Registry.ofSet (k.set.getD X.opcodeSet)).decodeProgram data X.maxProgramLength =
      .ok is) {lines : String}
    (listed : (Registry.ofSet (k.set.getD X.opcodeSet)).listing (is.map Instruction.toPair) =
      .ok lines) :
    (respond w ("decode_program" :: (k.words ++ [text]))).Prints lines := by
  have ended := programText_eq_ok bytes decoded listed
  have shown := shown_decodeProgram env named filled plain described
  rw [ended] at shown
  exact Response.prints_of_shown shown

end

end SwapCodec.CommandLine
