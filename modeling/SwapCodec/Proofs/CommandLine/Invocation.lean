import SwapCodec.CommandLine.Response
import SwapCodec.Proofs.CommandLine.Environment

/-!
# Choosing a registry

A command line may name the source of the settings or the table of opcodes, or both
(`RegistryChoice`). What is chosen this way is added to what the environment gives for
the same options (`RegistryChoice.inherited`), and this is the same for every command
that works with a registry and has nothing else from the environment
(`Command.Registers`). So a line that makes a choice and then gives the operands is read
as just that (`Command.Registers.readAll_eq`).

The options that say how events are logged are looked for in the whole line, but a line
that has nothing to do with them is passed on as it is (`Invocation.readLogging_eq`).
-/

set_option autoImplicit false

namespace SwapCodec.CommandLine

/-! ## Events -/

/-- The word has nothing to do with the options that say how events are logged. -/
def Unlogged (s : String) : Prop := outputGrammar.Passes s ∧ detailGrammar.Passes s

instance (s : String) : Decidable (Unlogged s) := inferInstanceAs (Decidable (_ ∧ _))

theorem Single.unlogged {s : String} (single : Single s) : Unlogged s :=
  ⟨Grammar.passes_of_single rfl single, Grammar.passes_of_single rfl single⟩

section

variable {env : Variables} {line : List String}

theorem outputGrammar_readKnown (unlogged : ∀ s ∈ line, Unlogged s) :
    outputGrammar.readKnown env line = (outputGrammar.inherit env [] outputGrammar.options {}).map
      fun a => { a with unknown := line } :=
  Grammar.readKnown_of_passes (by decide) rfl fun s within => (unlogged s within).1

theorem detailGrammar_readKnown (unlogged : ∀ s ∈ line, Unlogged s) :
    detailGrammar.readKnown env line = (detailGrammar.inherit env [] detailGrammar.options {}).map
      fun a => { a with unknown := line } :=
  Grammar.readKnown_of_passes (by decide) rfl fun s within => (unlogged s within).2

/-- How events are logged depends on the environment alone, unless the line says it. -/
theorem Invocation.readLogging_eq (unlogged : ∀ s ∈ line, Unlogged s) :
    readLogging env line = (readLogging env []).map fun r => (r.1, line) := by
  rw [readLogging, readLogging, outputGrammar_readKnown unlogged,
    outputGrammar_readKnown (List.forall_mem_nil _)]
  cases outputGrammar.inherit env [] outputGrammar.options {} with
  | error s => rfl
  | ok a =>
      simp only [Except.map, Except.ok_bind]
      rw [detailGrammar_readKnown unlogged, detailGrammar_readKnown (List.forall_mem_nil _)]
      cases detailGrammar.inherit env [] detailGrammar.options {} <;> rfl

theorem Invocation.readLogging_error {s : Stop} (failed : readLogging env [] = .error s) :
    s = .usage := by
  rw [readLogging, outputGrammar_readKnown (List.forall_mem_nil _)] at failed
  cases output : outputGrammar.inherit env [] outputGrammar.options {} with
  | error s' =>
      rw [output] at failed
      cases failed
      exact Grammar.inherit_error output
  | ok a =>
      rw [output] at failed
      simp only [Except.map, Except.ok_bind] at failed
      rw [detailGrammar_readKnown (List.forall_mem_nil _)] at failed
      cases detail : detailGrammar.inherit env [] detailGrammar.options {} with
      | error s' =>
          rw [detail] at failed
          cases failed
          exact Grammar.inherit_error detail
      | ok b =>
          rw [detail] at failed
          cases failed

end

/-! ## Choices -/

/-- What a command line says about the registry. -/
structure RegistryChoice where
  /-- The source of the settings. -/
  source : Option String := none
  /-- The table, instead of the one that the settings name. -/
  set : Option OpcodeSet := none

/-- The options that choose a registry. -/
def registryGrammar : Grammar where
  options := helpOption :: Command.registryOptions

theorem plain_name (S : OpcodeSet) : Plain S.name := by
  cases S <;> decide

namespace RegistryChoice

variable {k : RegistryChoice}

/-- The words that make the choice. -/
def words (k : RegistryChoice) : List String :=
  (match k.source with
    | some s => [configOption.spelling, s]
    | none => [])
  ++ (match k.set with
    | some S => [opcodeSetOption.spelling, S.name]
    | none => [])

/-- The choice is added to what is given. -/
def give (k : RegistryChoice) (a : Arguments) : Arguments :=
  let a := match k.source with
    | some s => a.give configOption.name (.text s)
    | none => a
  match k.set with
  | some S => a.give opcodeSetOption.name (.text S.name)
  | none => a

/-- The source cannot be mistaken for an option. -/
def Named (k : RegistryChoice) : Prop := ∀ s ∈ k.source, Plain s

/-- What the environment gives for the options that the choice leaves open. -/
def inherited (k : RegistryChoice) (env : Variables) : Except Stop Arguments :=
  registryGrammar.inherit env k.words registryGrammar.options {}

theorem unlogged_words (named : k.Named) : ∀ s ∈ k.words, Unlogged s := by
  have config : Unlogged configOption.spelling := by decide
  have set : Unlogged opcodeSetOption.spelling := by decide
  rcases k with ⟨_ | s, _ | S⟩
  · simp [words]
  · simp [words, set, (plain_name S).single.unlogged]
  · simp [words, config, (named s rfl).single.unlogged]
  · simp [words, config, set, (named s rfl).single.unlogged, (plain_name S).single.unlogged]

@[simp] theorem unknown_give (k : RegistryChoice) (a : Arguments) :
    (k.give a).unknown = a.unknown := by
  rcases k with ⟨_ | s, _ | S⟩ <;> rfl

theorem lookup_give_of_ne {name : String} (apart : ∀ o ∈ Command.registryOptions, name ≠ o.name)
    (a : Arguments) : (k.give a).given.lookup name = a.given.lookup name := by
  have config : name ≠ configOption.name := apart _ (by decide)
  have set : name ≠ opcodeSetOption.name := apart _ (by decide)
  rcases k with ⟨_ | s, _ | S⟩
  · rfl
  · exact Arguments.lookup_give_of_ne set
  · exact Arguments.lookup_give_of_ne config
  · exact (Arguments.lookup_give_of_ne set).trans (Arguments.lookup_give_of_ne config)

theorem text?_give_set {S : OpcodeSet} (set : k.set = some S) (a : Arguments) :
    (k.give a).text? opcodeSetOption.name = some S.name := by
  rw [give, set]
  exact Arguments.text?_give_self

/-- Nothing but the choice comes from the environment. -/
theorem lookup_eq_none {env : Variables} {a : Arguments} (inherited : k.inherited env = .ok a)
    {name : String} (apart : ∀ o ∈ registryGrammar.options, name ≠ o.name) :
    (k.give a).given.lookup name = none := by
  rw [lookup_give_of_ne (List.forall_mem_cons.mp apart).2]
  exact Grammar.inherit_lookup inherited apart

/-- The words are read as the choice that they make. -/
theorem readWords_eq {g : Grammar} (config : g.Knows configOption) (set : g.Knows opcodeSetOption)
    (named : k.Named) (ps : List Operand) (a : Arguments) (line : List String) :
    g.readWords ps false a (k.words ++ line) = g.readWords ps false (k.give a) line := by
  have source : ∀ s, Plain s → ∀ a line, g.readWords ps false a (configOption.spelling :: s :: line)
      = g.readWords ps false (a.give configOption.name (.text s)) line := by
    intro s plain a line
    exact Grammar.readWords_separate config.reads_spelling rfl (g.reads_of_plain plain) rfl
  have table : ∀ S : OpcodeSet, ∀ a line,
      g.readWords ps false a (opcodeSetOption.spelling :: S.name :: line)
        = g.readWords ps false (a.give opcodeSetOption.name (.text S.name)) line := by
    intro S a line
    apply Grammar.readWords_separate set.reads_spelling rfl (g.reads_of_plain (plain_name S))
    cases S <;> rfl
  rcases k with ⟨_ | s, _ | S⟩
  · rfl
  · exact table S a line
  · exact source s (named s rfl) a line
  · exact (source s (named s rfl) a _).trans (table S _ line)

theorem inherited?_config (k : RegistryChoice) (env : Variables) :
    configOption.inherited? env.texts k.words =
      if k.source.isSome then none else env.lookup sourceVariable := by
  rcases k with ⟨_ | s, set⟩
  · have others : ∀ t ∈ (⟨none, set⟩ : RegistryChoice).words,
        spelled t ≠ configOption.spelling := by
      cases set with
      | none => exact List.forall_mem_nil _
      | some S =>
          refine List.forall_mem_cons.mpr ⟨by decide, List.forall_mem_singleton.mpr ?_⟩
          exact (plain_name S).single.spelled_ne _
    exact Grammar.inherited?_append others []
  · rw [CommandOption.inherited?, if_pos]
    · rfl
    · rw [List.contains_iff_mem]
      exact List.mem_map.mpr ⟨configOption.spelling, List.mem_cons_self, by decide⟩

theorem inherited?_set (named : k.Named) (env : Variables) :
    opcodeSetOption.inherited? env.texts k.words =
      if k.set.isSome then none else env.lookup opcodeSetOption.variable := by
  rcases k with ⟨source, _ | S⟩
  · have others : ∀ t ∈ (⟨source, none⟩ : RegistryChoice).words,
        spelled t ≠ opcodeSetOption.spelling := by
      cases source with
      | none => exact List.forall_mem_nil _
      | some s =>
          refine List.forall_mem_cons.mpr ⟨by decide, List.forall_mem_singleton.mpr ?_⟩
          exact (named s rfl).single.spelled_ne _
    exact Grammar.inherited?_append others []
  · rw [CommandOption.inherited?, if_pos]
    · rfl
    · rw [List.contains_iff_mem]
      exact List.mem_map.mpr ⟨opcodeSetOption.spelling, by simp [words], by decide⟩

/-- Where the environment names no table, it gives at most the source. -/
theorem inherited_eq (named : k.Named)
    {env : Variables} (unset : k.set = none → env.lookup opcodeSetOption.variable = none) :
    k.inherited env = .ok (match if k.source.isSome then none else env.lookup sourceVariable with
      | some s =>
        Arguments.give {} configOption.name (if s == separatorMark then .nothing else .text s)
      | none => {}) := by
  have table : opcodeSetOption.inherited? env.texts k.words = none := by
    rw [inherited?_set named]
    cases set : k.set with
    | some S => rfl
    | none => exact unset set
  have help : ∀ os a, registryGrammar.inherit env k.words (helpOption :: os) a =
      registryGrammar.inherit env k.words os a := by
    intro os a
    rw [Grammar.inherit]
    split <;> rfl
  show registryGrammar.inherit env k.words (helpOption :: configOption :: [opcodeSetOption]) {} = _
  rw [help, Grammar.inherit, inherited?_config]
  cases (if k.source.isSome then none else env.lookup sourceVariable) with
  | none =>
      dsimp only
      rw [Grammar.inherit, table]
      rfl
  | some s =>
      have taken : registryGrammar.take env configOption s {} = .ok (Arguments.give {}
          configOption.name (if s == separatorMark then .nothing else .text s)) := by
        simp only [Grammar.take, configOption, ValueForm.readAttached?]
        cases s == separatorMark <;> rfl
      dsimp only
      rw [taken, Except.ok_bind, Grammar.inherit, table]
      rfl

end RegistryChoice

/-! ## Commands -/

/-- The command works with a registry, and nothing but the choice of one comes from the
environment. -/
structure Command.Registers (c : Command) (env : Variables) : Prop where
  /-- The options may stand together. -/
  compatible : c.grammar.exclusive = false
  /-- The options are known by their names. -/
  known : ∀ o ∈ c.grammar.options, o.role ≠ .help → c.grammar.Knows o
  /-- The operands may be any text. -/
  texty : ∀ p ∈ c.grammar.operands, p.form = .text
  /-- The environment has nothing for the other options. -/
  options : ∃ own, c.grammar.options = registryGrammar.options ++ own ∧
    ∀ o ∈ own, env.lookup o.variable = none

theorem registers_encodeInstruction (env : Variables) :
    Command.encodeInstruction.Registers env :=
  ⟨rfl, by decide, by decide, [], rfl, List.forall_mem_nil _⟩

theorem registers_decodeInstruction {env : Variables}
    (unset : env.lookup jsonOption.variable = none) : Command.decodeInstruction.Registers env :=
  ⟨rfl, by decide, by decide, [jsonOption], rfl, List.forall_mem_singleton.mpr unset⟩

theorem registers_decodeProgram {env : Variables} (unset : env.lookup jsonOption.variable = none)
    (unlimited : env.lookup maxLengthOption.variable = none) :
    Command.decodeProgram.Registers env :=
  ⟨rfl, by decide, by decide, [maxLengthOption, jsonOption], rfl,
    List.forall_mem_cons.mpr ⟨unlimited, List.forall_mem_singleton.mpr unset⟩⟩

namespace Command.Registers

variable {c : Command} {env : Variables} {k : RegistryChoice} {texts : List String}

/-- A line that makes a choice, and none behind it, is read behind what the environment gives. -/
theorem readKnown_eq (h : c.Registers env) (named : k.Named)
    (unspelt : ∀ s ∈ texts, ∀ o ∈ registryGrammar.options, spelled s ≠ o.spelling) :
    c.grammar.readKnown env (k.words ++ texts) = k.inherited env >>= fun a =>
      c.grammar.readWords c.grammar.operands false (k.give a) texts := by
  obtain ⟨own, options, unset⟩ := h.options
  have knows : ∀ o ∈ Command.registryOptions, c.grammar.Knows o := by
    intro o mem
    apply h.known o
    · rw [options]
      exact List.mem_append_left own (List.mem_cons_of_mem helpOption mem)
    · revert o
      decide
  have inherited : c.grammar.inherit env (k.words ++ texts) c.grammar.options {} =
      k.inherited env := by
    rw [options, Grammar.inherit_append_of_unset unset]
    rw [Grammar.inherit_eq (f := registryGrammar) h.compatible rfl]
    apply Grammar.inherit_congr
    intro o mem
    exact Grammar.inherited?_append (fun s within => unspelt s within o mem) k.words
  rw [Grammar.readKnown_eq h.known, inherited]
  simp only [RegistryChoice.readWords_eq (knows configOption (by decide))
    (knows opcodeSetOption (by decide)) named]

/-- **Choices.** A line that makes a choice and then gives the operands is read as just that. -/
theorem readAll_eq (h : c.Registers env) (named : k.Named)
    (count : c.grammar.operands.length = texts.length) (single : ∀ s ∈ texts, Single s)
    (words : ∀ s ∈ texts, c.grammar.Reads s (.operand s)) :
    c.grammar.readAll env (k.words ++ texts) =
      (k.inherited env).map fun a => (k.give a).fill c.grammar.operands texts := by
  rw [Grammar.readAll, h.readKnown_eq named fun s within o _ => (single s within).spelled_ne o]
  cases inherited : k.inherited env with
  | error s => rfl
  | ok a =>
      have all : a.unknown = [] := Grammar.inherit_unknown inherited
      rw [Except.ok_bind, Grammar.readWords_fill h.texty count words, Except.ok_bind]
      simp only [Arguments.unknown_fill, RegistryChoice.unknown_give, all, List.isEmpty_nil,
        if_true]
      rfl

end Command.Registers

end SwapCodec.CommandLine
