import SwapCodec.Proofs.CommandLine.Response
import SwapCodec.Proofs.Json.Malformed
import SwapCodec.Proofs.Program.Listing

/-!
# Asking for a document

The option `--json` of a command asks for a document. On a command line it has the first
letters of the option that logs events as documents, and this is how it is read
(`Invocation.readLogging_json`): whatever the command, the line shows what it shows
without the option (`shown_json`).

A command that gets to see the option prints a document. For a program this is a list
with a record for each instruction (`exists_programDocument`), and it is read back from
what is printed. Neither a listing nor the line of an instruction is any document
(`Registry.Lists.read_joined`, `read_dotted`), so no program and no instruction is printed
as the option asks (`json_option_reaches_no_command`).
-/

set_option autoImplicit false

namespace SwapCodec

/-! ## Texts that are no documents -/

namespace Json

/-- The name of a family starts with a letter, and it is no part of a word for a value. -/
theorem exists_family_eq (o : Opcode) :
    ∃ c more, o.family.toList = c :: more ∧ c.isUpper = true ∧
      ∀ w ∈ words, ¬ w.1.toList <+: o.family.toList ∧ ¬ o.family.toList <+: w.1.toList := by
  cases o <;> exact ⟨_, _, rfl, by decide, by decide⟩

theorem exists_dotted_eq (o : Opcode) :
    ∃ more, o.dotted.toList = o.family.toList ++ more := by
  rw [Opcode.dotted, String.append_assoc, String.toList_append]
  exact ⟨_, rfl⟩

/-- A text that starts with the name of an opcode is no document. -/
theorem read_dotted (o : Opcode) (s : String) : read (o.dotted ++ s) = .error .malformed := by
  obtain ⟨c, more, family, letter, other⟩ := exists_family_eq o
  obtain ⟨rest, dotted⟩ := exists_dotted_eq o
  have chars : (o.dotted ++ s).toList = o.family.toList ++ (rest ++ s.toList) := by
    rw [String.toList_append, dotted, List.append_assoc]
  have start := chars
  rw [family, List.cons_append] at start
  refine read_of_isUpper start letter (readWord?_eq_none fun w mem => ?_)
  rw [← start, chars]
  exact afterWord?_append_eq_none (other w mem).1 (other w mem).2 _

end Json

/-- A listing is no document. -/
theorem Registry.Lists.read_joined {R : Registry} {L : List Instruction}
    {parts : List (List UInt8)} {lines : List String} (h : R.Lists 0 L parts lines) :
    Json.read (joined "\n" lines) = .error .malformed := by
  cases h with
  | nil => rfl
  | @cons _ i _ _ text _ _ _ lines _ _ _ =>
      obtain ⟨indent, line⟩ := listingLine_toList 0 i.opcode text
      obtain ⟨tail, chars⟩ : ∃ tail, (joined "\n" (listingLine 0 i.opcode text :: lines)).toList =
          (listingLine 0 i.opcode text).toList ++ tail := by
        rw [joined_eq_intercalate, String.toList_intercalate]
        cases lines with
        | nil => exact ⟨[], by simp⟩
        | cons next lines =>
            exact ⟨'\n' :: ['\n'].intercalate ((next :: lines).map String.toList), by simp⟩
      obtain ⟨c, more, family, letter, -⟩ := Json.exists_family_eq i.opcode
      obtain ⟨rest, dotted⟩ := Json.exists_dotted_eq i.opcode
      have parted : (joined "\n" (listingLine 0 i.opcode text :: lines)).toList =
          List.replicate indent ' ' ++ ((Text.decimal 0).toList ++ ' ' ::
            c :: (more ++ (rest ++ ' ' :: (text.toList ++ tail)))) := by
        rw [chars, line, dotted, family, ← decimalNat_toList]
        simp [Text.decimalNat]
      have short : (0 : Int).natAbs < Text.tooLong :=
        Nat.lt_of_lt_of_le (Nat.two_pow_pos 256) Text.two_pow_256_le_tooLong
      refine Json.read_of_spells parted ?_ (Json.spells_decimal short)
        (Json.opens_of_isUpper letter _)
      intro d mem
      rw [List.eq_of_mem_replicate mem]
      rfl

namespace CommandLine

/-! ## Documents -/

/-- The value is what a program's document holds for the instruction. -/
def IsEntry (R : Registry) (i : Instruction) (entry : Value) : Prop :=
  ∃ args, argsDocument R i = .ok args ∧
    .record [("opcode", .str i.opcode.dotted), ("args", args)] = entry

section

variable {R : Registry} {i : Instruction} {data : List UInt8} {L : List Instruction}
  {parts : List (List UInt8)}

theorem mapM_eq_ok_iff {ε α β : Type} {f : α → Except ε β} {xs : List α} {ys : List β} :
    xs.mapM f = .ok ys ↔ List.Forall₂ (fun x y => f x = .ok y) xs ys := by
  induction xs generalizing ys with
  | nil => cases ys <;> simp [pure, Except.pure]
  | cons x xs ih =>
      simp only [List.mapM_cons, Except.bind_eq_ok_iff, ih, List.forall₂_cons_left_iff]
      constructor
      · rintro ⟨y, first, more, others, same⟩
        cases same
        exact ⟨y, more, first, others, rfl⟩
      · rintro ⟨y, more, first, others, rfl⟩
        exact ⟨y, first, more, others, rfl⟩

theorem programDocument_eq_ok_iff {document : Value} :
    programDocument R L = .ok document ↔
      ∃ entries, List.Forall₂ (IsEntry R) L entries ∧ .list entries = document := by
  simp only [programDocument, Except.bind_eq_ok_iff, mapM_eq_ok_iff, pure, Except.pure,
    Except.ok.injEq]
  rfl

/-- What is encoded has a document for its arguments. -/
theorem exists_argsDocument (wellFormed : R.WellFormed) (narrow : R.Narrow) (wire : R.Wire i data) :
    ∃ args, argsDocument R i = .ok args ∧ args.isDocument = true := by
  obtain ⟨index, schema, payload, found, formed, -, -⟩ := wire
  have built := (wellFormed.lawful_of_getElem? found).built
  have types := (narrow _ (List.mem_of_getElem? found)).types
  obtain ⟨document, written, writable, -⟩ := formed.exists_document built types
  have resolved : R.resolve (.opcode i.opcode) = .ok schema :=
    wellFormed.resolve_iff.mpr ⟨_, index, rfl, found⟩
  exact ⟨document, Except.bind_eq_ok_iff.mpr ⟨schema, resolved, written⟩, writable⟩

/-- A program has a document, with an entry for each instruction. -/
theorem exists_programDocument (wellFormed : R.WellFormed) (narrow : R.Narrow)
    (frames : List.Forall₂ R.Wire L parts) :
    ∃ entries, List.Forall₂ (IsEntry R) L entries ∧ (Value.list entries).isDocument = true := by
  suffices ∃ entries, List.Forall₂ (IsEntry R) L entries ∧ ∀ e ∈ entries, e.isDocument = true by
    obtain ⟨entries, each, writable⟩ := this
    exact ⟨entries, each, Value.isDocument_list writable⟩
  induction frames with
  | nil => exact ⟨[], .nil, List.forall_mem_nil _⟩
  | @cons i _ _ _ wire _ ih =>
      obtain ⟨args, given, writable⟩ := exists_argsDocument wellFormed narrow wire
      obtain ⟨entries, each, others⟩ := ih
      refine ⟨_, .cons ⟨args, given, rfl⟩ each, List.forall_mem_cons.mpr ⟨?_, others⟩⟩
      exact Value.isDocument_record (by simp) (by simpa using ⟨rfl, writable⟩)

/-- An instruction has a document with its discriminator. -/
theorem exists_instructionDocument (wellFormed : R.WellFormed) (narrow : R.Narrow)
    (wire : R.Wire i data) :
    ∃ index args, R.discriminatorOf (.opcode i.opcode) = .ok index ∧
      argsDocument R i = .ok args ∧
      (Value.record [("discriminator", .int index), ("opcode", .str i.opcode.dotted),
        ("args", args)]).isDocument = true := by
  obtain ⟨args, given, writable⟩ := exists_argsDocument wellFormed narrow wire
  obtain ⟨index, schema, payload, found, -, -, -⟩ := wire
  refine ⟨index, args, wellFormed.discriminatorOf_eq_ok_iff.mpr ⟨schema, found⟩, given, ?_⟩
  have short : (index : Int).natAbs < Text.tooLong := by
    refine Nat.lt_of_lt_of_le ?_ Text.two_pow_256_le_tooLong
    exact Nat.lt_of_lt_of_le (wellFormed.lt_of_getElem? found) (by decide)
  refine Value.isDocument_record (by simp) ?_
  simpa using ⟨Value.isDocument_int short, rfl, writable⟩

end

/-! ## Lines with the option -/

section

variable {w : World} {text : String}

/-- A text that denotes bytes is no option. -/
theorem plain_of_bytesOfHex? {data : List UInt8}
    (bytes : Text.bytesOfHex? (Text.dropHexMarker text) = some data) : Plain text := by
  intro dash
  obtain ⟨cs, chars⟩ := List.head?_eq_some_iff.mp dash
  have unmarked : Text.dropHexMarker text = text := by
    rw [Text.dropHexMarker]
    split
    · rename_i marked
      cases chars.symm.trans marked
    · rfl
  rw [unmarked, Text.bytesOfHex?, chars] at bytes
  cases cs <;> cases bytes

/-- On a line, the option for documents is the one that logs events as documents. -/
theorem Invocation.readLogging_json {env : Variables} (h : env.OnlySource)
    {front back : List String} (unlogged : ∀ s ∈ front ++ back, Unlogged s) :
    readLogging env (front ++ jsonOption.spelling :: back) =
      .ok ({ format := .documents }, front ++ back) := by
  have word : outputGrammar.Reads jsonOption.spelling (.option jsonLogsOption none) := by decide
  have left : ∀ s ∈ front ++ back, outputGrammar.Leaves s := fun s within =>
    (unlogged s within).1.left
  rw [List.forall_mem_append] at left
  have output : outputGrammar.readKnown env (front ++ jsonOption.spelling :: back) =
      .ok ⟨[(jsonLogsOption.name, .present)], front ++ back⟩ := by
    rw [Grammar.readKnown_eq (by decide), Grammar.inherit_of_unset (h.unset (by decide)),
      Except.ok_bind]
    -- The grammar leaves the words in front of the option and those behind it.
    show outputGrammar.readWords [] _ _ _ = _
    rw [Grammar.readWords_leave_append left.1, Grammar.readWords_flag word rfl rfl,
      Grammar.readWords_leave left.2]
    rfl
  rw [readLogging, output, Except.ok_bind, detailGrammar_readKnown unlogged,
    Grammar.inherit_of_unset (h.unset (by decide))]
  rfl

/-- **The option is lost.** Whatever the command, a line with the option for documents shows what
the line shows without it. -/
theorem shown_json (env : w.environment.OnlySource) (c : Command) {front back : List String}
    (unlogged : ∀ s ∈ front ++ back, Unlogged s) :
    (respond w (c.name :: (front ++ jsonOption.spelling :: back))).shown =
      (respond w (c.name :: (front ++ back))).shown := by
  rw [respond_command, respond_command, Invocation.read, Invocation.read,
    Invocation.readLogging_json env unlogged, Invocation.readLogging_eq unlogged,
    env.readLogging_eq]
  simp only [Except.map, Except.ok_bind]
  cases c.grammar.readAll w.environment (front ++ back) with
  | error s => rfl
  | ok a =>
      exact (Response.shown_ofRun _ _ _).trans (Response.shown_ofRun {} _ _).symm

/-- A command that reads the line itself is given the option and the bytes. -/
theorem exists_run_json {c : Command} (env : w.environment.OnlySource)
    (h : c.Registers w.environment) (operands : c.grammar.operands = [dataOperand])
    (knows : c.grammar.Knows jsonOption) (plain : Plain text) :
    ∃ a, c.grammar.readAll w.environment [jsonOption.spelling, text] = .ok a ∧
      a.text? opcodeSetOption.name = none ∧ a.operand dataOperand.name = text ∧
      a.has jsonOption.name = true ∧ a.integer? maxLengthOption.name = none ∧
      ∀ logging, Invocation.run ⟨c, logging, a⟩ w =
        c.run w a { session := { source := w.environment.lookup sourceVariable } } := by
  let k : RegistryChoice := {}
  obtain ⟨b, inherited, table, begins⟩ := k.exists_inherited (w := w) nofun nofun
    fun _ => env opcodeSetOption (by decide) (by decide)
  let a := (b.give jsonOption.name .present).give dataOperand.name (.text text)
  have lookup : ∀ name, name ≠ jsonOption.name → name ≠ dataOperand.name →
      a.given.lookup name = b.given.lookup name := by
    intro name option operand
    rw [Arguments.lookup_give_of_ne operand, Arguments.lookup_give_of_ne option]
  have unspelt : ∀ s ∈ [jsonOption.spelling, text], ∀ o ∈ registryGrammar.options,
      spelled s ≠ o.spelling := by
    refine List.forall_mem_cons.mpr ⟨by decide, List.forall_mem_singleton.mpr fun o _ => ?_⟩
    exact plain.single.spelled_ne o
  have alone : c.grammar.clashes jsonOption b = false := by
    rw [Grammar.clashes, h.compatible, Bool.false_and]
  have given : c.grammar.readAll w.environment [jsonOption.spelling, text] = .ok a := by
    have known := h.readKnown_eq (k := k) nofun unspelt
    rw [inherited, Except.ok_bind, operands] at known
    have words : c.grammar.readWords [dataOperand] false b [jsonOption.spelling, text] = .ok a := by
      rw [Grammar.readWords_flag knows.reads_spelling rfl alone,
        Grammar.readWords_operand (Grammar.reads_of_plain _ plain) rfl]
      rfl
    have all : a.unknown = [] := Grammar.inherit_unknown inherited
    have read : c.grammar.readKnown w.environment [jsonOption.spelling, text] = .ok a :=
      known.trans words
    rw [Grammar.readAll, read, Except.ok_bind, all]
    rfl
  have config := Arguments.text?_congr (lookup configOption.name (by decide) (by decide))
  have set := Arguments.text?_congr (lookup opcodeSetOption.name (by decide) (by decide))
  refine ⟨a, given, set.trans table, Arguments.operand_give_self, ?_, ?_, fun logging => ?_⟩
  · rw [Arguments.has, Arguments.lookup_give_of_ne (by decide), Arguments.lookup_give_self]
    rfl
  · apply Arguments.integer?_eq_none
    rw [lookup maxLengthOption.name (by decide) (by decide)]
    exact RegistryChoice.lookup_eq_none inherited (by decide)
  · rw [run_congr c logging config set w]
    exact congrArg (c.run w a) begins

/-- A command that reads the option itself prints the instructions of a program as a list. -/
theorem exists_json_decodeProgram (env : w.environment.OnlySource) {X : Settings}
    (described : w.described (w.environment.lookup sourceVariable) = .ok X) (plain : Plain text)
    {data : List UInt8} (bytes : Text.bytesOfHex? (Text.dropHexMarker text) = some data)
    {is : List Instruction}
    (decoded : (Registry.ofSet X.opcodeSet).decodeProgram data X.maxProgramLength = .ok is) :
    ∃ a json entries,
      Command.decodeProgram.grammar.readAll w.environment [jsonOption.spelling, text] = .ok a ∧
      (Invocation.run ⟨.decodeProgram, {}, a⟩ w).1 = .ok json ∧
      Json.read json = .ok (.list entries) ∧
      List.Forall₂ (IsEntry (.ofSet X.opcodeSet)) is entries := by
  have wellFormed := (Registry.ofSet_reachable X.opcodeSet).wellFormed
  obtain ⟨_, parts, frames, -⟩ := wellFormed.decodeProgram_eq_ok_iff.mp decoded
  obtain ⟨entries, each, writable⟩ :=
    exists_programDocument wellFormed (Registry.ofSet_narrow X.opcodeSet) frames
  obtain ⟨json, written, read⟩ := Json.exists_write_readWithin .indented writable
  obtain ⟨a, given, table, operand, documented, unlimited, run⟩ :=
    exists_run_json env env.registers_decodeProgram rfl (by decide) plain
  obtain ⟨active, loaded⟩ := activeRegistry_of_source (T := none) table described
  refine ⟨a, json, entries, given, ?_, read _ (Nat.le_refl _), each⟩
  rw [run]
  refine (decodeProgram_document_iff documented unlimited).mpr ⟨_, active, data, ?_, X, loaded, is,
    decoded, _, programDocument_eq_ok_iff.mpr ⟨entries, each, rfl⟩, written⟩
  rw [operand, bytes]

/-- A command that reads the option itself prints an instruction as a record. -/
theorem exists_json_decodeInstruction (env : w.environment.OnlySource) {X : Settings}
    (described : w.described (w.environment.lookup sourceVariable) = .ok X) (plain : Plain text)
    {data : List UInt8} (bytes : Text.bytesOfHex? (Text.dropHexMarker text) = some data)
    {i : Instruction} (decoded : (Registry.ofSet X.opcodeSet).decode data = .ok i)
    {args : Value} (document : argsDocument (.ofSet X.opcodeSet) i = .ok args) :
    ∃ a json index,
      Command.decodeInstruction.grammar.readAll w.environment [jsonOption.spelling, text] = .ok a ∧
      (Invocation.run ⟨.decodeInstruction, {}, a⟩ w).1 = .ok json ∧
      (Registry.ofSet X.opcodeSet).discriminatorOf (.opcode i.opcode) = .ok index ∧
      Json.read json = .ok (.record [("discriminator", .int index),
        ("opcode", .str i.opcode.dotted), ("args", args)]) := by
  have wellFormed := (Registry.ofSet_reachable X.opcodeSet).wellFormed
  obtain ⟨index, _, number, document', writable⟩ := exists_instructionDocument wellFormed
    (Registry.ofSet_narrow X.opcodeSet) (wellFormed.decode_eq_ok_iff.mp decoded)
  cases document.symm.trans document'
  obtain ⟨json, written, read⟩ := Json.exists_write_readWithin .indented writable
  obtain ⟨a, given, table, operand, documented, -, run⟩ := exists_run_json env
    (registers_decodeInstruction (env jsonOption (by decide) (by decide))) rfl (by decide) plain
  obtain ⟨active, -⟩ := activeRegistry_of_source (T := none) table described
  refine ⟨a, json, index, given, ?_, number, read _ (Nat.le_refl _)⟩
  rw [run]
  refine (decodeInstruction_document_iff documented).mpr ⟨_, active, data, ?_, i, decoded, args,
    document, index, number, written⟩
  rw [operand, bytes]

end

/-- The settings that come without any file are the default ones. -/
theorem described_shipped :
    World.described { files := .withShipped ⟨["home"]⟩ [], clock := 0 } none = .ok {} :=
  Except.eq_ok_of_toOption (by decide +kernel)

/-- **The option for documents reaches no command.** Take an environment from which no option but
the source of the settings comes. A line of any command shows with the option `--json` what
it shows without it.

So every program that the settings accept is printed as a listing, and every instruction as
a line with its name, neither of which is a document. The command itself, given the same
words, would print a list with a record for each instruction, and for a single instruction a
record with its discriminator. -/
theorem json_option_reaches_no_command (w : World) (env : w.environment.OnlySource) :
    (∀ (c : Command) (front back : List String), (∀ s ∈ front ++ back, Unlogged s) →
      (respond w (c.name :: (front ++ "--json" :: back))).shown =
        (respond w (c.name :: (front ++ back))).shown) ∧
    ∀ X, w.described (w.environment.lookup sourceVariable) = .ok X →
      ∀ text data, Text.bytesOfHex? (Text.dropHexMarker text) = some data →
        let R := Registry.ofSet X.opcodeSet
        (∀ is, R.decodeProgram data X.maxProgramLength = .ok is →
          (∃ lines, R.listing (is.map Instruction.toPair) = .ok lines ∧
            (respond w ["decode_program", "--json", text]).Prints lines ∧
            Json.read lines = .error .malformed) ∧
          ∃ a json entries,
            Command.decodeProgram.grammar.readAll w.environment ["--json", text] = .ok a ∧
            (Invocation.run ⟨.decodeProgram, {}, a⟩ w).1 = .ok json ∧
            Json.read json = .ok (.list entries) ∧ List.Forall₂ (IsEntry R) is entries) ∧
        (∀ i, R.decode data = .ok i →
          ∃ args, argsDocument R i = .ok args ∧
          (∃ line, Json.compact args = .ok line ∧
            (respond w ["decode_instruction", "--json", text]).Prints
              (i.opcode.dotted ++ " " ++ line) ∧
            Json.read (i.opcode.dotted ++ " " ++ line) = .error .malformed) ∧
          ∃ a json index,
            Command.decodeInstruction.grammar.readAll w.environment ["--json", text] = .ok a ∧
            (Invocation.run ⟨.decodeInstruction, {}, a⟩ w).1 = .ok json ∧
            R.discriminatorOf (.opcode i.opcode) = .ok index ∧
            Json.read json = .ok (.record [("discriminator", .int index),
              ("opcode", .str i.opcode.dotted), ("args", args)])) := by
  have lost : ∀ (c : Command) (front back : List String), (∀ s ∈ front ++ back, Unlogged s) →
      (respond w (c.name :: (front ++ "--json" :: back))).shown =
        (respond w (c.name :: (front ++ back))).shown :=
    fun c front back unlogged => shown_json env c unlogged
  refine ⟨lost, ?_⟩
  intro X described text data bytes R
  have plain := plain_of_bytesOfHex? bytes
  have unlogged : ∀ s ∈ [text], Unlogged s := List.forall_mem_singleton.mpr plain.single.unlogged
  constructor
  · intro is decoded
    refine ⟨?_, exists_json_decodeProgram env described plain bytes decoded⟩
    obtain ⟨_, lines, lists, listed⟩ := Registry.exists_listing decoded
    have printed := decodeProgram_prints (k := {}) env nofun nofun plain described bytes decoded
      listed
    exact ⟨_, listed, printed.congr (lost .decodeProgram [] [text] unlogged), lists.read_joined⟩
  · intro i decoded
    have wellFormed := (Registry.ofSet_reachable X.opcodeSet).wellFormed
    obtain ⟨schema, args, line, _, prints, -, -⟩ := Registry.Wire.exists_prints wellFormed
      (Registry.ofSet_narrow X.opcodeSet) (wellFormed.decode_eq_ok_iff.mp decoded)
    have document : argsDocument R i = .ok args :=
      Except.bind_eq_ok_iff.mpr ⟨schema, prints.resolved, prints.written⟩
    refine ⟨args, document, ?_, exists_json_decodeInstruction env described plain bytes decoded
      document⟩
    have named : (⟨none, none⟩ : RegistryChoice).Named := nofun
    have chosen : RegistryChoice.Chooses {} w R := env.chooses named nofun described
    have printed := (decode_prints_iff (env jsonOption (by decide) (by decide)) named plain).mpr
      ⟨R, chosen, data, bytes, i, decoded, args, document, line, prints.printed, rfl⟩
    refine ⟨line, prints.printed, printed.congr (lost .decodeInstruction [] [text] unlogged), ?_⟩
    rw [String.append_assoc]
    exact Json.read_dotted i.opcode _

theorem json_option_reaches_no_command_swap :
    let w : World := { files := .withShipped ⟨["home"]⟩ [], clock := 0 }
    (∃ lines, (respond w ["decode_program", "--json", "0e00"]).Prints lines ∧
      Json.read lines = .error .malformed) ∧
    ∃ a json entry,
      Command.decodeProgram.grammar.readAll w.environment ["--json", "0e00"] = .ok a ∧
      (Invocation.run ⟨.decodeProgram, {}, a⟩ w).1 = .ok json ∧
      Json.read json = .ok (.list [entry]) := by
  intro w
  have frames : List.Forall₂ (fun i part => (Registry.ofSet .swapVm).decode part = .ok i)
      [⟨.xycSwapXD, .args "EmptyArgs" []⟩] [[14, 0]] := .cons rfl .nil
  obtain ⟨-, documents⟩ := json_option_reaches_no_command w fun _ _ _ => rfl
  obtain ⟨⟨lines, -, printed, malformed⟩, a, json, entries, given, run, read, each⟩ :=
    (documents {} described_shipped "0e00" [14, 0] (by decide +kernel)).1 _
      (Registry.decodeProgram_of_decodes frames (by decide))
  obtain ⟨entry, _, -, rest, rfl⟩ := List.forall₂_cons_left_iff.mp each
  cases rest
  exact ⟨⟨lines, printed, malformed⟩, a, json, entry, given, run, read⟩

/-- A program of one swap is listed where a document is asked for. -/
theorem json_option_lists_swap :
    let w : World := { files := .withShipped ⟨["home"]⟩ [], clock := 0 }
    let line := "    0 XYCSwap.xycSwapXD \x7b\x7d"
    w.described none = .ok {} ∧
    (Registry.ofSet .swapVm).decodeProgram [14, 0] 65535 =
      .ok [⟨.xycSwapXD, .args "EmptyArgs" []⟩] ∧
    (respond w ["decode_program", "--json", "0e00"]).Prints line ∧
    ∀ v, Json.read line ≠ .ok v := by
  intro w line
  have frames : List.Forall₂ (fun i part => (Registry.ofSet .swapVm).decode part = .ok i)
      [⟨.xycSwapXD, .args "EmptyArgs" []⟩] [[14, 0]] := .cons rfl .nil
  have decoded : (Registry.ofSet .swapVm).decodeProgram [14, 0] 65535 = .ok _ :=
    Registry.decodeProgram_of_decodes frames (by decide)
  have listed : (Registry.ofSet .swapVm).listing [(.opcode .xycSwapXD, .args "EmptyArgs" [])] =
      .ok line := rfl
  have printed : (respond w ["decode_program", "0e00"]).Prints line :=
    decodeProgram_prints (k := {}) (X := {}) (fun _ _ _ => rfl) nofun nofun (by decide)
      described_shipped (by decide +kernel) decoded listed
  have lost : (respond w ["decode_program", "--json", "0e00"]).shown =
      (respond w ["decode_program", "0e00"]).shown :=
    shown_json (fun _ _ _ => rfl) .decodeProgram (by decide : ∀ s ∈ [] ++ ["0e00"], Unlogged s)
  obtain ⟨_, lines, lists, again⟩ := Registry.exists_listing decoded
  have same : joined "\n" lines = line := Except.ok.inj (again.symm.trans listed)
  refine ⟨described_shipped, decoded, printed.congr lost, ?_⟩
  rw [← same, lists.read_joined]
  exact nofun

end CommandLine

end SwapCodec
