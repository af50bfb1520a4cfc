import SwapCodec.Proofs.CommandLine.Response
import SwapCodec.Proofs.Json.Malformed
import SwapCodec.Proofs.Program.Listing

/-!
# Instructions on the command line

An instruction is encoded on one command line and decoded on another, and what is decoded
can be encoded again. Between the lines there is only text, so each text has to be read as
an operand. The names of opcodes start with a letter (`plain_of_ofName?`), and what is
printed starts with a bracket or a digit.

Only the document that is given may start with a minus sign. Then it is a number or a
word (`Json.read_minus`), which is an operand or an option without a meaning, but no
arguments of an instruction (`plain_of_encode_prints`). With this the command lines are
those of the registry in both directions (`encode_prints_iff`, `decode_prints_iff`), and
the main statement is the round trip of the registry through its documents
(`encode_decode_inverse`).
-/

set_option autoImplicit false

namespace SwapCodec

theorem Schema.exists_dict_of_ofJson {s : Schema} {document args : Value}
    (read : s.ofJson document = .ok args) : ∃ entries, document = .dict entries := by
  cases document with
  | dict entries => exact ⟨entries, rfl⟩
  | _ => exact absurd read fail_ne_ok

namespace CommandLine

theorem exists_minus_of_not_plain {s : String} (dashed : ¬ Plain s) :
    ∃ cs, s.toList = '-' :: cs := by
  cases chars : s.toList with
  | nil => exact absurd (by simp [Plain, chars]) dashed
  | cons c cs =>
      refine ⟨cs, ?_⟩
      have dash : c = '-' := by simpa [Plain, chars] using dashed
      rw [dash]

theorem plain_of_read_dict {s : String} {entries : List (Key × Value)}
    (read : Json.read s = .ok (.dict entries)) : Plain s := by
  refine Decidable.byContradiction fun dashed => ?_
  obtain ⟨cs, sign⟩ := exists_minus_of_not_plain dashed
  exact (Json.read_minus sign read).2 entries rfl

theorem plain_ofList_append {c : Char} (solid : c ≠ '-') (cs : List Char) (s : String) :
    Plain (String.ofList (c :: cs) ++ s) := by
  rw [Plain, String.toList_append, String.toList_ofList]
  simpa using solid

theorem plain_family_append (o : Opcode) (s : String) : Plain (o.family ++ s) := by
  cases o <;>
  · refine plain_ofList_append ?_ _ s
    decide

theorem plain_capitals (o : Opcode) : Plain o.capitals := by
  rw [← String.append_empty (s := o.capitals)]
  cases o <;>
  · refine plain_ofList_append ?_ _ ""
    decide

theorem plain_instructionName (o : Opcode) : Plain o.instructionName := by
  rw [← String.append_empty (s := o.instructionName)]
  cases o <;>
  · refine plain_ofList_append ?_ _ ""
    decide

/-- No spelling of an opcode looks like an option. -/
theorem plain_of_ofName? {name : String} {o : Opcode} (found : Opcode.ofName? name = some o) :
    Plain name := by
  have spelt := List.find?_some found
  simp only [Bool.or_eq_true, beq_iff_eq] at spelt
  rcases spelt with (rfl | rfl) | rfl
  · rw [Opcode.dotted, String.append_assoc]
    exact plain_family_append o _
  · exact plain_capitals o
  · exact plain_instructionName o

section

variable {w : World} {k : RegistryChoice} {name json text : String} {document : Value}

/-- With an option that nobody knows in the place of the document, nothing is encoded. -/
theorem not_encode_prints_of_unknown (named : k.Named) (plain : Plain name) (single : Single json)
    (unknown : Command.encodeInstruction.grammar.Reads json (.unknown json)) :
    ¬ (respond w ("encode_instruction" :: (k.words ++ [name, json]))).Prints text := by
  intro printed
  have singles : ∀ s ∈ [name, json], Single s := by simpa using ⟨plain.single, single⟩
  have unread : Command.encodeInstruction.grammar.readAll w.environment
      (k.words ++ [name, json]) = .error .usage := by
    rw [Grammar.readAll, (registers_encodeInstruction w.environment).readKnown_eq named
      fun s within o _ => (singles s within).spelled_ne o]
    cases inherited : k.inherited w.environment with
    | error s =>
        obtain rfl := Grammar.inherit_error inherited
        rfl
    | ok a =>
        -- The name is an operand, and behind it there is none for the document.
        rw [Except.ok_bind]
        show Grammar.readWords _ (opcodeOperand :: [argsOperand]) _ _ _ >>= _ = _
        rw [Grammar.readWords_operand (Grammar.reads_of_plain _ plain) rfl,
          Grammar.readWords_unknown unknown]
        rfl
  have unhelped : Command.encodeInstruction.grammar.readAll w.environment
      (k.words ++ [name, json]) ≠ .error .help := by
    rw [unread]
    intro same
    cases same
  obtain ⟨r, a, -, given, -⟩ := (prints_iff (c := .encodeInstruction)
    (Command.Registers.unlogged_line named singles) unhelped).mp printed
  cases unread.symm.trans given

/-- Nothing is encoded from a document with a minus sign in front. -/
theorem plain_of_encode_prints (named : k.Named) (plain : Plain name)
    (read : Json.read json = .ok document)
    (printed : (respond w ("encode_instruction" :: (k.words ++ [name, json]))).Prints text) :
    Plain json := by
  refine Decidable.byContradiction fun dashed => ?_
  obtain ⟨cs, sign⟩ := exists_minus_of_not_plain dashed
  obtain ⟨⟨c, more, rfl, dash, help⟩, other⟩ := Json.read_minus sign read
  have single : Single json := by
    intro cs chars
    rw [sign] at chars
    cases chars
    exact dash rfl
  have token := Command.encodeInstruction.grammar.token?_of_minus sign dash help
  rw [strayToken] at token
  split at token
  · -- The text is an operand, but what it holds is no dictionary.
    obtain ⟨R, -, document', read', o, -, args, stands, -⟩ :=
      (encode_prints_iff named plain single ⟨single.ne_separator, token⟩).mp printed
    cases read.symm.trans read'
    obtain ⟨schema, -, ofJson⟩ := Except.bind_eq_ok_iff.mp stands
    obtain ⟨entries, rfl⟩ := Schema.exists_dict_of_ofJson ofJson
    exact other entries rfl
  · exact not_encode_prints_of_unknown named plain single ⟨single.ne_separator, token⟩ printed

end

/-- **Encoding and decoding are inverse on the command line.** Take any files and any
environment that does not ask for a document, any choice of a registry, any spelling of an
opcode, and any text of a document. If encoding the instruction prints bytes, then
decoding these prints the dotted name of the opcode with a dictionary behind it, and encoding
the opcode of this name with this dictionary prints the same bytes again. -/
theorem encode_decode_inverse (w : World) (k : RegistryChoice) (named : k.Named)
    (plainly : w.environment.lookup jsonOption.variable = none)
    (name json hex : String) (o : Opcode) (spelt : Opcode.ofName? name = some o)
    (document : (Json.read json).isOk = true)
    (encoded : (respond w ("encode_instruction" :: (k.words ++ [name, json]))).Prints hex) :
    ∃ text entries, Json.read text = .ok (.dict entries) ∧
      (respond w ("decode_instruction" :: (k.words ++ [hex]))).Prints (o.dotted ++ " " ++ text) ∧
      (respond w ("encode_instruction" :: (k.words ++ [o.dotted, text]))).Prints hex := by
  obtain ⟨document, read⟩ : ∃ document, Json.read json = .ok document := by
    cases read : Json.read json with
    | ok document => exact ⟨document, rfl⟩
    | error flaw =>
        rw [read] at document
        cases document
  have plainName := plain_of_ofName? spelt
  have plain := plain_of_encode_prints named plainName read encoded
  obtain ⟨R, chosen, -, -, o', spelt', args, -, data, emitted, rfl⟩ :=
    (encode_prints_iff named plainName plain.single (Grammar.reads_of_plain _ plain)).mp encoded
  cases spelt.symm.trans spelt'
  obtain ⟨S, rfl⟩ := chosen.exists_set
  have wellFormed := (Registry.ofSet_reachable S).wellFormed
  obtain ⟨v, -, wire⟩ := Registry.exists_wire_of_encode wellFormed emitted
  obtain ⟨schema, shown, text, -, prints, -, -⟩ :=
    wire.exists_prints wellFormed (Registry.ofSet_narrow S)
  obtain ⟨given, -, rfl⟩ := Schema.toJson_eq_ok_iff.mp prints.written
  have plainText : Plain text := plain_of_read_dict prints.read
  have plainHex : Plain ("0x" ++ Text.hexOfBytes data) := plain_ofList_append (by decide) ['x'] _
  refine ⟨text, _, prints.read, ?_, ?_⟩
  · refine (decode_prints_iff plainly named plainHex).mpr ⟨.ofSet S, chosen, data, ?_,
      ⟨o, v⟩, wellFormed.decode_eq_ok_iff.mpr wire, _, ?_, text, prints.printed, rfl⟩
    · rw [Text.dropHexMarker_marked, Text.bytesOfHex?_hexOfBytes]
    · exact Except.bind_eq_ok_iff.mpr ⟨schema, prints.resolved, prints.written⟩
  · have dotted := o.ofName?_dotted
    have again := wire.encode_eq wellFormed
    refine (encode_prints_iff named (plain_of_ofName? dotted) plainText.single
      (Grammar.reads_of_plain _ plainText)).mpr ⟨.ofSet S, chosen, _, prints.read, o, dotted, v,
        ?_, data, again, rfl⟩
    exact Except.bind_eq_ok_iff.mpr ⟨schema, prints.resolved, prints.back⟩

theorem encode_decode_inverse_jump :
    let w : World := { files := .withShipped ⟨["home"]⟩ [], clock := 0 }
    let k : RegistryChoice := { set := some .aqua }
    let json := "\x7b\"next_pc\": \"0x4\"\x7d"
    (respond w ["encode_instruction", "--opcode-set", "aqua", "JUMP", json]).Prints
        "0x00020004" ∧
      ∃ text entries, Json.read text = .ok (.dict entries) ∧
        (respond w ("decode_instruction" :: (k.words ++ ["0x00020004"]))).Prints
          ("Controls.jump" ++ " " ++ text) ∧
        (respond w ("encode_instruction" :: (k.words ++ ["Controls.jump", text]))).Prints
          "0x00020004" := by
  intro w k json
  have printed : (respond w ["encode_instruction", "--opcode-set", "aqua", "JUMP", json]).Prints
      "0x00020004" := Response.prints_of_shown (by decide +kernel)
  exact ⟨printed, encode_decode_inverse w k nofun rfl "JUMP" json "0x00020004" .jump rfl
    (by decide +kernel) printed⟩

end CommandLine

end SwapCodec
