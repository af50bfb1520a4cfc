import SwapCodec.Auction
import SwapCodec.CommandLine.Grammar

/-!
# Commands

The commands of the program with their grammars, and the overview that lists them by group.

Two further grammars, `outputGrammar` and `detailGrammar`, hold the options that say how events are
logged. They are read before the grammar of a command, from the same command line, and what they
take is gone when the command reads it: an option of a command that abbreviates one of theirs never
reaches the command.
-/

set_option autoImplicit false

namespace SwapCodec.CommandLine

/-- The name of the program. -/
def programName : String := "swapvm-cli"

/-- The word that asks for the overview. -/
def overviewWord : String := "help"

/-! ## Options and operands -/

/-- Asks for help. -/
def helpOption : CommandOption := ⟨"help", .help⟩

/-- The source of the settings. -/
def configOption : CommandOption := ⟨"config-yaml", .value .text⟩

/-- The opcode table, instead of the one that the settings name. -/
def opcodeSetOption : CommandOption :=
  ⟨"opcode-set", .value (.oneOf (OpcodeSet.all.map (·.name)))⟩

/-- Print a document. -/
def jsonOption : CommandOption := ⟨"json", .flag⟩

/-- The most bytes that a program may have. -/
def maxLengthOption : CommandOption := ⟨"max-length", .value .integer⟩

/-- The bytes of an auction instruction. -/
def instructionOption : CommandOption := ⟨"instruction", .value .text⟩

/-- The amount at the start of an auction. -/
def startAmountOption : CommandOption := ⟨"start-amount", .value .integer⟩

/-- The amount at the end of an auction. -/
def endAmountOption : CommandOption := ⟨"end-amount", .value .integer⟩

/-- When an auction starts. -/
def startTimeOption : CommandOption := ⟨"start-time", .value .integer⟩

/-- How long an auction lasts. -/
def durationOption : CommandOption := ⟨"duration", .value .integer⟩

/-- The side of the swap that an auction moves. -/
def directionOption : CommandOption :=
  ⟨"direction", .value (.oneOf (Direction.all.map (·.name)))⟩

/-- The time at which an auction is looked at. -/
def nowOption : CommandOption := ⟨"now", .value .integer⟩

/-- Accept an auction that does not follow its direction. -/
def noStrictOption : CommandOption := ⟨"no-strict", .flag⟩

/-- Refuse a word with a bit that belongs to no field. -/
def strictOption : CommandOption := ⟨"strict", .flag⟩

/-- Log events as documents. -/
def jsonLogsOption : CommandOption := ⟨"json-logs", .flag⟩

/-- Log nothing. -/
def disableLogsOption : CommandOption := ⟨"disable-logs", .flag⟩

/-- Log details too. -/
def debugOption : CommandOption := ⟨"debug", .flag⟩

/-- Bytes in hexadecimal. -/
def dataOperand : Operand := { name := "data" }

/-- The name of an opcode. -/
def opcodeOperand : Operand := { name := "opcode" }

/-- The arguments of an instruction as a document. -/
def argsOperand : Operand := { name := "args_json" }

/-- The kind of order traits. -/
def kindOperand : Operand := ⟨"kind", .oneOf ["maker", "taker"]⟩

/-- A word as an integer. -/
def wordOperand : Operand := { name := "word" }

/-- The fields of a word as a document. -/
def fieldsOperand : Operand := { name := "fields_json" }

/-! ## Grammars -/

/-- The options that say in which form events are logged. -/
def outputGrammar : Grammar where
  options := [jsonLogsOption, disableLogsOption]
  exclusive := true

/-- The option that says in how much detail events are logged. -/
def detailGrammar : Grammar where
  options := [debugOption]

/-- A group of commands. -/
inductive Group where
  | auction
  | codec
  | traits
  deriving DecidableEq, Repr

/-- The groups in the order of the overview. -/
def Group.all : List Group := [auction, codec, traits]

/-- The name of a group. -/
def Group.name : Group → String
  | auction => "auction"
  | codec => "codec"
  | traits => "traits"

/-- A command. -/
inductive Command where
  | listOpcodes
  | decodeInstruction
  | decodeProgram
  | encodeInstruction
  | auctionAmount
  | decodeTraits
  | encodeTraits
  deriving DecidableEq, Repr

namespace Command

/-- The commands in the order of the overview. -/
def all : List Command :=
  [listOpcodes, decodeInstruction, decodeProgram, encodeInstruction, auctionAmount, decodeTraits,
   encodeTraits]

/-- The name of a command. -/
def name : Command → String
  | listOpcodes => "list_opcodes"
  | decodeInstruction => "decode_instruction"
  | decodeProgram => "decode_program"
  | encodeInstruction => "encode_instruction"
  | auctionAmount => "auction_amount"
  | decodeTraits => "decode_traits"
  | encodeTraits => "encode_traits"

/-- The command with a name. -/
def ofName? (name : String) : Option Command :=
  all.find? fun c => c.name == name

/-- The group of a command. -/
def group : Command → Group
  | listOpcodes | decodeInstruction | decodeProgram | encodeInstruction => .codec
  | auctionAmount => .auction
  | decodeTraits | encodeTraits => .traits

/-- What a command does. -/
def description : Command → String
  | listOpcodes => "Print the opcode table and discriminators"
  | decodeInstruction => "Decode a single hex encoded instruction"
  | decodeProgram => "Disassemble a hex encoded program"
  | encodeInstruction => "Encode an instruction from JSON arguments"
  | auctionAmount => "Preview the amount of a dutch auction"
  | decodeTraits => "Split a maker or taker trait word into its fields"
  | encodeTraits => "Pack maker or taker trait fields into a word"

/-- The options that choose a registry. -/
def registryOptions : List CommandOption := [configOption, opcodeSetOption]

/-- The grammar of a command. -/
def grammar : Command → Grammar
  | listOpcodes => { options := helpOption :: registryOptions ++ [jsonOption] }
  | decodeInstruction =>
    { options := helpOption :: registryOptions ++ [jsonOption], operands := [dataOperand] }
  | decodeProgram =>
    { options := helpOption :: registryOptions ++ [maxLengthOption, jsonOption]
      operands := [dataOperand] }
  | encodeInstruction =>
    { options := helpOption :: registryOptions, operands := [opcodeOperand, argsOperand] }
  | auctionAmount =>
    { options := helpOption :: registryOptions ++ [instructionOption, startAmountOption,
        endAmountOption, startTimeOption, durationOption, directionOption, nowOption,
        noStrictOption] }
  | decodeTraits => { options := [helpOption, strictOption], operands := [kindOperand, wordOperand] }
  | encodeTraits => { options := [helpOption], operands := [kindOperand, fieldsOperand] }

/-- The width of the column of names in the overview. -/
def nameWidth : Nat := (all.map fun c => c.name.length).foldl max 0

/-- The line of a command in the overview. -/
def line (c : Command) : String :=
  "    " ++ Text.padRight nameWidth c.name ++ "   " ++ c.description ++ "\n"

/-- A line that shows how to call a command. -/
def usage (c : Command) : String :=
  let options := c.grammar.options.map fun o => " [" ++ o.spelling ++ "]"
  let operands := c.grammar.operands.map fun p => " " ++ p.name
  "usage: " ++ programName ++ " " ++ c.name ++ joined "" (options ++ operands) ++ "\n"

end Command

/-! ## The overview -/

/-- A heading in bright red. -/
def heading (s : String) : String := "\x1b[31m\x1b[1m[" ++ s ++ "]\x1b[0m\n"

/-- A group with its commands. -/
def Group.block (g : Group) : String :=
  heading g.name ++ joined "" ((Command.all.filter (·.group = g)).map Command.line) ++ "\n"

/-- The list of all commands. -/
def overview : String :=
  "\nAvailable subcommands:\n\n" ++ joined "" (Group.all.map Group.block)

/-- The answer to a name that no command has. -/
def unknownCommand (name : String) : String :=
  "Unknown command: \"" ++ name ++ "\"\nType \"" ++ programName ++ " " ++ overviewWord
    ++ "\" for usage.\n"

end SwapCodec.CommandLine
