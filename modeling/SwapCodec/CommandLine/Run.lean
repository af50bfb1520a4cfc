import SwapCodec.CommandLine.Arguments
import SwapCodec.CommandLine.Command
import SwapCodec.CommandLine.Log
import SwapCodec.Json.Reader
import SwapCodec.Layout.Text
import SwapCodec.Settings.Session
import SwapCodec.Traits.Codec

/-!
# Running commands

Each command is a `Run`: it may use the settings of the session, it logs events, and it ends with
the text that it prints or with a stop. `Command.run` gives the run of a command.

A command that needs a registry takes the table that is named on the command line, and only
without one it loads the settings and takes theirs (`activeRegistry`).
-/

set_option autoImplicit false

namespace SwapCodec.CommandLine

/-- What a command can see. -/
structure World where
  /-- The variables of the environment. -/
  environment : Variables := .ofList []
  /-- The files. -/
  files : FileTree
  /-- The time in seconds. -/
  clock : Int

/-- What a running command has done so far. -/
structure Progress where
  /-- The settings and the registry in use. -/
  session : Session := {}
  /-- The events, in order. -/
  log : List LogEntry := []

/-- A running command. -/
abbrev Run (α : Type) : Type := ExceptT Stop (StateM Progress) α

namespace Run

/-- Ends the command. -/
def stop {α : Type} (s : Stop) : Run α := fun p => (.error s, p)

/-- Refuses the input. -/
def refuse {α : Type} (why : Refusal) : Run α := stop (.refused why)

/-- Logs events. -/
def record (entries : List LogEntry) : Run Unit :=
  fun p => (.ok (), { p with log := p.log ++ entries })

/-- Goes on with a result, or ends as its error says. -/
def check {α : Type} (r : Except Error α) : Run α := fun p => (r.mapError Stop.ofError, p)

/-- Goes on with a result, or refuses the input. -/
def require {α : Type} (r : Option α) (why : Refusal) : Run α := fun p =>
  match r with
  | some x => (.ok x, p)
  | none => (.error (.refused why), p)

/-- A step of the session. -/
def inSession {α : Type} (step : SessionM α) : Run α := fun p =>
  match step p.session with
  | (r, session) => (r.mapError Stop.ofError, { p with session := session })

end Run

/-! ## Settings and registries -/

/-- The event of loading settings. -/
def loadingEntry (source : String) : LogEntry where
  level := .debug
  origin := "swapvm.conf.get_settings"
  event := "loading settings"
  details := [("source", .str source)]

/-- The events of filling and freezing a registry. -/
def registryEntries (R : Registry) : List LogEntry :=
  let origin := "swapvm.registry"
  R.opcodes.mapIdx (fun i o =>
    { level := .debug, origin := origin, event := "opcode registered",
      details := [("registry", .str R.name), ("opcode", .str o.dotted),
        ("discriminator", .int i)] })
    ++ [{ level := .info, origin := origin, event := "registry frozen",
          details := [("registry", .str R.name), ("opcodes", .int R.size)] }]

/-- Logs that the settings are about to be loaded, unless they are there. -/
def announceLoading : Run Unit := fun p =>
  match p.session.loaded with
  | some _ => (.ok (), p)
  | none => Run.record [loadingEntry p.session.wanted] p

/-- The settings. -/
def settings (w : World) : Run Settings := do
  announceLoading
  Run.inSession (Session.settings w.files)

/-- The registry of the table that is named on the command line, or of the one that the settings
name. -/
def activeRegistry (w : World) (a : Arguments) : Run Registry := do
  match a.text? opcodeSetOption.name with
  | some set =>
    let R ← Run.check (Registry.ofName (.str set))
    Run.record (registryEntries R)
    return R
  | none =>
    announceLoading
    let R ← Run.inSession (Session.defaultRegistry w.files)
    Run.record (registryEntries R)
    return R

/-! ## Reading arguments -/

/-- The bytes that a text denotes; it may have the marker `0x`. -/
def readHex (s : String) : Run (List UInt8) :=
  Run.require (Text.bytesOfHex? (Text.dropHexMarker s)) (.badHex s)

/-- The document that a text holds. -/
def readDocument (s : String) : Run Value :=
  match Json.read s with
  | .ok v => pure v
  | .error .malformed => Run.refuse .badDocument
  | .error .numeralTooLong => Run.stop (.failed (.fault .value))

/-- The layout of a kind of order traits. -/
def layoutOf (kind : String) : Layout :=
  if kind == "maker" then TraitKind.maker.layout else TraitKind.taker.layout

/-! ## The commands -/

/-- The name of the registry and the line of each opcode, with its discriminator and its record of
arguments. -/
def opcodeTable (R : Registry) : String :=
  let width := (R.opcodes.map fun o => o.dotted.length).foldl max 0
  let line := fun (i : Nat) (e : Opcode × Schema) =>
    "  0x" ++ String.ofList (Text.paddedHex 2 i) ++ "  " ++ Text.padRight width e.1.dotted ++ "  "
      ++ e.2.record.name
  joined "\n" (("Opcode set: " ++ R.name) :: R.table.mapIdx line)

/-- The opcodes of a registry as a document. -/
def opcodeDocument (R : Registry) : Value :=
  .list (R.table.mapIdx fun i e =>
    .record [("discriminator", .int i), ("opcode", .str e.1.dotted),
      ("args", .str e.2.record.name),
      ("length", match e.2.fixedLength? with
        | some n => .int n
        | none => .null)])

/-- Prints the opcodes of the registry. -/
def listOpcodes (w : World) (a : Arguments) : Run String := do
  let R ← activeRegistry w a
  if a.has jsonOption.name then Run.check (Json.indented (opcodeDocument R))
  else return opcodeTable R

/-- The arguments of an instruction as a document. -/
def argsDocument (R : Registry) (i : Instruction) : Except Error Value := do
  let schema ← R.resolve (.opcode i.opcode)
  schema.toJson i.args

/-- Prints the instruction that the bytes hold. -/
def decodeInstruction (w : World) (a : Arguments) : Run String := do
  let R ← activeRegistry w a
  let data ← readHex (a.operand dataOperand.name)
  let i ← Run.check (R.decode data)
  let args ← Run.check (argsDocument R i)
  if a.has jsonOption.name then
    let discriminator ← Run.check (R.discriminatorOf (.opcode i.opcode))
    Run.check (Json.indented (.record [("discriminator", .int discriminator),
      ("opcode", .str i.opcode.dotted), ("args", args)]))
  else
    let text ← Run.check (Json.compact args)
    return i.opcode.dotted ++ " " ++ text

/-- The instructions of a program as a document. -/
def programDocument (R : Registry) (is : List Instruction) : Except Error Value := do
  let entries ← is.mapM fun i => do
    let args ← argsDocument R i
    return .record [("opcode", .str i.opcode.dotted), ("args", args)]
  return .list entries

/-- Prints the instructions of a program. -/
def decodeProgram (w : World) (a : Arguments) : Run String := do
  let R ← activeRegistry w a
  let data ← readHex (a.operand dataOperand.name)
  let limit ← match a.integer? maxLengthOption.name with
    | some n => pure n
    | none => do
      let settings ← settings w
      pure settings.maxProgramLength
  let is ← Run.check (R.decodeProgram data limit)
  if a.has jsonOption.name then
    let document ← Run.check (programDocument R is)
    Run.check (Json.indented document)
  else Run.check (R.listing (is.map Instruction.toPair))

/-- Prints the bytes of an instruction. -/
def encodeInstruction (w : World) (a : Arguments) : Run String := do
  let R ← activeRegistry w a
  let document ← readDocument (a.operand argsOperand.name)
  let name := a.operand opcodeOperand.name
  let o ← Run.require (Opcode.ofName? name) (.cause (.unknownOpcodeName (.str name)))
  let args ← Run.check (R.argsOfJson (.opcode o) document)
  let data ← Run.check (R.encode (.opcode o) args)
  return "0x" ++ Text.hexOfBytes data

/-- The auction that an instruction stands for, with its direction. -/
def auctionOfInstruction (w : World) (a : Arguments) (text : String) :
    Run (Value × Direction) := do
  let R ← activeRegistry w a
  let data ← readHex text
  let i ← Run.check (R.decode data)
  let d ← Run.check (directionOf (.opcode i.opcode))
  return (i.args, d)

/-- The auction that the options describe, with its direction. -/
def auctionOfOptions (a : Arguments) : Run (Value × Direction) := do
  let needed := [startAmountOption, endAmountOption, startTimeOption, durationOption]
  let d := ((a.text? directionOption.name).bind Direction.ofName?).getD .input
  match needed.map fun o => a.integer? o.name with
  | [some startAmount, some endAmount, some startTime, some duration] =>
    return (Auction.toArgs ⟨startAmount, endAmount, startTime, duration⟩, d)
  | _ =>
    let missing := needed.filter fun o => (a.integer? o.name).isNone
    Run.refuse (.missingOptions (missing.map CommandOption.spelling))

/-- The event of looking at an auction. -/
def auctionEntry (args : Value) (d : Direction) (now : Int) : LogEntry where
  level := .debug
  origin := "swapvm_cli.auction_amount"
  event := "evaluating auction"
  details := [("auction", .str (args.quoted?.getD "")), ("direction", .str d.name),
    ("now", .int now)]

/-- Prints the amount of an auction. -/
def auctionAmount (w : World) (a : Arguments) : Run String := do
  let now := (a.integer? nowOption.name).getD w.clock
  let text := (a.text? instructionOption.name).getD ""
  let (args, d) ← if text.isEmpty then auctionOfOptions a else auctionOfInstruction w a text
  Run.record [auctionEntry args d now]
  let auction ← Run.check (Auction.ofArgs args)
  let amount ← Run.check (auction.price d (!a.has noStrictOption.name) now)
  match Text.decimal? amount with
  | some s => return s
  | none => Run.stop (.failed (.fault .value))

/-- Prints the fields of a word of order traits. -/
def decodeTraits (a : Arguments) : Run String := do
  let text := a.operand wordOperand.name
  let word ← Run.require (Text.readMarked text) (.badInteger text)
  let layout := layoutOf (a.operand kindOperand.name)
  let fields ← Run.check (layout.unpackAs (a.has strictOption.name) (.int word))
  Run.check (Json.indented (.record (fields.map fun f => (f.1, f.2.toValue))))

/-- Prints the word that holds the fields of order traits. -/
def encodeTraits (a : Arguments) : Run String := do
  let document ← readDocument (a.operand fieldsOperand.name)
  match document with
  | .dict entries =>
    let word ← Run.check ((layoutOf (a.operand kindOperand.name)).pack entries)
    return "0x" ++ String.ofList (Text.paddedHex 64 word)
  | _ => Run.refuse .dictionaryRequired

/-- The run of a command. -/
def Command.run (c : Command) (w : World) (a : Arguments) : Run String :=
  match c with
  | .listOpcodes => SwapCodec.CommandLine.listOpcodes w a
  | .decodeInstruction => SwapCodec.CommandLine.decodeInstruction w a
  | .decodeProgram => SwapCodec.CommandLine.decodeProgram w a
  | .encodeInstruction => SwapCodec.CommandLine.encodeInstruction w a
  | .auctionAmount => SwapCodec.CommandLine.auctionAmount w a
  | .decodeTraits => SwapCodec.CommandLine.decodeTraits a
  | .encodeTraits => SwapCodec.CommandLine.encodeTraits a

end SwapCodec.CommandLine
