import SwapCodec.CommandLine.Run

/-!
# Responses

What a command line leads to: an exit code, the text on each of the two output streams and the
events that are logged. `respond` is the whole program as a function of the command line and of
what it can see.

`Invocation.read?` takes a command line apart. The options that say how events are logged are
taken out first, and then the command reads the rest.
-/

set_option autoImplicit false

namespace SwapCodec.CommandLine

/-- What a command line leads to. -/
structure Response where
  /-- The exit code. -/
  exit : Int
  /-- The text on the standard output. -/
  out : String := ""
  /-- The text on the error output, without the logged events. -/
  err : String := ""
  /-- The form in which events are logged. -/
  format : LogFormat := .plain
  /-- The logged events. -/
  logs : List LogEntry := []

/-- A command line taken apart. -/
structure Invocation where
  /-- The command. -/
  command : Command
  /-- Which events are logged, and how. -/
  logging : LogOptions
  /-- What is given to the command. -/
  arguments : Arguments

/-- The variable of the environment that names the source of the settings. -/
def sourceVariable : String := configOption.variable

namespace Invocation

/-- The options that say how events are logged, and the rest of the command line. -/
def readLogging (env : Variables) (line : List String) :
    Except Stop (LogOptions × List String) := do
  let output ← outputGrammar.readKnown env line
  let detail ← detailGrammar.readKnown env output.unknown
  let format : LogFormat :=
    if output.has jsonLogsOption.name then .documents
    else if output.has disableLogsOption.name then .silent
    else .plain
  return (⟨format, detail.has debugOption.name⟩, detail.unknown)

/-- Takes the command line of a command apart. -/
def read (c : Command) (env : Variables) (line : List String) : Except Stop Invocation := do
  let (logging, rest) ← readLogging env line
  let a ← c.grammar.readAll env rest
  return ⟨c, logging, a⟩

/-- The source of the settings that is named: on the command line, if it names no table, or by the
environment. -/
def source (i : Invocation) (env : Variables) : Option String :=
  let named := match i.arguments.text? opcodeSetOption.name with
    | some _ => none
    | none => (i.arguments.text? configOption.name).filter fun s => !s.isEmpty
  named <|> env.lookup sourceVariable

/-- The run of the command from its beginning. -/
def run (i : Invocation) (w : World) : Except Stop String × Progress :=
  i.command.run w i.arguments { session := { source := i.source w.environment } }

end Invocation

/-- The event of a failure without a message. -/
def failureEntry : LogEntry where
  level := .error
  origin := "swapvm_cli.main"
  event := "Uncaught exception:"

/-- The response to a command line that cannot be read. -/
def Response.ofUnread (c : Command) : Stop → Response
  | .help => { exit := Stop.help.exitCode, out := c.usage }
  | s => { exit := s.exitCode, err := c.usage }

/-- The response to a command that has run. -/
def Response.ofRun (logging : LogOptions) (log : List LogEntry) : Except Stop String → Response
  | .ok text =>
    { exit := 0, out := text ++ "\n", format := logging.format, logs := logging.select log }
  | .error s =>
    let err := match s with
      | .refused why => "Error: " ++ why.message ++ "\n"
      | _ => ""
    let log := match s with
      | .failed _ => log ++ [failureEntry]
      | _ => log
    { exit := s.exitCode, err := err, format := logging.format, logs := logging.select log }

/-- The response to a command line. -/
def respond (w : World) : List String → Response
  | [] => { exit := 0, out := overview }
  | name :: line =>
    if name == overviewWord then { exit := 0, out := overview }
    else match Command.ofName? name with
      | none => { exit := -1, out := unknownCommand name }
      | some c =>
        match Invocation.read c w.environment line with
        | .error s => .ofUnread c s
        | .ok i =>
          let (r, p) := i.run w
          .ofRun i.logging p.log r

end SwapCodec.CommandLine
