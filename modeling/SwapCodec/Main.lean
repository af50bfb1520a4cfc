import Std.Time.DateTime.Timestamp
import SwapCodec.CommandLine.Response
import SwapCodec.Json.Printer

/-!
# The program

Looks up what a command line needs of the environment, the files and the clock, computes the
response and prints it.
-/

set_option autoImplicit false

namespace SwapCodec.CommandLine

/-- The variables of the environment that some option of the program can come from. -/
def knownVariables : List String :=
  let grammars := outputGrammar :: detailGrammar :: Command.all.map Command.grammar
  (grammars.flatMap fun g => g.options.map CommandOption.variable).eraseDups

/-- The values of the known variables. -/
def readVariables : IO (List (String × String)) := do
  let mut found := []
  for name in knownVariables do
    if let some value ← IO.getEnv name then found := found ++ [(name, value)]
  return found

/-- The text of a file, if it can be read. -/
def readFile? (p : Path) : IO (Option String) := do
  try
    let text ← IO.FS.readFile p.text
    return some text
  catch _ => return none

/-- Adds a file and the files that it extends, one after the other. -/
partial def gather (home : Path) (files : List (Path × String)) (p : Path) :
    IO (List (Path × String)) := do
  let p := p.resolved
  match (FileTree.withShipped home files).isFile p with
  | .ok false =>
    match ← readFile? p with
    | none => return files
    | some text =>
      let files := files ++ [(p, text)]
      let t := FileTree.withShipped home files
      match t.document p >>= t.parentName? with
      | .ok (some name) => gather home files (p.parent.join name)
      | _ => return files
  | _ => return files

/-- The named source of the settings, if the command line can be read. -/
def namedSource (env : Variables) : List String → Option String
  | [] => none
  | name :: line => do
    let c ← Command.ofName? name
    let i ← (Invocation.read c env line).toOption
    i.source env

/-- What a command line can see, with the variables, the files and the time as they are. -/
def World.found (texts : List (String × String)) (home : Path) (files : List (Path × String))
    (clock : Int) : World where
  environment := .ofList texts
  files := .withShipped home files
  clock := clock

/-- The line of a logged event. -/
def LogEntry.line (format : LogFormat) (e : LogEntry) : String :=
  let document := match format with
    | .documents => e.document
    | _ => .record e.details
  let text := match Json.compact document with
    | .ok text => text
    | .error _ => ""
  match format with
  | .silent => ""
  | .documents => text ++ "\n"
  | .plain => "[" ++ e.level.name ++ "] " ++ e.event ++ " " ++ text ++ "\n"

/-- Responds to a command line and gives the exit code. -/
def serve (argv : List String) : IO UInt32 := do
  let texts ← readVariables
  let home := (⟨[]⟩ : Path).join (← IO.currentDir).toString
  let files ← match namedSource (.ofList texts) argv with
    | some source => gather home [] (home.join source)
    | none => pure []
  let now ← Std.Time.Timestamp.now
  let r := respond (.found texts home files now.toSecondsSinceUnixEpoch.val) argv
  for e in r.logs do
    IO.eprint (e.line r.format)
  IO.print r.out
  IO.eprint r.err
  return UInt32.ofNat (r.exit % 256).toNat

end SwapCodec.CommandLine

/-- Runs the program. -/
def main (argv : List String) : IO UInt32 :=
  SwapCodec.CommandLine.serve argv
