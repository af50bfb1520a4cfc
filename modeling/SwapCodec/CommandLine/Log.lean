import SwapCodec.Value

/-!
# Logs

An event is logged with its level, the part of the program it happened in and named details. An
entry is a dictionary (`LogEntry.document`) when events are logged as documents.
-/

set_option autoImplicit false

namespace SwapCodec.CommandLine

/-- How much an event matters. -/
inductive LogLevel where
  /-- A detail. -/
  | debug
  /-- Something that users may want to know. -/
  | info
  /-- A failure. -/
  | error
  deriving DecidableEq, Repr

/-- The name of a level. -/
def LogLevel.name : LogLevel → String
  | debug => "debug"
  | info => "info"
  | error => "error"

/-- An event. -/
structure LogEntry where
  /-- How much it matters. -/
  level : LogLevel
  /-- Where it happened. -/
  origin : String
  /-- What happened. -/
  event : String
  /-- With what. -/
  details : List (String × Value) := []

/-- The entry as a dictionary. -/
def LogEntry.document (e : LogEntry) : Value :=
  .record (e.details
    ++ [("event", .str e.event), ("level", .str e.level.name), ("logger", .str e.origin)])

/-- In which form events are logged. -/
inductive LogFormat where
  /-- Not at all. -/
  | silent
  /-- As text. -/
  | plain
  /-- As documents. -/
  | documents
  deriving DecidableEq, Repr

/-- Which events are logged, and how. -/
structure LogOptions where
  /-- The form. -/
  format : LogFormat := .plain
  /-- Details too. -/
  debug : Bool := false
  deriving DecidableEq, Repr

/-- The entries that are logged. -/
def LogOptions.select (o : LogOptions) (entries : List LogEntry) : List LogEntry :=
  match o.format with
  | .silent => []
  | _ => entries.filter fun e => o.debug || e.level != .debug

end SwapCodec.CommandLine
