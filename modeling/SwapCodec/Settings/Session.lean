import SwapCodec.Auction
import SwapCodec.Program
import SwapCodec.Settings.Source

/-!
# Sessions

A session reads its settings once. The first use of the settings loads them from the source that
the session names, or from the default one; later uses give the same settings, and fail if the
session names another source by then. A load that fails leaves nothing behind.

The default registry is built from the settings at its first use and then kept, whatever source the
session names later.
-/

set_option autoImplicit false

namespace SwapCodec

/-- What a session remembers. -/
structure Session where
  /-- The named source, if there is one. -/
  source : Option String := none
  /-- The loaded settings with their source. -/
  loaded : Option (String × Settings) := none
  /-- The default registry. -/
  registry : Option Registry := none

/-- A step of a session. -/
abbrev SessionM (α : Type) : Type := ExceptT Error (StateM Session) α

namespace Session

/-- Goes on with a result, or fails and changes nothing. -/
def lift {α : Type} (r : Except Error α) : SessionM α := fun s => (r, s)

/-- Names a source, or the default one. -/
def name (source : Option String) : SessionM Unit := fun s => (.ok (), { s with source := source })

/-- The source that the session names. -/
def wanted (s : Session) : String := s.source.getD defaultSource

/-- The settings of the session. -/
def settings (t : FileTree) : SessionM Settings := fun s =>
  match s.loaded with
  | some (source, settings) =>
    if source == s.wanted then (.ok settings, s) else (fail .secondSource, s)
  | none =>
    match t.settings none (t.home.join s.wanted) with
    | .ok settings => (.ok settings, { s with loaded := some (s.wanted, settings) })
    | .error e => (.error e, s)

/-- The source of the loaded settings. -/
def loadedSource : SessionM String := fun s =>
  match s.loaded with
  | some (source, _) => (.ok source, s)
  | none => (fail .noSettingsLoaded, s)

/-- The registry of the table that the settings name. -/
def defaultRegistry (t : FileTree) : SessionM Registry := fun s =>
  match s.registry with
  | some R => (.ok R, s)
  | none =>
    match settings t s with
    | (.ok settings, s) =>
      let R := Registry.ofSet settings.opcodeSet
      (.ok R, { s with registry := some R })
    | (.error e, s) => (.error e, s)

/-- The given limit, or the one of the settings. -/
def limit (t : FileTree) (given : Option Int) : SessionM Int := do
  match given with
  | some n => pure n
  | none =>
    let settings ← settings t
    pure settings.maxProgramLength

/-- The instructions of a program, read with the default registry. -/
def decodeProgram (t : FileTree) (data : List UInt8) (given : Option Int) :
    SessionM (List Instruction) := do
  let R ← defaultRegistry t
  let n ← limit t given
  lift (R.decodeProgram data n)

/-- The amount of the auction that an instruction stands for, held to its direction as the settings
say unless it is given. -/
def instructionPrice (t : FileTree) (identity args : Value) (strict : Option Bool) (now : Value) :
    SessionM Int := do
  let _ ← lift (directionOf identity)
  match strict with
  | some strict => lift (SwapCodec.instructionPrice identity args strict now)
  | none =>
    let settings ← settings t
    lift (SwapCodec.instructionPrice identity args settings.strictAuctions now)

end Session

end SwapCodec
