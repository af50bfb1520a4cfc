import SwapCodec.Proofs.Failure
import SwapCodec.Settings.Session
import Mathlib.Logic.Relation

/-!
# One configuration

A session keeps two things that it makes at their first use: its settings, for
which the source is compared at every use, and its default registry, for which it
never is. The source may be named anew between any two operations.

Everything that an operation does to a session is a sequence of moves: naming a
source, loading settings where there are none, and building the registry where
there is none, from settings that have been loaded (`Session.Move`,
`Session.moves_call`). So what has been loaded or built stays
(`Session.Moves.loaded_eq`, `Session.Moves.registry_eq`), and what moves preserve
is that the settings are those of their source and that the registry is that of
the settings (`Session.Consistent`).
-/

set_option autoImplicit false

namespace SwapCodec

namespace Session

/-! ## Operations -/

/-- An operation of a session. -/
inductive Call where
  /-- Naming a source, or the default one. -/
  | name (source : Option String)
  /-- Asking for the settings. -/
  | settings
  /-- Asking for the source of the settings. -/
  | loadedSource
  /-- Asking for the default registry. -/
  | defaultRegistry
  /-- Decoding a program with the default registry. -/
  | decodeProgram (data : List UInt8) (limit : Option Int)
  /-- Pricing the auction that an instruction stands for. -/
  | instructionPrice (identity args : Value) (strict : Option Bool) (now : Value)

/-- The session after an operation, whether or not it failed. -/
def call (t : FileTree) (s : Session) : Call → Session
  | .name source => (name source s).2
  | .settings => (settings t s).2
  | .loadedSource => (loadedSource s).2
  | .defaultRegistry => (defaultRegistry t s).2
  | .decodeProgram data limit => (decodeProgram t data limit s).2
  | .instructionPrice identity args strict now => (instructionPrice t identity args strict now s).2

/-- The session after a sequence of operations. -/
def run (t : FileTree) (s : Session) (calls : List Call) : Session := calls.foldl (call t) s

/-- The settings that the source describes which the session names. -/
def described (t : FileTree) (s : Session) : Except Error Settings :=
  t.settings none (t.home.join s.wanted)

variable {t : FileTree} {s next : Session} {source : String} {X : Settings} {R : Registry}
  {e : Error}

/-! ## The settings -/

theorem settings_of_loaded (loaded : s.loaded = some (source, X)) :
    settings t s = (if s.wanted = source then .ok X else .error .secondSource, s) := by
  rw [settings, loaded]
  by_cases same : source = s.wanted
  · simp only [same, beq_self_eq_true, if_true]
  · simp only [beq_eq_false_iff_ne.mpr same, if_neg (Ne.symm same)]
    rfl

theorem settings_of_wanted (loaded : s.loaded = some (s.wanted, X)) :
    settings t s = (.ok X, s) := by
  rw [settings_of_loaded loaded, if_pos rfl]

theorem settings_of_described (fresh : s.loaded = none) (described : s.described t = .ok X) :
    settings t s = (.ok X, { s with loaded := some (s.wanted, X) }) := by
  rw [Session.described] at described
  rw [settings, fresh]
  simp only [described]

theorem settings_of_error (fresh : s.loaded = none) (failed : s.described t = .error e) :
    settings t s = (.error e, s) := by
  rw [Session.described] at failed
  rw [settings, fresh]
  simp only [failed]

/-- Settings that are given are those that are loaded from then on. -/
theorem loaded_of_settings (given : settings t s = (.ok X, next)) :
    next = { s with loaded := some (s.wanted, X) } := by
  cases loaded : s.loaded with
  | some memory =>
      obtain ⟨source, Y⟩ := memory
      rw [settings_of_loaded loaded] at given
      split at given
      · rename_i same
        cases given
        rw [same, ← loaded]
      · cases given
  | none =>
      cases described : s.described t with
      | ok Y =>
          rw [settings_of_described loaded described] at given
          cases given
          rfl
      | error e =>
          rw [settings_of_error loaded described] at given
          cases given

/-! ## Moves -/

/-- What can happen to a session. -/
inductive Move (t : FileTree) : Session → Session → Prop where
  /-- A source is named, or the default one. -/
  | name (s : Session) (source : Option String) : Move t s { s with source := source }
  /-- Settings are loaded where there are none. -/
  | load {s : Session} {X : Settings} (fresh : s.loaded = none) (described : s.described t = .ok X) :
      Move t s { s with loaded := some (s.wanted, X) }
  /-- The registry of the loaded settings is built where there is none. -/
  | build {s : Session} {X : Settings} (fresh : s.registry = none)
      (loaded : s.loaded = some (s.wanted, X)) :
      Move t s { s with registry := some (.ofSet X.opcodeSet) }

/-- Moves, one after the other. -/
abbrev Moves (t : FileTree) : Session → Session → Prop := Relation.ReflTransGen (Move t)

theorem moves_settings (t : FileTree) (s : Session) : Moves t s (settings t s).2 := by
  cases loaded : s.loaded with
  | some memory =>
      rw [settings_of_loaded loaded]
  | none =>
      cases described : s.described t with
      | ok X =>
          rw [settings_of_described loaded described]
          exact .single (.load loaded described)
      | error e =>
          rw [settings_of_error loaded described]

theorem moves_defaultRegistry (t : FileTree) (s : Session) : Moves t s (defaultRegistry t s).2 := by
  rw [defaultRegistry]
  cases built : s.registry with
  | some R => exact .refl
  | none =>
      have asked := moves_settings t s
      cases given : settings t s with
      | mk outcome next =>
          rw [given] at asked
          cases outcome with
          | error e => exact asked
          | ok X =>
              obtain rfl := loaded_of_settings given
              exact asked.tail (.build built rfl)

theorem moves_bind {α β : Type} {x : SessionM α} {f : α → SessionM β}
    (first : ∀ s, Moves t s (x s).2) (second : ∀ a s, Moves t s (f a s).2) (s : Session) :
    Moves t s ((x >>= f) s).2 := by
  have moved := first s
  rw [bind_apply]
  split <;> rename_i taken <;> rw [taken] at moved
  · exact moved.trans (second _ _)
  · exact moved

theorem moves_lift {α : Type} (r : Except Error α) (s : Session) : Moves t s (lift r s).2 := .refl

theorem moves_limit (t : FileTree) (given : Option Int) (s : Session) :
    Moves t s (limit t given s).2 := by
  cases given with
  | some n => exact .refl
  | none => exact moves_bind (moves_settings t) (fun _ _ => .refl) s

/-- **Steps.** All that an operation does to a session is a sequence of moves. -/
theorem moves_call (t : FileTree) (s : Session) (c : Call) : Moves t s (s.call t c) := by
  cases c with
  | name source => exact .single (.name s source)
  | settings => exact moves_settings t s
  | loadedSource =>
      rw [call, loadedSource]
      cases s.loaded <;> exact .refl
  | defaultRegistry => exact moves_defaultRegistry t s
  | decodeProgram data limit =>
      exact moves_bind (moves_defaultRegistry t)
        (fun R => moves_bind (moves_limit t limit) fun n => moves_lift _) s
  | instructionPrice identity args strict now =>
      refine moves_bind (moves_lift _) (fun _ => ?_) s
      cases strict with
      | some strict => exact moves_lift _
      | none => exact moves_bind (moves_settings t) fun X => moves_lift _

/-- **Runs.** All that a sequence of operations does to a session is a sequence of moves. -/
theorem moves_run (t : FileTree) (s : Session) (calls : List Call) : Moves t s (s.run t calls) := by
  induction calls generalizing s with
  | nil => exact .refl
  | cons c calls ih => exact (moves_call t s c).trans (ih (s.call t c))

/-! ## What moves preserve -/

theorem Moves.loaded_eq (h : Moves t s next) {memory : String × Settings}
    (loaded : s.loaded = some memory) : next.loaded = some memory := by
  induction h with
  | refl => exact loaded
  | tail _ move ih =>
      cases move with
      | name => exact ih
      | load fresh => cases fresh.symm.trans ih
      | build => exact ih

theorem Moves.registry_eq (h : Moves t s next) (built : s.registry = some R) :
    next.registry = some R := by
  induction h with
  | refl => exact built
  | tail _ move ih =>
      cases move with
      | name => exact ih
      | load => exact ih
      | build fresh => cases fresh.symm.trans ih

/-- The settings are those of their source, and the registry is that of the settings. -/
structure Consistent (t : FileTree) (s : Session) : Prop where
  /-- What has been loaded is what its source describes. -/
  described : ∀ {source X}, s.loaded = some (source, X) →
    t.settings none (t.home.join source) = .ok X
  /-- What has been built is the registry of the settings that have been loaded. -/
  built : ∀ {R}, s.registry = some R →
    ∃ source X, s.loaded = some (source, X) ∧ R = .ofSet X.opcodeSet

theorem Consistent.start (t : FileTree) (source : Option String) :
    Consistent t { source := source } where
  described := nofun
  built := nofun

theorem Consistent.move (h : s.Consistent t) (move : Move t s next) : next.Consistent t := by
  cases move with
  | name source => exact ⟨h.described, h.built⟩
  | load fresh described =>
      refine ⟨fun loaded => ?_, fun built => ?_⟩
      · cases loaded
        exact described
      · obtain ⟨_, _, loaded, _⟩ := h.built built
        cases fresh.symm.trans loaded
  | build fresh loaded =>
      refine ⟨h.described, fun built => ?_⟩
      cases built
      exact ⟨_, _, loaded, rfl⟩

theorem Consistent.moves (h : s.Consistent t) (moves : Moves t s next) : next.Consistent t := by
  induction moves with
  | refl => exact h
  | tail _ move ih => exact ih.move move

/-- A registry that has been built was built from settings that had been loaded before. -/
theorem Moves.exists_before (h : Moves t s next) (fresh : s.registry = none)
    (built : next.registry = some R) :
    ∃ before source X, Moves t s before ∧ before.registry = none ∧
      before.loaded = some (source, X) ∧ R = .ofSet X.opcodeSet ∧ Moves t before next := by
  induction h with
  | refl => cases fresh.symm.trans built
  | @tail middle _ earlier move ih =>
      cases move with
      | name source =>
          obtain ⟨before, source', X, moved, unbuilt, loaded, same, later⟩ := ih built
          exact ⟨before, source', X, moved, unbuilt, loaded, same, later.tail (.name _ source)⟩
      | load unloaded described =>
          obtain ⟨before, source', X, moved, unbuilt, loaded, same, later⟩ := ih built
          exact ⟨before, source', X, moved, unbuilt, loaded, same,
            later.tail (.load unloaded described)⟩
      | build unbuilt loaded =>
          cases built
          exact ⟨middle, _, _, earlier, unbuilt, loaded, rfl, .single (.build unbuilt loaded)⟩

/-! ## What operations give -/

theorem defaultRegistry_of_settings (unbuilt : s.registry = none)
    (given : settings t s = (.ok X, next)) :
    defaultRegistry t s =
      (.ok (.ofSet X.opcodeSet), { next with registry := some (.ofSet X.opcodeSet) }) := by
  rw [defaultRegistry, unbuilt]
  simp only [given]

theorem defaultRegistry_of_error (unbuilt : s.registry = none)
    (failed : settings t s = (.error e, next)) : defaultRegistry t s = (.error e, next) := by
  rw [defaultRegistry, unbuilt]
  simp only [failed]

/-- A program is decoded with the registry and the limit of the settings that are given. -/
theorem Consistent.decodeProgram_eq (h : s.Consistent t) (data : List UInt8) :
    (decodeProgram t data none s).1 = (do
      let X ← (settings t s).1
      (Registry.ofSet X.opcodeSet).decodeProgram data X.maxProgramLength) := by
  have limited {s next : Session} {R : Registry} {outcome : Except Error Settings}
      (asked : settings t s = (outcome, next)) :
      ((limit t none >>= fun n => lift (R.decodeProgram data n)) s).1 =
        outcome >>= fun X => R.decodeProgram data X.maxProgramLength := by
    rw [bind_apply, limit, bind_apply, asked]
    cases outcome <;> rfl
  rw [decodeProgram, bind_apply]
  cases built : s.registry with
  | some R =>
      obtain ⟨source, X, loaded, rfl⟩ := h.built built
      rw [defaultRegistry, built]
      dsimp only
      rw [limited (settings_of_loaded loaded), settings_of_loaded loaded]
      split <;> rfl
  | none =>
      cases given : settings t s with
      | mk outcome next =>
          cases outcome with
          | error e =>
              rw [defaultRegistry_of_error built given]
              rfl
          | ok X =>
              obtain rfl := loaded_of_settings given
              rw [defaultRegistry_of_settings built given]
              dsimp only
              rw [limited (settings_of_loaded rfl)]
              show (if s.wanted = s.wanted then _ else _) >>= _ = _
              rw [if_pos rfl]
              rfl

/-- An auction is held to its direction as the settings say that are given. -/
theorem instructionPrice_eq (t : FileTree) (s : Session) (identity args now : Value) :
    (instructionPrice t identity args none now s).1 = (do
      let _ ← directionOf identity
      let X ← (settings t s).1
      SwapCodec.instructionPrice identity args X.strictAuctions now) := by
  rw [instructionPrice, bind_apply, lift]
  cases directionOf identity with
  | error e => rfl
  | ok d =>
      dsimp only
      rw [bind_apply]
      cases settings t s with
      | mk outcome next => cases outcome <;> rfl

/-- Where nothing can be loaded nothing is changed, except by naming another source. -/
theorem Consistent.call_of_error (h : s.Consistent t) (fresh : s.loaded = none)
    (failed : s.described t = .error e) {c : Call} (other : ∀ source, c ≠ .name source) :
    s.call t c = s := by
  have asked := settings_of_error fresh failed
  have unbuilt : s.registry = none := by
    cases built : s.registry with
    | none => rfl
    | some R =>
        obtain ⟨_, _, loaded, _⟩ := h.built built
        cases fresh.symm.trans loaded
  have refused := defaultRegistry_of_error unbuilt asked
  cases c with
  | name source => exact absurd rfl (other source)
  | settings => rw [call, asked]
  | loadedSource => rw [call, loadedSource, fresh]
  | defaultRegistry => rw [call, refused]
  | decodeProgram data limit => rw [call, decodeProgram, bind_apply, refused]
  | instructionPrice identity args strict now =>
      show ((lift (directionOf identity) >>= _) s).2 = s
      rw [bind_apply, lift]
      cases directionOf identity with
      | error e => rfl
      | ok d =>
          cases strict with
          | some strict => rfl
          | none =>
              dsimp only
              rw [bind_apply, asked]

end Session

/-- **One configuration.** Take any files, which do not change, and any operations of a
session, with any sources named on the way.

Settings that have been loaded are what their source describes. They are kept ever after,
and given whenever the session names that source; otherwise asking for them fails and
changes nothing. A load that fails leaves nothing behind, and while nothing has been
loaded, any other source can be named and loaded.

A registry that has been built was built from settings that had been loaded before. It is
the registry of their table, and it stays, whatever is named later. Programs and auctions
are read with the registry, the limit and the strictness of the same settings. -/
theorem session_one_configuration (t : FileTree) (initial : Option String)
    (calls : List Session.Call) :
    let start : Session := { source := initial }
    let s := start.run t calls
    (∀ source X, s.loaded = some (source, X) →
      t.settings none (t.home.join source) = .ok X ∧
      ∀ later, let s' := s.run t later
        Session.settings t s' = (if s'.wanted = source then .ok X else .error .secondSource, s') ∧
          Session.loadedSource s' = (.ok source, s')) ∧
    (∀ X, (Session.settings t s).1 = .ok X →
      (s.call t .settings).loaded = some (s.wanted, X)) ∧
    (s.loaded = none →
      (∀ e, s.described t = .error e → Session.settings t s = (.error e, s) ∧
        ∀ c : Session.Call, (∀ source, c ≠ .name source) → s.call t c = s) ∧
      ∀ source X, (s.call t (.name source)).described t = .ok X →
        (Session.settings t (s.call t (.name source))).1 = .ok X) ∧
    (∀ R, s.registry = some R →
      ∃ before source X, Session.Moves t start before ∧ before.registry = none ∧
        before.loaded = some (source, X) ∧ Session.Moves t before s ∧
        R = .ofSet X.opcodeSet ∧ s.loaded = some (source, X) ∧
        ∀ later, (s.run t later).registry = some R ∧
          Session.defaultRegistry t (s.run t later) = (.ok R, s.run t later)) ∧
    (∀ data, (Session.decodeProgram t data none s).1 = (do
      let X ← (Session.settings t s).1
      (Registry.ofSet X.opcodeSet).decodeProgram data X.maxProgramLength)) ∧
    ∀ identity args now, (Session.instructionPrice t identity args none now s).1 = (do
      let _ ← directionOf identity
      let X ← (Session.settings t s).1
      instructionPrice identity args X.strictAuctions now) := by
  intro start s
  have moved : Session.Moves t start s := Session.moves_run t start calls
  have consistent : s.Consistent t := (Session.Consistent.start t initial).moves moved
  refine ⟨fun source X loaded => ⟨consistent.described loaded, fun later => ?_⟩,
    fun X given => ?_, fun fresh => ⟨fun e failed => ?_, fun source X described => ?_⟩,
    fun R built => ?_, consistent.decodeProgram_eq, Session.instructionPrice_eq t s⟩
  · have kept := (Session.moves_run t s later).loaded_eq loaded
    refine ⟨Session.settings_of_loaded kept, ?_⟩
    rw [Session.loadedSource, kept]
  · have asked : Session.settings t s = (.ok X, s.call t .settings) := Prod.ext given rfl
    rw [Session.loaded_of_settings asked]
  · exact ⟨Session.settings_of_error fresh failed,
      fun c other => consistent.call_of_error fresh failed other⟩
  · rw [Session.settings_of_described (s := s.call t (.name source)) fresh described]
  · obtain ⟨before, source, X, earlier, unbuilt, loaded, same, later⟩ :=
      moved.exists_before rfl built
    refine ⟨before, source, X, earlier, unbuilt, loaded, later, same, later.loaded_eq loaded,
      fun calls' => ?_⟩
    have kept := (Session.moves_run t s calls').registry_eq built
    refine ⟨kept, ?_⟩
    rw [Session.defaultRegistry, kept]

/-- A source that is no file is tried first; then one is named, and its registry is used. -/
def retriedCalls : List Session.Call := [.settings, .name (some "own.yml"), .defaultRegistry]

theorem session_one_configuration_retried :
    let t := FileTree.withShipped ⟨["home"]⟩ [(⟨["home", "own.yml"]⟩, "OPCODE_SET: aqua\n")]
    let s := Session.run t { source := some "missing.yml" } retriedCalls
    let later := s.run t [.name none]
    s.loaded = some ("own.yml", { opcodeSet := .aqua }) ∧ s.registry.isSome = true ∧
      Session.settings t later = (.error .secondSource, later) ∧
      Session.defaultRegistry t later = (.ok (.ofSet .aqua), later) := by
  intro t s later
  have loaded : s.loaded = some ("own.yml", { opcodeSet := .aqua }) := by decide +kernel
  have built : s.registry.isSome = true := by decide +kernel
  have elsewhere : ¬later.wanted = "own.yml" := by decide +kernel
  obtain ⟨R, registry⟩ := Option.isSome_iff_exists.mp built
  obtain ⟨kept, _, _, keeps, _⟩ :=
    session_one_configuration t (some "missing.yml") retriedCalls
  obtain ⟨_, given⟩ := kept _ _ loaded
  obtain ⟨refused, _⟩ := given [.name none]
  rw [if_neg elsewhere] at refused
  obtain ⟨_, _, X, _, _, _, _, rfl, again, unchanged⟩ := keeps R registry
  cases loaded.symm.trans again
  exact ⟨loaded, built, refused, (unchanged [.name none]).2⟩

end SwapCodec
