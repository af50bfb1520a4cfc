import SwapCodec.Proofs.CommandLine.Response
import SwapCodec.Proofs.Program.Listing

/-!
# Naming a table

A program line may name a source of settings and a table. The table is meant to stand in
for the one of the settings, but a line that names one takes nothing from the source: it is
answered as the line without it (`named_table_hides_source`).

What is lost is the limit on the length of programs. A line shows what the registry and
the limit that it ends up with make of the program (`shown_decodeProgram`), and two limits
show the same for a program that one of them admits exactly when the other admits it too
(`shown_limits_iff`).
-/

set_option autoImplicit false

namespace SwapCodec.CommandLine

/-! ## Limits -/

section

variable {S : OpcodeSet} {limit : Int} {text : String} {data : List UInt8}
  {is : List Instruction}

theorem exitCode_ofError (e : Error) : (Stop.ofError e).exitCode ≠ 0 := by
  rw [Stop.ofError]
  split
  · show (1 : Int) ≠ 0
    decide
  · show (2 : Int) ≠ 0
    decide

/-- A program that is longer than the limit is not listed. -/
theorem programText_of_long {R : Registry}
    (bytes : Text.bytesOfHex? (Text.dropHexMarker text) = some data) (long : limit < data.length) :
    ∃ s, programText R (.ok limit) text = .error s ∧ s.exitCode ≠ 0 := by
  rw [programText, bytes]
  simp only [Option.elim_some, Except.ok_bind, Registry.decodeProgram_eq_fail long]
  exact ⟨_, rfl, exitCode_ofError _⟩

/-- Another limit makes a difference to a program exactly if the program is longer. -/
theorem shown_limits_iff (bytes : Text.bytesOfHex? (Text.dropHexMarker text) = some data)
    (decoded : (Registry.ofSet S).decodeProgram data limit = .ok is) (other : Int) :
    (Response.ofRun {} [] (programText (.ofSet S) (.ok limit) text)).shown =
        (Response.ofRun {} [] (programText (.ofSet S) (.ok other) text)).shown ↔
      (data.length : Int) ≤ other := by
  obtain ⟨_, _, -, listed⟩ := Registry.exists_listing decoded
  rw [programText_eq_ok bytes decoded listed]
  constructor
  · intro same
    refine Int.not_lt.mp fun long => ?_
    obtain ⟨s, stopped, exit⟩ := programText_of_long (R := .ofSet S) bytes long
    rw [stopped] at same
    exact exit (congrArg Prod.fst same).symm
  · intro enough
    have again : (Registry.ofSet S).decodeProgram data other = .ok is := by
      rw [Registry.decodeProgram] at decoded ⊢
      split at decoded
      · exact absurd decoded fail_ne_ok
      · rwa [if_neg (Int.not_lt.mpr enough)]
    rw [programText_eq_ok bytes again listed]

end

/-- **Naming a table.** Take an environment from which no option but the source of the settings
comes. A program line that names a source and a table is responded to as the one that names
the table alone: nothing is taken from the source, be there such a file or not.

So the line shows what the settings of the environment with the named table would show, and
where the program can be decoded under their limit, it shows what the settings of the named
source with the named table would show exactly if the program is no longer than their limit. -/
theorem named_table_hides_source (w : World) (env : w.environment.OnlySource)
    (source text : String) (S : OpcodeSet) (plainSource : Plain source) (filled : source ≠ "")
    (plainText : Plain text) :
    let line := ["decode_program", "--config-yaml", source, "--opcode-set", S.name, text]
    respond w line = respond w ["decode_program", "--opcode-set", S.name, text] ∧
      ∀ D, w.described (w.environment.lookup sourceVariable) = .ok D →
        (∀ other, Plain other → other ≠ "" →
          w.described (some other) = .ok { D with opcodeSet := S } →
          (respond w line).shown =
            (respond w ["decode_program", "--config-yaml", other, text]).shown) ∧
        ∀ X, w.described (some source) = .ok X →
          ∀ other, Plain other → other ≠ "" →
            w.described (some other) = .ok { X with opcodeSet := S } →
            ∀ data is, Text.bytesOfHex? (Text.dropHexMarker text) = some data →
              (Registry.ofSet S).decodeProgram data D.maxProgramLength = .ok is →
              ((respond w line).shown =
                  (respond w ["decode_program", "--config-yaml", other, text]).shown ↔
                (data.length : Int) ≤ X.maxProgramLength) := by
  intro line
  have both : (⟨some source, some S⟩ : RegistryChoice).Named := by
    rintro s ⟨⟩
    exact plainSource
  constructor
  · obtain ⟨a, table, data, json, limit, responded⟩ := exists_run_decodeProgram
      (k := ⟨some source, some S⟩) env both (by simpa using filled) plainText
    obtain ⟨a', table', data', json', limit', responded'⟩ := exists_run_decodeProgram
      (k := ⟨none, some S⟩) env nofun nofun plainText
    have same := decodeProgram_congr (w := w) (table.trans table'.symm) (data.trans data'.symm)
      (limit.trans limit'.symm) (json.trans json'.symm)
    rw [same] at responded
    exact responded.trans responded'.symm
  -- From here on the settings are those of the environment on one side, and on the other
  -- those of a source that holds the named table.
  intro D described
  have shown : (respond w line).shown = _ := shown_decodeProgram (k := ⟨some source, some S⟩)
    env both (by simpa using filled) plainText described
  have instead : ∀ other, Plain other → other ≠ "" → ∀ X : Settings,
      w.described (some other) = .ok { X with opcodeSet := S } →
      (respond w ["decode_program", "--config-yaml", other, text]).shown =
        (Response.ofRun {} [] (programText (.ofSet S) (.ok X.maxProgramLength) text)).shown := by
    intro other plain solid X described
    have named : (⟨some other, none⟩ : RegistryChoice).Named := by
      rintro s ⟨⟩
      exact plain
    have shown := shown_decodeProgram (k := ⟨some other, none⟩) env named (by simpa using solid)
      plainText described
    exact shown
  rw [shown]
  constructor
  · intro other plain solid described
    rw [instead other plain solid D described]
    rfl
  · intro X _ other plain solid described data is bytes decoded
    rw [instead other plain solid X described]
    exact shown_limits_iff bytes decoded X.maxProgramLength

/-- Files that leave room for two bytes only, with and without a table. -/
def shortFiles : FileTree :=
  .withShipped ⟨["home"]⟩ [(⟨["home", "own.yml"]⟩, "MAX_PROGRAM_LENGTH: 2\n"),
    (⟨["home", "aqua.yml"]⟩, "OPCODE_SET: aqua\nMAX_PROGRAM_LENGTH: 2\n")]

theorem described_shortFiles :
    let w : World := { files := shortFiles, clock := 0 }
    w.described none = .ok {} ∧ w.described (some "own.yml") = .ok { maxProgramLength := 2 } ∧
      w.described (some "aqua.yml") = .ok { opcodeSet := .aqua, maxProgramLength := 2 } := by
  refine ⟨Except.eq_ok_of_toOption ?_, Except.eq_ok_of_toOption ?_, Except.eq_ok_of_toOption ?_⟩
  all_goals decide +kernel

theorem named_table_hides_source_aqua :
    let w : World := { files := shortFiles, clock := 0 }
    let line := ["decode_program", "--config-yaml", "own.yml", "--opcode-set", "aqua", "09000900"]
    respond w line = respond w ["decode_program", "--opcode-set", "aqua", "09000900"] ∧
      (respond w line).shown ≠
        (respond w ["decode_program", "--config-yaml", "aqua.yml", "09000900"]).shown := by
  intro w line
  obtain ⟨same, shows⟩ := named_table_hides_source w (fun _ _ _ => rfl) "own.yml" "09000900" .aqua
    (by decide) (by decide) (by decide)
  obtain ⟨ambient, own, aqua⟩ := described_shortFiles
  have frames : List.Forall₂ (fun i part => (Registry.ofSet .aqua).decode part = .ok i)
      [⟨.xycSwapXD, .args "EmptyArgs" []⟩, ⟨.xycSwapXD, .args "EmptyArgs" []⟩]
      [[9, 0], [9, 0]] := .cons rfl (.cons rfl .nil)
  have differs := (shows {} ambient).2 { maxProgramLength := 2 } own "aqua.yml" (by decide)
    (by decide) aqua [9, 0, 9, 0] _ (by decide +kernel)
    (Registry.decodeProgram_of_decodes frames (by decide))
  exact ⟨same, fun shown => absurd (differs.mp shown) (by decide)⟩

/-- The limit of a source is not kept where its own table is named. -/
theorem named_table_drops_limit :
    let w : World := { files := shortFiles, clock := 0 }
    let X : Settings := { maxProgramLength := 2 }
    w.described (some "own.yml") = .ok { X with opcodeSet := .swapVm } ∧
      (respond w ["decode_program", "--config-yaml", "own.yml", "--opcode-set", "swap-vm",
          "0e000e00"]).shown ≠
        (respond w ["decode_program", "--config-yaml", "own.yml", "0e000e00"]).shown := by
  intro w X
  obtain ⟨ambient, own, -⟩ := described_shortFiles
  have frames : List.Forall₂ (fun i part => (Registry.ofSet .swapVm).decode part = .ok i)
      [⟨.xycSwapXD, .args "EmptyArgs" []⟩, ⟨.xycSwapXD, .args "EmptyArgs" []⟩]
      [[14, 0], [14, 0]] := .cons rfl (.cons rfl .nil)
  have decoded : (Registry.ofSet .swapVm).decodeProgram [14, 0, 14, 0] 65535 = .ok _ :=
    Registry.decodeProgram_of_decodes frames (by decide)
  have named : ∀ set, (⟨some "own.yml", set⟩ : RegistryChoice).Named := by
    rintro set s ⟨⟩
    decide
  have first : (respond w ["decode_program", "--config-yaml", "own.yml", "--opcode-set", "swap-vm",
      "0e000e00"]).shown = _ :=
    shown_decodeProgram (k := ⟨some "own.yml", some .swapVm⟩) (X := {}) (fun _ _ _ => rfl)
      (named _) (by decide) (by decide) ambient
  have second : (respond w ["decode_program", "--config-yaml", "own.yml", "0e000e00"]).shown = _ :=
    shown_decodeProgram (k := ⟨some "own.yml", none⟩) (fun _ _ _ => rfl) (named _) (by decide)
      (by decide) own
  refine ⟨own, fun shown => ?_⟩
  have within := (shown_limits_iff (by decide +kernel) decoded 2).mp
    (first.symm.trans (shown.trans second))
  exact absurd within (by decide)

end SwapCodec.CommandLine
