import SwapCodec.Proofs.Program.Builder
import SwapCodec.Proofs.Published

/-!
# What is built is decoded

The bytes of a builder are decoded to its instructions, whatever operations led
to it. A flag of traits that was given as zero or one comes back as a truth
value, so the instructions are equal and need not be the same.
-/

set_option autoImplicit false

namespace SwapCodec

/-- **Round trip.** A builder that was used in any way, on a reachable registry,
has bytes of the length `pc`. A limit that allows them lets them be built, and
decoding gives instructions equal to those of the builder, in order. A smaller
limit is refused. If it has a numeral, building reports a validation error and
decoding a decode error; both messages quote the limit, and where it has no numeral
neither error is reported, for its message cannot be made. -/
theorem program_round_trip {R : Registry} (reachable : R.Reachable) (calls : List Builder.Call) :
    let b := Builder.run { registry := R } calls
    ∃ data : List UInt8, data.length = b.pc ∧ ∀ limit : Int,
      ((b.pc : Int) ≤ limit →
        b.build limit = .ok data ∧
          ∃ L, R.decodeProgram data limit = .ok L ∧
            List.Forall₂ R.Agrees b.instructions.toList L) ∧
      (limit < b.pc →
        b.build limit = fail (.overlongBuild b.pc limit) ∧
          R.decodeProgram data limit = fail (.overlongProgram b.pc limit) ∧
          ((Text.decimal? limit).isSome = true →
            FailsWith (b.build limit) .validation ∧
              FailsWith (R.decodeProgram data limit) .decode) ∧
          (Text.decimal? limit = none →
            b.build limit = .error .numeralTooLong ∧
              R.decodeProgram data limit = .error .numeralTooLong)) := by
  intro b
  have holds : b.Holds R := (Builder.Holds.empty R).run calls
  obtain ⟨L, agree, wire⟩ := holds.exists_programWire reachable.wellFormed
  refine ⟨b.writer.toList, b.pc_eq.symm, fun limit => ⟨fun enough => ?_, fun short => ?_⟩⟩
  · refine ⟨Builder.build_eq_ok enough, L, ?_, agree⟩
    rw [reachable.wellFormed.decodeProgram_eq_ok_iff, ← b.pc_eq]
    exact ⟨enough, wire⟩
  · have built := Builder.build_eq_fail short
    have decoded := Registry.decodeProgram_eq_fail (b.pc_eq ▸ short) (R := R)
    rw [← b.pc_eq] at decoded
    refine ⟨built, decoded, fun numeral => ?_, fun long => ?_⟩ <;> rw [built, decoded]
    · exact ⟨Builder.failsWith_overlongBuild numeral, Registry.failsWith_overlongProgram numeral⟩
    · exact ⟨Builder.fail_overlongBuild_of_long long, Registry.fail_overlongProgram_of_long long⟩

/-- An empty program is longer than a negative limit. If the limit has no numeral, the program is
not refused as too long, neither by building it nor by decoding it. -/
theorem empty_build_not_refused :
    let R := Registry.ofSet .swapVm
    let b : Builder := Builder.run { registry := R } []
    Text.unspelled < b.pc ∧ b.build Text.unspelled = .error .numeralTooLong ∧
      ¬FailsWith (b.build Text.unspelled) .validation ∧
      ¬FailsWith (R.decodeProgram [] Text.unspelled) .decode := by
  intro R b
  have long := Text.decimal?_unspelled
  have below : Text.unspelled < b.pc := Text.unspelled_neg
  have built : b.build Text.unspelled = .error .numeralTooLong := by
    rw [Builder.build_eq_fail below, Builder.fail_overlongBuild_of_long long]
  have nothing : Text.unspelled < ([] : List UInt8).length := Text.unspelled_neg
  have decoded : R.decodeProgram [] Text.unspelled = .error .numeralTooLong := by
    rw [Registry.decodeProgram_eq_fail nothing, Registry.fail_overlongProgram_of_long long]
  refine ⟨below, built, fun refused => ?_, fun refused => ?_⟩
  · cases refused.kind_eq built
  · cases refused.kind_eq decoded

/-- Traits with a flag given as one, which are added, and an instruction that is
refused. -/
def flagCalls : List Builder.Call :=
  [.extend [(.opcode .checkMakerTraits, .args "MakerTraitsArgs" [("traits", .traits {
    kind := .maker
    values := [.int 7, .int 0, .int 0, .int 0, .int 1, .int 0, .bool true, .int 0, .bool false,
      .int 0, .int 1, .int 0]
    packs := by decide +kernel })]), (.opcode .salt, .null)]]

theorem program_round_trip_flags :
    let R := Registry.ofSet .swapVm
    let b := Builder.run { registry := R } flagCalls
    R.Reachable ∧ b.pc = 34 ∧
      (∃ data L, b.build 34 = .ok data ∧ R.decodeProgram data 34 = .ok L ∧
        List.Forall₂ R.Agrees b.instructions.toList L) ∧
      FailsWith (b.build 33) .validation := by
  intro R b
  have reachable : R.Reachable := Registry.ofSet_reachable .swapVm
  obtain ⟨data, _, outcome⟩ := program_round_trip reachable flagCalls
  have size : b.pc = 34 := by
    show (Builder.run { registry := .ofSet .swapVm } flagCalls).pc = 34
    decide +kernel
  obtain ⟨built, L, decoded, agree⟩ := (outcome 34).1 (by rw [size]; decide)
  obtain ⟨_, _, kinds, _⟩ := (outcome 33).2 (by rw [size]; decide)
  exact ⟨reachable, size, ⟨data, L, built, decoded, agree⟩, (kinds (by decide +kernel)).1⟩

end SwapCodec
