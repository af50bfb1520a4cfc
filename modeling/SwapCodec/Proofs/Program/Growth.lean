import SwapCodec.Proofs.Program.Builder
import SwapCodec.Proofs.Program.Concat
import SwapCodec.Proofs.Registry.Growth

/-!
# The wire format is append-only

As a registry grows, what it decodes stays what it is, and so do its errors: only
an opcode that was unknown may become known
(`Registry.GrowsTo.decode_persists`, `Registry.GrowsTo.decodeProgram_persists`).

A builder refers to its registry, which may grow while the builder is in use
(`Builder.step`). What every step preserves is that the bytes of the builder are
the encodings of its instructions under the registry as it is then
(`Builder.Current`), so at the end they are decoded to its instructions.
-/

set_option autoImplicit false

namespace SwapCodec

namespace Registry

/-! ## Decoding -/

variable {R S : Registry} {data : List UInt8}

theorem GrowsTo.payload_persists (h : R.GrowsTo S) (discriminator length : UInt8)
    (rest : List UInt8) :
    Persists (R.payload discriminator length rest) (S.payload discriminator length rest) := by
  rcases Nat.lt_or_ge discriminator.toNat R.size with assigned | unassigned
  · left
    have found := List.getElem?_eq_getElem assigned
    rw [payload, payload, entryAt_eq_ok_iff.mpr found, entryAt_eq_ok_iff.mpr (h.getElem? found)]
  · exact .inr (payload_of_unassigned unassigned)

theorem GrowsTo.decode_persists (h : R.GrowsTo S) (data : List UInt8) :
    Persists (R.decode data) (S.decode data) := by
  match data with
  | [] => exact .refl _
  | [_] => exact .refl _
  | discriminator :: length :: rest => exact (h.payload_persists discriminator length rest).bind _

theorem GrowsTo.decodeFrom_persists (h : R.GrowsTo S) (pc : Nat) (done : Array Instruction)
    (data : List UInt8) : Persists (R.decodeFrom pc done data) (S.decodeFrom pc done data) := by
  -- The two decoders read the same instructions up to the first that is unknown to `R`.
  induction pc, done, data using decodeFrom.induct (R := R) with
  | case1 pc done => exact .inl (by rw [decodeFrom, decodeFrom])
  | case2 pc done b => exact .inl (by rw [decodeFrom, decodeFrom])
  | case3 pc done discriminator length rest e failed =>
      rw [decodeFrom, decodeFrom, failed]
      rcases h.payload_persists discriminator length rest with same | unknown
      · left
        rw [same, failed]
      · right
        have located : FailsWith (.error e) .unknownOpcode :=
          failed ▸ failsWith_locate_unknown unknown
        exact located.error
  | case4 pc done discriminator length rest i read ih =>
      have later := (h.payload_persists discriminator length rest).eq_ok (locate_eq_ok_iff.mp read)
      rw [decodeFrom, decodeFrom, read, locate_eq_ok_iff.mpr later]
      exact ih

/-- **Decoding persists.** A registry that has grown decodes every program as
before, and only an opcode that was unknown may have become known. -/
theorem GrowsTo.decodeProgram_persists (h : R.GrowsTo S) (data : List UInt8) (limit : Int) :
    Persists (R.decodeProgram data limit) (S.decodeProgram data limit) := by
  by_cases long : limit < data.length
  · rw [decodeProgram_eq_fail long, decodeProgram_eq_fail long]
    exact .refl _
  · rw [decodeProgram, decodeProgram, if_neg long, if_neg long]
    exact h.decodeFrom_persists 0 #[] data

end Registry

/-! ## Builders over a growing registry -/

namespace Builder

/-- An operation on a builder, or on the registry that it uses. -/
inductive Event where
  /-- An operation on the builder. -/
  | build (c : Call)
  /-- An operation on the registry. -/
  | grow (c : Registry.Call)

/-- The builder after an event. -/
def step (b : Builder) : Event → Builder
  | .build c => b.call c
  | .grow c => { b with registry := b.registry.call c }

/-- The builder after a sequence of events. -/
def steps (b : Builder) (events : List Event) : Builder := events.foldl step b

/-- The bytes are the encodings of the instructions under the registry as it is
now. -/
structure Current (b : Builder) : Prop where
  indexed : b.registry.Indexed
  holds : b.Holds b.registry

variable {b : Builder}

theorem Current.call (h : b.Current) (c : Call) : (b.call c).Current := by
  have holds := h.holds.call c
  refine ⟨?_, ?_⟩
  · rw [holds.1]
    exact h.indexed
  · rw [holds.1]
    exact holds

theorem Current.grow (h : b.Current) (c : Registry.Call) : (b.step (.grow c)).Current := by
  have indexed := h.indexed.call c
  obtain ⟨-, parts, encodings, written⟩ := h.holds
  refine ⟨indexed, rfl, parts, encodings.imp fun i data encoded => ?_, written⟩
  exact ((Registry.GrowsTo.call _ c).encode_persists h.indexed indexed _ _).eq_ok encoded

theorem Current.steps (h : b.Current) (events : List Event) : (b.steps events).Current := by
  induction events generalizing b with
  | nil => exact h
  | cons event events ih =>
      cases event with
      | build c => exact ih (h.call c)
      | grow c => exact ih (h.grow c)

/-- The bytes of a builder whose schemas are lawful are decoded to its instructions. -/
theorem Current.decodes (h : b.Current) (lawful : ∀ entry ∈ b.registry.table, entry.2.Lawful)
    {limit : Int} (enough : (b.pc : Int) ≤ limit) :
    ∃ L, b.registry.decodeProgram b.writer.toList limit = .ok L ∧
      List.Forall₂ b.registry.Agrees b.instructions.toList L := by
  have wellFormed : b.registry.WellFormed := ⟨h.indexed, lawful⟩
  obtain ⟨L, agree, wire⟩ := h.holds.exists_programWire wellFormed
  refine ⟨L, ?_, agree⟩
  rw [wellFormed.decodeProgram_eq_ok_iff, ← b.pc_eq]
  exact ⟨enough, wire⟩

end Builder

/-- **Append-only wire format.** Take any registry that operations lead to, and any
operations that follow.

What is encoded stays encoded as the same bytes, and what is decoded, as one
instruction or as a program, stays decoded to the same. A decode error stays the
same error. Whatever changes was an unknown opcode.

A builder may be used while its registry grows. What it builds is then the encodings
of its instructions under the registry as it is at the end, and it is decoded to what
the encodings are decoded to one by one. If the schemas of that registry are lawful,
these are instructions equal to those of the builder. -/
theorem registry_append_only (name : String) (before after : List Registry.Call) :
    let R := Registry.run { name := name } before
    let S := R.run after
    (∀ identity args data, R.encode identity args = .ok data → S.encode identity args = .ok data) ∧
    (∀ data i, R.decode data = .ok i → S.decode data = .ok i) ∧
    (∀ data limit L, R.decodeProgram data limit = .ok L → S.decodeProgram data limit = .ok L) ∧
    (∀ data e, R.decode data = .error e → e.kind = .decode → S.decode data = .error e) ∧
    (∀ identity args, S.encode identity args = R.encode identity args ∨
      FailsWith (R.encode identity args) .unknownOpcode) ∧
    (∀ data, S.decode data = R.decode data ∨ FailsWith (R.decode data) .unknownOpcode) ∧
    (∀ data limit, S.decodeProgram data limit = R.decodeProgram data limit ∨
      FailsWith (R.decodeProgram data limit) .unknownOpcode) ∧
    ∀ events : List Builder.Event,
      let b := Builder.steps { registry := R } events
      ∃ parts, List.Forall₂ (fun i part =>
          b.registry.encode (.opcode i.opcode) i.args = .ok part) b.instructions.toList parts ∧
        ∀ limit : Int, (b.pc : Int) ≤ limit →
          b.build limit = .ok parts.flatten ∧
          (∀ L, List.Forall₂ (fun i part => b.registry.decode part = .ok i) L parts →
            b.registry.decodeProgram parts.flatten limit = .ok L) ∧
          ((∀ entry ∈ b.registry.table, entry.2.Lawful) →
            ∃ L, b.registry.decodeProgram parts.flatten limit = .ok L ∧
              List.Forall₂ b.registry.Agrees b.instructions.toList L) := by
  intro R S
  have grows : R.GrowsTo S := .run R after
  have indexed : R.Indexed := Registry.indexed_run name before
  have encoding := grows.encode_persists indexed (indexed.run after)
  refine ⟨fun identity args data => (encoding identity args).eq_ok,
    fun data i => (grows.decode_persists data).eq_ok,
    fun data limit L => (grows.decodeProgram_persists data limit).eq_ok, ?_, encoding,
    grows.decode_persists, grows.decodeProgram_persists, ?_⟩
  · intro data e failed malformed
    refine (grows.decode_persists data).eq_error failed ?_
    rw [malformed]
    decide
  · intro events b
    have start : Builder.Current { registry := R } := ⟨indexed, .empty R⟩
    have current : b.Current := start.steps events
    obtain ⟨-, parts, encodings, written⟩ := current.holds
    refine ⟨parts, encodings, fun limit enough => ?_⟩
    rw [← written]
    refine ⟨Builder.build_eq_ok enough, fun L decoded => ?_, fun lawful =>
      current.decodes lawful enough⟩
    rw [b.pc_eq, written] at enough
    rw [written]
    exact Registry.decodeProgram_of_decodes decoded enough

/-- A jump, a salt that the registry does not know yet, and the same salt when it
does. -/
def growingEvents : List Builder.Event :=
  let salt : Value := .args "SaltArgs" [("salt", .int 5)]
  [.build (.add (.opcode .jump) (.args "JumpArgs" [("next_pc", .int 3)])),
    .build (.add (.opcode .salt) salt), .grow (.registerOpcode .salt .salt),
    .build (.add (.opcode .salt) salt)]

theorem registry_append_only_growing :
    let R := Registry.run { name := "test" } [.registerOpcode .jump .jump]
    let S := R.run [.registerOpcode .salt .salt, .freeze]
    let i : Instruction := ⟨.jump, .args "JumpArgs" [("next_pc", .int 3)]⟩
    let b := Builder.steps { registry := R } growingEvents
    S.encode (.opcode i.opcode) i.args = .ok [0, 2, 0, 3] ∧ S.decode [0, 2, 0, 3] = .ok i ∧
      S.decode [0, 3, 0, 3] = .error (.cutPayload .jump 3 2) ∧ b.instructions.size = 2 ∧
      ∃ data L, b.build 14 = .ok data ∧ b.registry.decodeProgram data 14 = .ok L ∧
        List.Forall₂ b.registry.Agrees b.instructions.toList L := by
  intro R S i b
  obtain ⟨encoded, decoded, _, malformed, _, _, _, built⟩ :=
    registry_append_only "test" [.registerOpcode .jump .jump] [.registerOpcode .salt .salt, .freeze]
  obtain ⟨parts, _, outcome⟩ := built growingEvents
  obtain ⟨data, _, agreeing⟩ := outcome 14 (by decide +kernel)
  have table : (Builder.steps { registry := R } growingEvents).registry.table =
      [(.jump, Opcode.schema .jump), (.salt, Opcode.schema .salt)] := rfl
  obtain ⟨L, read, agree⟩ := agreeing (by rw [table]; simp [Opcode.schema_lawful])
  exact ⟨encoded _ _ _ rfl, decoded _ i rfl, malformed _ _ rfl rfl, rfl, parts.flatten, L, data,
    read, agree⟩

end SwapCodec
