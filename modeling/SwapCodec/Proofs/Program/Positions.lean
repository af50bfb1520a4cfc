import SwapCodec.Proofs.Program.Builder
import SwapCodec.Proofs.Published

/-!
# Positions are jump targets

A jump names the offset of the instruction that it leads to, and that offset is
read from a builder just before the instruction is added. `Builder.history` keeps
these readings along a run, those between the instructions of one sequence
included.

What every operation preserves is that the readings are the offsets at which the
encodings of the instructions start (`Builder.Placed`). Additions only append, so
a reading stays right whatever is added later: the bytes from there on are decoded
to the instructions that were accepted since (`builder_positions`).
-/

set_option autoImplicit false

namespace SwapCodec

namespace Builder

/-- The instructions that an operation offers. -/
def Call.items : Call → List (Value × Value)
  | .add identity args => [(identity, args)]
  | .extend items => items

/-- The offsets read just before each instruction that is accepted, up to the first
that is refused. -/
def positions (b : Builder) : List (Value × Value) → List Nat
  | [] => []
  | (identity, args) :: items =>
    match place identity args b with
    | (.ok (), next) => b.pc :: next.positions items
    | (.error _, _) => []

/-- The offsets read just before each instruction that a sequence of operations
accepts. -/
def history (b : Builder) : List Call → List Nat
  | [] => []
  | c :: calls => b.positions c.items ++ (b.call c).history calls

variable {R : Registry} {b next : Builder} {identity args : Value} {o : Opcode}
  {data : List UInt8} {e : Error} {items : List (Value × Value)} {pcs : List Nat}

theorem call_eq_placeAll (b : Builder) (c : Call) : b.call c = (placeAll c.items b).2 := by
  cases c with
  | extend items => rfl
  | add identity args =>
      rw [Call.items, placeAll_cons, call]
      rcases place identity args b with ⟨_ | _, next⟩ <;> rfl

/-! ## Refused instructions -/

theorem call_add_of_error (refused : (place identity args b).1 = .error e) :
    b.call (.add identity args) = b := by
  rw [call]
  rcases b.place_cases identity args with ⟨_, -, placed⟩ | ⟨_, _, -, -, placed⟩
  · rw [placed]
  · rw [placed] at refused
    cases refused

/-- Instructions that are all accepted are added one by one. -/
theorem run_adds (accepted : placeAll items b = (.ok (), next)) :
    b.run (items.map fun item => .add item.1 item.2) = next := by
  induction items generalizing b with
  | nil =>
      cases accepted
      rfl
  | cons item items ih =>
      obtain ⟨identity, args⟩ := item
      rw [placeAll_cons] at accepted
      split at accepted
      · rename_i middle placed
        have first : b.call (.add identity args) = middle := by rw [call, placed]
        rw [List.map_cons]
        show (b.call (.add identity args)).run _ = _
        rw [first, ih accepted]
      · cases accepted

/-- A sequence that fails has a first instruction that is refused, and stops there. -/
theorem placeAll_eq_error (failed : placeAll items b = (.error e, next)) :
    ∃ before identity args after, items = before ++ (identity, args) :: after ∧
      placeAll before b = (.ok (), next) ∧ (place identity args next).1 = .error e := by
  induction items generalizing b with
  | nil => cases failed
  | cons item items ih =>
      obtain ⟨identity, args⟩ := item
      rw [placeAll_cons] at failed
      rcases b.place_cases identity args with ⟨_, -, refused⟩ | ⟨_, _, -, -, entered⟩
      · rw [refused] at failed
        cases failed
        exact ⟨[], identity, args, items, rfl, rfl, by rw [refused]⟩
      · rw [entered] at failed
        obtain ⟨before, identity', args', after, rfl, accepted, refused⟩ := ih failed
        refine ⟨(identity, args) :: before, identity', args', after, rfl, ?_, refused⟩
        rw [placeAll_cons, entered]
        exact accepted

/-! ## What every operation preserves -/

/-- The offsets are those at which the encodings of the instructions start. -/
def Placed (R : Registry) (b : Builder) (pcs : List Nat) : Prop :=
  b.registry = R ∧
    ∃ parts, List.Forall₂ (fun i part => R.encode (.opcode i.opcode) i.args = .ok part)
      b.instructions.toList parts ∧ b.writer.toList = parts.flatten ∧
      pcs.length = parts.length ∧ ∀ k pc, pcs[k]? = some pc → pc = (parts.take k).flatten.length

theorem Placed.empty (R : Registry) : Placed R { registry := R } [] :=
  ⟨rfl, [], .nil, rfl, rfl, nofun⟩

/-- The next instruction is placed at the end of the bytes. -/
theorem Placed.enter (h : Placed R b pcs) (encoded : R.encode (.opcode o) args = .ok data) :
    Placed R (b.enter ⟨o, args⟩ data) (pcs ++ [b.pc]) := by
  obtain ⟨same, parts, encodings, written, count, placed⟩ := h
  refine ⟨same, parts ++ [data], ?_, ?_, ?_, fun k pc found => ?_⟩
  · rw [toList_instructions_enter]
    exact List.rel_append encodings (.cons encoded .nil)
  · rw [toList_writer_enter, written, List.flatten_append, List.flatten_singleton]
  · rw [List.length_append, List.length_append, count, List.length_singleton,
      List.length_singleton]
  · rcases Nat.lt_or_ge k pcs.length with earlier | last
    · rw [List.getElem?_append_left earlier] at found
      rw [List.take_append_of_le_length (count ▸ Nat.le_of_lt earlier)]
      exact placed k pc found
    · have only : k = parts.length ∧ pc = b.pc := by
        rw [List.getElem?_append_right last, List.getElem?_singleton] at found
        split at found
        · cases found
          omega
        · cases found
      obtain ⟨rfl, rfl⟩ := only
      rw [List.take_left, ← written, b.pc_eq]

theorem Placed.placeAll (h : Placed R b pcs) (items : List (Value × Value)) :
    Placed R (Builder.placeAll items b).2 (pcs ++ b.positions items) := by
  induction items generalizing b pcs with
  | nil =>
      rw [positions, List.append_nil]
      exact h
  | cons item items ih =>
      obtain ⟨identity, args⟩ := item
      rw [placeAll_cons, positions]
      rcases b.place_cases identity args with ⟨e, -, refused⟩ | ⟨o, data, rfl, encoded, entered⟩
      · rw [refused, List.append_nil]
        exact h
      · rw [entered, List.append_cons]
        exact ih (h.enter (h.1 ▸ encoded))

theorem Placed.call (h : Placed R b pcs) (c : Call) :
    Placed R (b.call c) (pcs ++ b.positions c.items) := by
  rw [call_eq_placeAll]
  exact h.placeAll c.items

/-- **Runs.** The readings along a run are the offsets at which the encodings start. -/
theorem Placed.run (h : Placed R b pcs) (calls : List Call) :
    Placed R (b.run calls) (pcs ++ b.history calls) := by
  induction calls generalizing b pcs with
  | nil =>
      rw [history, List.append_nil]
      exact h
  | cons c calls ih =>
      rw [history, ← List.append_assoc]
      exact ih (h.call c)

theorem Placed.length_eq (h : Placed R b pcs) : pcs.length = b.instructions.size := by
  obtain ⟨_, parts, encodings, _, count, _⟩ := h
  rw [count, ← encodings.length_eq, Array.length_toList]

/-- The bytes from a reading on are the encodings of the instructions from there on. -/
theorem Placed.drop (h : Placed R b pcs) {k pc : Nat} (read : pcs[k]? = some pc) :
    ∃ parts, List.Forall₂ (fun i part => R.encode (.opcode i.opcode) i.args = .ok part)
      (b.instructions.toList.drop k) parts ∧ b.writer.toList.drop pc = parts.flatten := by
  obtain ⟨_, parts, encodings, written, _, placed⟩ := h
  refine ⟨parts.drop k, List.forall₂_drop k encodings, ?_⟩
  have split : parts.flatten = (parts.take k).flatten ++ (parts.drop k).flatten := by
    rw [← List.flatten_append, List.take_append_drop]
  rw [written, placed k pc read, split, List.drop_left]

end Builder

/-- **Jump targets.** Take any registry and any additions to a builder, whether or not
they fail. The bytes are the encodings of the instructions, one after the other. An
addition that fails changes nothing, and a sequence that fails leaves what adding the
instructions in front of its first refused one leaves.

Every instruction that was accepted has its reading, and nothing that is added later
makes it wrong: in a program built at any later time, the bytes from the `k`-th reading
on are the encodings of the instructions accepted from the `k`-th on. If the registry is
reachable, these bytes are decoded to instructions equal to those, in order. -/
theorem builder_positions (R : Registry) (calls : List Builder.Call) :
    let b := Builder.run { registry := R } calls
    let pcs := Builder.history { registry := R } calls
    (∃ parts, List.Forall₂ (fun i part => R.encode (.opcode i.opcode) i.args = .ok part)
      b.instructions.toList parts ∧ b.writer.toList = parts.flatten) ∧
    (∀ identity args e, (Builder.place identity args b).1 = .error e →
      b.call (.add identity args) = b) ∧
    (∀ items e, (Builder.placeAll items b).1 = .error e →
      ∃ before identity args after, items = before ++ (identity, args) :: after ∧
        let next := b.run (before.map fun item => .add item.1 item.2)
        Builder.placeAll before b = (.ok (), next) ∧
          (Builder.place identity args next).1 = .error e ∧ b.call (.extend items) = next) ∧
    pcs.length = b.instructions.size ∧
    ∀ k pc, pcs[k]? = some pc → ∀ later limit data, (b.run later).build limit = .ok data →
      let accepted := (b.run later).instructions.toList.drop k
      (∃ parts, List.Forall₂ (fun i part => R.encode (.opcode i.opcode) i.args = .ok part)
        accepted parts ∧ data.drop pc = parts.flatten) ∧
      (R.Reachable → ∀ limit' : Int, ((data.drop pc).length : Int) ≤ limit' →
        ∃ L, R.decodeProgram (data.drop pc) limit' = .ok L ∧ List.Forall₂ R.Agrees accepted L) := by
  intro b pcs
  have placed : b.Placed R pcs := (Builder.Placed.empty R).run calls
  refine ⟨?_, fun identity args e refused => Builder.call_add_of_error refused, ?_,
    placed.length_eq, ?_⟩
  · obtain ⟨_, parts, encodings, written, _⟩ := placed
    exact ⟨parts, encodings, written⟩
  · intro items e failed
    obtain ⟨before, identity, args, after, split, accepted, refused⟩ :=
      Builder.placeAll_eq_error (Prod.ext failed rfl)
    have same := Builder.run_adds accepted
    refine ⟨before, identity, args, after, split, ?_⟩
    rw [same]
    exact ⟨accepted, refused, rfl⟩
  · intro k pc read later limit data built accepted
    have earlier : (pcs ++ b.history later)[k]? = some pc := by
      rwa [List.getElem?_append_left (List.getElem?_eq_some_iff.mp read).1]
    obtain ⟨parts, encodings, written⟩ := (placed.run later).drop earlier
    rw [Builder.eq_of_build built, written]
    refine ⟨⟨parts, encodings, rfl⟩, fun reachable limit' enough => ?_⟩
    obtain ⟨L, agree, wire⟩ := reachable.wellFormed.exists_programWire encodings
    exact ⟨L, reachable.wellFormed.decodeProgram_eq_ok_iff.mpr ⟨enough, wire⟩, agree⟩

/-- A swap without arguments. -/
def swapItem : Value × Value := (.opcode .xycSwapXD, .args "EmptyArgs" [])

/-- A jump, a salt whose arguments are those of a jump, and a swap. -/
def jumpCalls : List Builder.Call :=
  let jump := .args "JumpArgs" [("next_pc", .int 4)]
  [.add (.opcode .jump) jump, .add (.opcode .salt) jump, .extend [swapItem]]

theorem builder_positions_jump :
    let R := Registry.ofSet .swapVm
    let b := Builder.run { registry := R } jumpCalls
    let later : List Builder.Call := [.extend [swapItem, (.null, .null), swapItem]]
    Builder.history { registry := R } jumpCalls = [0, 4] ∧
      (b.run later).build 8 = .ok [0, 2, 0, 4, 14, 0, 14, 0] ∧ R.Reachable ∧
      ∃ L, R.decodeProgram [14, 0, 14, 0] 4 = .ok L ∧
        List.Forall₂ R.Agrees ((b.run later).instructions.toList.drop 1) L := by
  intro R b later
  have read : Builder.history { registry := R } jumpCalls = [0, 4] := by decide
  have bytes : (b.run later).writer.toList = [0, 2, 0, 4, 14, 0, 14, 0] := by decide
  have built : (b.run later).build 8 = .ok [0, 2, 0, 4, 14, 0, 14, 0] := by
    rw [Builder.build_eq_ok (by rw [Builder.pc_eq, bytes]; decide), bytes]
  have reachable : R.Reachable := Registry.ofSet_reachable .swapVm
  obtain ⟨_, _, _, _, targets⟩ := builder_positions R jumpCalls
  obtain ⟨_, decoded⟩ := targets 1 4 (by rw [read]; rfl) later 8 _ built
  exact ⟨read, built, reachable, decoded reachable 4 (by decide)⟩

end SwapCodec
