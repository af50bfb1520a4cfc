import SwapCodec.Proofs.Program.Total

/-!
# Programs one after the other

Decoding a program that is followed by other bytes is decoding the program and
going on behind it (`Registry.WellFormed.decodeFrom_append`). Where decoding
starts only matters for the offsets that its errors give
(`Registry.decodeFrom_add`), so decoding two byte strings together gives the
instructions of both, or the error of the second with its offset moved by the
length of the first (`Registry.WellFormed.decodeProgram_append`).

A frame that is cut is a decode error at the offset of the frame
(`Registry.WellFormed.decodeFrom_cut`), so a program that is cut inside an
instruction is refused at the offset of that instruction.
-/

set_option autoImplicit false

namespace SwapCodec

/-! ## Errors with an offset -/

namespace Error

/-- A decode error whose message is an offset and the given text. -/
def Reports (e : Error) (pc : Nat) (text : String) : Prop :=
  e.kind = .decode ∧ e.message? = some ("pc=" ++ Text.decimalNat pc ++ ": " ++ text)

/-- The error for bytes that have `n` more bytes in front of them. -/
def movedBy (n : Nat) : Error → Error
  | .atOffset pc cause => .atOffset (n + pc) cause
  | e => e

theorem reports_atOffset {cause : Error} {text : String} (worded : cause.message? = some text)
    (pc : Nat) : (atOffset pc cause).Reports pc text :=
  ⟨rfl, by rw [message?, worded, Option.map_some]⟩

theorem movedBy_eq_self {e : Error} (other : e.kind ≠ .decode) (n : Nat) : e.movedBy n = e := by
  cases e with
  | atOffset pc cause => exact absurd rfl other
  | _ => rfl

theorem settled_atOffset (n pc : Nat) (cause : Error) :
    (atOffset (n + pc) cause).settled = (atOffset pc cause).settled.movedBy n := by
  cases worded : cause.message? with
  | none => simp [settled, isWordless, message?, worded, unworded, movedBy]
  | some text => simp [settled, isWordless, message?, worded, movedBy]

end Error

theorem locate_add {α : Type} (n pc : Nat) (x : Except Error α) :
    locate (n + pc) x = (locate pc x).mapError (·.movedBy n) := by
  cases x with
  | ok y => rfl
  | error e =>
      by_cases malformed : e.kind = .decode
      · simp only [locate, if_pos malformed, fail, Error.settled_atOffset]
        rfl
      · simp only [locate, if_neg malformed]
        show _ = Except.error (e.movedBy n)
        rw [Error.movedBy_eq_self malformed]

/-- A decode error that has been located has an offset and a message. -/
theorem locate_eq_error {α : Type} {pc : Nat} {x : Except Error α} {e : Error}
    (failed : locate pc x = .error e) (malformed : e.kind = .decode) :
    ∃ cause text, e = .atOffset pc cause ∧ cause.message? = some text := by
  cases x with
  | ok y => cases failed
  | error cause =>
      by_cases kind : cause.kind = .decode
      · simp only [locate, if_pos kind] at failed
        cases worded : cause.message? with
        | none =>
            -- An error without a message gives way to one of another kind.
            simp only [fail, Error.settled, Error.isWordless, Error.message?, worded] at failed
            cases failed
            cases malformed
        | some text =>
            rw [fail_eq_error (by rw [Error.message?, worded]; rfl)] at failed
            cases failed
            exact ⟨cause, text, rfl, worded⟩
      · simp only [locate, if_neg kind] at failed
        cases failed
        exact absurd malformed kind

namespace Registry

variable {R : Registry} {L : List Instruction} {i : Instruction} {data part : List UInt8}

/-! ## Where decoding starts -/

/-- What is done already and where decoding starts are passed on. -/
theorem decodeFrom_add (n pc : Nat) (front done : Array Instruction) (data : List UInt8) :
    R.decodeFrom (n + pc) (front ++ done) data =
      ((R.decodeFrom pc done data).map (front.toList ++ ·)).mapError (·.movedBy n) := by
  induction pc, done, data using decodeFrom.induct (R := R) with
  | case1 pc done =>
      rw [decodeFrom, decodeFrom, Array.toList_append]
      rfl
  | case2 pc done b =>
      rw [decodeFrom, decodeFrom, locate_add]
      rfl
  | case3 pc done discriminator length rest e failed =>
      rw [decodeFrom, decodeFrom, locate_add, failed]
      rfl
  | case4 pc done discriminator length rest i read ih =>
      rw [decodeFrom, decodeFrom, locate_add, read, ← ih]
      show R.decodeFrom (n + pc + headerSize + _) ((front ++ done).push i) _ = _
      rw [Nat.add_assoc n pc, Nat.add_assoc n, Array.append_push]

/-- A decode error of a program has an offset and a message. -/
theorem decodeFrom_eq_error {pc : Nat} {done : Array Instruction} {e : Error}
    (failed : R.decodeFrom pc done data = .error e) (malformed : e.kind = .decode) :
    ∃ k cause text, e = .atOffset k cause ∧ cause.message? = some text := by
  induction pc, done, data using decodeFrom.induct (R := R) with
  | case1 pc done =>
      rw [decodeFrom] at failed
      cases failed
  | case2 pc done b =>
      rw [decodeFrom] at failed
      exact ⟨pc, locate_eq_error failed malformed⟩
  | case3 pc done discriminator length rest e' unread =>
      rw [decodeFrom, unread] at failed
      cases failed
      exact ⟨pc, locate_eq_error unread malformed⟩
  | case4 pc done discriminator length rest i read ih =>
      rw [decodeFrom, read] at failed
      exact ih failed

/-! ## Going on behind a program -/

/-- A byte string that is decoded to one instruction is read from the front. -/
theorem decodeFrom_of_decode (decoded : R.decode part = .ok i) (pc : Nat)
    (done : Array Instruction) (rest : List UInt8) :
    R.decodeFrom pc done (part ++ rest) = R.decodeFrom (pc + part.length) (done.push i) rest := by
  obtain ⟨discriminator, length, payload, rfl, read, none⟩ := decode_eq_ok_iff_payload.mp decoded
  have counted : payload.length = length.toNat :=
    Nat.le_antisymm (List.drop_eq_nil_iff.mp none) (length_le_of_payload read)
  have again : R.payload discriminator length (payload ++ rest) = .ok i := by
    rw [payload_append counted, read]
  have behind : pc + headerSize + length.toNat = pc + (payload.length + 1 + 1) := by
    rw [counted, headerSize]
    omega
  rw [List.cons_append, List.cons_append, decodeFrom, locate_eq_ok_iff.mpr again]
  show R.decodeFrom (pc + headerSize + length.toNat) _ _ = _
  rw [List.drop_left' counted, behind]
  rfl

theorem decodeFrom_of_decodes {parts : List (List UInt8)}
    (decoded : List.Forall₂ (fun i part => R.decode part = .ok i) L parts) (pc : Nat)
    (done : Array Instruction) (rest : List UInt8) :
    R.decodeFrom pc done (parts.flatten ++ rest) =
      R.decodeFrom (pc + parts.flatten.length) (done ++ L.toArray) rest := by
  induction decoded generalizing pc done with
  | nil => rfl
  | @cons i part others parts first _ ih =>
      rw [List.flatten_cons, List.append_assoc, decodeFrom_of_decode first, ih, List.length_append,
        Nat.add_assoc]
      simp

/-- Byte strings that are decoded to one instruction each are a program. -/
theorem decodeProgram_of_decodes {parts : List (List UInt8)}
    (decoded : List.Forall₂ (fun i part => R.decode part = .ok i) L parts) {limit : Int}
    (enough : (parts.flatten.length : Int) ≤ limit) :
    R.decodeProgram parts.flatten limit = .ok L := by
  have read := decodeFrom_of_decodes decoded 0 #[] []
  rw [List.append_nil, decodeFrom] at read
  rw [decodeProgram, if_neg (Int.not_lt.mpr enough), read]
  simp

theorem WellFormed.decodeFrom_append (h : R.WellFormed) (wire : R.ProgramWire L data) (pc : Nat)
    (done : Array Instruction) (rest : List UInt8) :
    R.decodeFrom pc done (data ++ rest) =
      R.decodeFrom (pc + data.length) (done ++ L.toArray) rest := by
  obtain ⟨parts, frames, rfl⟩ := wire
  exact decodeFrom_of_decodes (frames.imp fun _ _ => h.decode_eq_ok_iff.mpr) pc done rest

/-- **Decoding goes on.** Two byte strings of which the first is decoded are decoded
to the instructions of both, and an error of the second is moved behind the first. -/
theorem WellFormed.decodeProgram_append (h : R.WellFormed) {limit : Int}
    (accepted : R.decodeProgram data limit = .ok L) {rest : List UInt8}
    (enough : (data.length + rest.length : Int) ≤ limit) :
    R.decodeProgram (data ++ rest) limit =
      ((R.decodeProgram rest limit).map (L ++ ·)).mapError (·.movedBy data.length) := by
  have wire := (h.decodeProgram_eq_ok_iff.mp accepted).2
  have whole : ¬ limit < (data ++ rest).length := by
    rw [List.length_append]
    omega
  have second : ¬ limit < rest.length := by omega
  have moved := R.decodeFrom_add data.length 0 L.toArray #[] rest
  rw [decodeProgram, if_neg whole, decodeProgram, if_neg second, h.decodeFrom_append wire]
  simpa using moved

/-! ## Cutting a program -/

theorem locate_reports {α : Type} {x : Except Error α} (failed : FailsWith x .decode) (pc : Nat) :
    ∃ e text, locate pc x = .error e ∧ e.Reports pc text := by
  obtain ⟨e, located, kind, _⟩ : FailsWith (locate pc x) .decode := failsWith_locate_decode failed
  obtain ⟨cause, text, rfl, worded⟩ := locate_eq_error located kind
  exact ⟨_, text, located, Error.reports_atOffset worded pc⟩

theorem WellFormed.failsWith_payload_cut (h : R.WellFormed) {discriminator length : UInt8}
    {payload : List UInt8} (formed : R.Wire i (discriminator :: length :: payload)) {m : Nat}
    (inside : m < payload.length) :
    FailsWith (R.payload discriminator length (payload.take m)) .decode := by
  obtain ⟨_, _, _, schema, same, counted, found, _⟩ := h.wire_iff.mp formed
  cases same
  have cut : ((payload.take m).take length.toNat).length < length.toNat := by
    rw [List.length_take, List.length_take]
    omega
  rw [Registry.payload, entryAt_eq_ok_iff.mpr found]
  show FailsWith (if _ < _ then _ else _) _
  rw [if_pos cut]
  exact (failsWith_fail rfl).bind _

/-- A frame that is cut is reported at the offset where it starts. -/
theorem WellFormed.decodeFrom_cut (h : R.WellFormed) (formed : R.Wire i part) {m : Nat}
    (started : 0 < m) (inside : m < part.length) (pc : Nat) (done : Array Instruction) :
    ∃ e text, R.decodeFrom pc done (part.take m) = .error e ∧ e.Reports pc text := by
  obtain ⟨discriminator, length, payload, schema, rfl, _⟩ := h.wire_iff.mp formed
  obtain _ | _ | m := m
  · cases started
  · have short : FailsWith (fail .shortHeader : Except Error (List Instruction)) .decode :=
      failsWith_fail rfl
    obtain ⟨e, text, located, reports⟩ := locate_reports short pc
    exact ⟨e, text, by rw [← located, List.take_succ_cons, List.take_zero, decodeFrom], reports⟩
  · simp only [List.length_cons, Nat.add_lt_add_iff_right] at inside
    obtain ⟨e, text, located, reports⟩ := locate_reports (h.failsWith_payload_cut formed inside) pc
    refine ⟨e, text, ?_, reports⟩
    rw [List.take_succ_cons, List.take_succ_cons, decodeFrom, located]

theorem WellFormed.decodeFrom_take (h : R.WellFormed) {parts : List (List UInt8)}
    (frames : List.Forall₂ R.Wire L parts) {j n : Nat}
    (behind : (parts.take j).flatten.length < n)
    (inside : n < (parts.take (j + 1)).flatten.length) (pc : Nat) (done : Array Instruction) :
    ∃ e text, R.decodeFrom pc done (parts.flatten.take n) = .error e ∧
      e.Reports (pc + (parts.take j).flatten.length) text := by
  -- The frames in front of the cut are read one by one until the cut is in the first.
  induction frames generalizing j n pc done with
  | nil =>
      rw [List.take_nil] at inside
      cases inside
  | @cons i part others parts first _ ih =>
      rw [List.flatten_cons]
      cases j with
      | zero =>
          simp only [Nat.zero_add, List.take_succ_cons, List.take_zero, List.flatten_cons,
            List.flatten_nil, List.append_nil] at inside
          rw [List.take_append_of_le_length (Nat.le_of_lt inside)]
          exact h.decodeFrom_cut first behind inside pc done
      | succ j =>
          simp only [List.take_succ_cons, List.flatten_cons, List.length_append] at behind inside ⊢
          have past : part.length ≤ n := by omega
          obtain ⟨m, rfl⟩ := Nat.exists_eq_add_of_le past
          rw [List.take_length_add_append,
            decodeFrom_of_decode (h.decode_eq_ok_iff.mpr first), ← Nat.add_assoc]
          exact ih (Nat.lt_of_add_lt_add_left behind) (Nat.lt_of_add_lt_add_left inside) _ _

/-- **Cutting a program** at the end of an instruction leaves the instructions so
far. Behind the end of one instruction and before the end of the next, the error is
reported at the end of the first. -/
theorem WellFormed.decodeProgram_take (h : R.WellFormed) {parts : List (List UInt8)}
    (frames : List.Forall₂ R.Wire L parts) {limit : Int}
    (enough : (parts.flatten.length : Int) ≤ limit) (j : Nat) :
    let pc := (parts.take j).flatten.length
    R.decodeProgram (parts.flatten.take pc) limit = .ok (L.take j) ∧
      ∀ n, pc < n → n < (parts.take (j + 1)).flatten.length →
        ∃ e text, R.decodeProgram (parts.flatten.take n) limit = .error e ∧ e.Reports pc text := by
  intro pc
  have short (n : Nat) : ((parts.flatten.take n).length : Int) ≤ limit :=
    Int.le_trans (Int.ofNat_le.mpr (List.length_take_le' _ _)) enough
  refine ⟨?_, fun n behind inside => ?_⟩
  · have taken : parts.flatten.take pc = (parts.take j).flatten := by
      conv_lhs => rw [← List.take_append_drop j parts, List.flatten_append]
      exact List.take_left' rfl
    rw [h.decodeProgram_eq_ok_iff]
    exact ⟨short pc, _, List.forall₂_take j frames, taken⟩
  · rw [decodeProgram, if_neg (Int.not_lt.mpr (short n))]
    have cut := h.decodeFrom_take frames behind inside 0 #[]
    rwa [Nat.zero_add] at cut

end Registry

/-- **Compositional decoding.** Take a byte string that a published registry decodes
within a limit.

Followed by other bytes, within the limit, it is decoded to its instructions and
those of the other bytes. If the other bytes give a decode error, whose message is
an offset and a text, then both together give the error with the same text and the
offset moved by the length of the first. If the other bytes give an unknown opcode,
then both together give the same error.

The byte string is the encodings of its instructions, one after the other. Cut at
the end of one of them, it is decoded to the instructions so far. Cut behind that and
before the end of the next, it gives a decode error with the offset of the
instruction that was cut. -/
theorem decoding_compositional (set : OpcodeSet) {p : List UInt8} {A : List Instruction}
    {limit : Int} (accepted : (Registry.ofSet set).decodeProgram p limit = .ok A) :
    let R := Registry.ofSet set
    (∀ q : List UInt8, (p ++ q).length ≤ limit →
      (∀ B, R.decodeProgram q limit = .ok B → R.decodeProgram (p ++ q) limit = .ok (A ++ B)) ∧
      (∀ e, R.decodeProgram q limit = .error e → e.kind = .decode →
        ∃ k cause text, e = .atOffset k cause ∧ e.Reports k text ∧
          R.decodeProgram (p ++ q) limit = .error (.atOffset (p.length + k) cause) ∧
          (Error.atOffset (p.length + k) cause).Reports (p.length + k) text) ∧
      (∀ e, R.decodeProgram q limit = .error e → e.kind = .unknownOpcode →
        R.decodeProgram (p ++ q) limit = .error e)) ∧
    ∃ parts : List (List UInt8),
      List.Forall₂ (fun i part => R.encode (.opcode i.opcode) i.args = .ok part) A parts ∧
      p = parts.flatten ∧
      ∀ j, let pc := (parts.take j).flatten.length
        R.decodeProgram (p.take pc) limit = .ok (A.take j) ∧
          ∀ n, pc < n → n < (parts.take (j + 1)).flatten.length →
            ∃ e text, R.decodeProgram (p.take n) limit = .error e ∧ e.Reports pc text := by
  intro R
  have wellFormed : R.WellFormed := (Registry.ofSet_reachable set).wellFormed
  refine ⟨fun q enough => ?_, ?_⟩
  · rw [List.length_append, Int.natCast_add] at enough
    have joined := wellFormed.decodeProgram_append accepted enough
    have second : ¬ limit < q.length := by omega
    refine ⟨fun B decoded => ?_, fun e failed malformed => ?_, fun e failed unknown => ?_⟩
    · rw [joined, decoded]
      rfl
    · have started : R.decodeFrom 0 #[] q = .error e := by
        rwa [Registry.decodeProgram, if_neg second] at failed
      obtain ⟨k, cause, text, rfl, worded⟩ := Registry.decodeFrom_eq_error started malformed
      refine ⟨k, cause, text, rfl, Error.reports_atOffset worded k, ?_,
        Error.reports_atOffset worded _⟩
      rw [joined, failed]
      rfl
    · have other : e.kind ≠ .decode := by
        rw [unknown]
        decide
      rw [joined, failed]
      show Except.error (e.movedBy p.length) = _
      rw [Error.movedBy_eq_self other]
  · obtain ⟨enough, parts, frames, rfl⟩ := wellFormed.decodeProgram_eq_ok_iff.mp accepted
    exact ⟨parts, frames.imp fun _ _ formed => formed.encode_eq wellFormed, rfl,
      wellFormed.decodeProgram_take frames enough⟩

/-- A jump is followed by an instruction that is cut and by an unknown opcode, and is
cut itself. -/
theorem decoding_compositional_jump :
    let R := Registry.ofSet .swapVm
    let i : Instruction := ⟨.jump, .args "JumpArgs" [("next_pc", .int 3)]⟩
    R.decodeProgram [0, 2, 0, 3] 6 = .ok [i] ∧
      R.decodeProgram [0, 2, 0, 3, 0, 2] 6 = .error (.atOffset 4 (.cutPayload .jump 2 0)) ∧
      FailsWith (R.decodeProgram [0, 2, 0, 3, 23, 0] 6) .unknownOpcode ∧
      ∃ e text, R.decodeProgram [0, 2, 0] 6 = .error e ∧ e.Reports 0 text := by
  intro R i
  have wellFormed : R.WellFormed := (Registry.ofSet_reachable .swapVm).wellFormed
  have formed : R.Wire i [0, 2, 0, 3] := wellFormed.decode_eq_ok_iff.mp rfl
  have accepted : R.decodeProgram [0, 2, 0, 3] 6 = .ok [i] :=
    wellFormed.decodeProgram_eq_ok_iff.mpr ⟨by decide, [_], .cons formed .nil, rfl⟩
  have cut : R.decodeProgram [0, 2] 6 = .error (.atOffset 0 (.cutPayload .jump 2 0)) := by
    show R.decodeFrom 0 #[] [0, 2] = _
    rw [Registry.decodeFrom]
    rfl
  have unassigned : FailsWith (R.payload 23 0 []) .unknownOpcode :=
    Registry.payload_of_unassigned (by decide)
  obtain ⟨e, located, kind, worded⟩ : FailsWith (locate 0 (R.payload 23 0 [])) .unknownOpcode :=
    Registry.failsWith_locate_unknown unassigned
  have unknown : R.decodeProgram [23, 0] 6 = .error e := by
    show R.decodeFrom 0 #[] [23, 0] = _
    rw [Registry.decodeFrom, located]
  obtain ⟨followed, parts, encodings, whole, cuts⟩ := decoding_compositional .swapVm accepted
  have same := (followed [23, 0] (by decide)).2.2 e unknown kind
  refine ⟨accepted, ?_, ⟨e, same, kind, worded⟩, ?_⟩
  · obtain ⟨_, _, _, same, _, moved, _⟩ := (followed [0, 2] (by decide)).2.1 _ cut rfl
    cases same
    exact moved
  · cases encodings with
    | cons first none =>
        cases none
        obtain rfl := Except.ok.inj (first.symm.trans (formed.encode_eq wellFormed))
        exact (cuts 0).2 3 (by decide) (by decide)

end SwapCodec
