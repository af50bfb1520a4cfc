import SwapCodec.Proofs.Program.Builder
import SwapCodec.Proofs.Published
import SwapCodec.Proofs.Refusal.Document
import SwapCodec.Proofs.Registry.Growth
import SwapCodec.Proofs.Schema.Text
import SwapCodec.Proofs.Text.Literal

/-!
# Refusing instructions

A published registry encodes an instruction, or refuses its arguments, or does not
know its opcode (`Registry.onlyRefusals_ofSet`, `Registry.failsWith_ofSet`), and a
builder adds it or refuses it in the same way. The schemas read documents or refuse
them. What else can happen takes an integer without a numeral, and then it does happen
(`Schema.encode_salt_of_long`). All this is put together in `arguments_refused`.
-/

set_option autoImplicit false

namespace SwapCodec

/-! ## Integers without a numeral -/

/-- The message about an integer that does not fit cannot be made. -/
theorem checkFits_of_long (s : Signedness) {w : Width} (narrow : w.bits ≤ 256) {n : Int}
    (long : Text.decimal? n = none) : checkFits s w n = .error .numeralTooLong := by
  have misfit : ¬s.fits w n = true := fun fits =>
    Nat.not_lt.mpr (Text.decimal?_eq_none_iff.mp long) (natAbs_lt_of_fits narrow fits)
  have unworded : (Error.outOfWidth s w n).message? = none := by
    rw [Error.message?, long]
    rfl
  rw [checkFits, if_neg misfit, fail_eq_unworded rfl unworded]
  rfl

theorem ArgType.check_of_long (s : Signedness) {w : Width} (narrow : w.bits ≤ 256) {n : Int}
    (long : Text.decimal? n = none) : (word s w).check (.int n) = .error .numeralTooLong := by
  show (checkFits s w n >>= _) = _
  rw [checkFits_of_long s narrow long]
  rfl

/-- The arguments of a salt. -/
def saltArgs (n : Int) : Value := .args "SaltArgs" [("salt", .int n)]

/-- A document of the arguments of a salt. -/
def saltDocument (v : Value) : Value := .record [("salt", v)]

/-- Four thousand digits in base sixteen are more than `Text.digitLimit` in base ten. -/
theorem exists_long_repeatedF :
    ∃ n, Text.readMarked (Text.repeatedF 3999) = some n ∧ Text.decimal? n = none :=
  ⟨_, Text.readMarked_repeatedF 3999, Text.decimal?_eq_none_iff.mpr (by decide +kernel)⟩

theorem saltDocument_isJson (text : String) : (saltDocument (.str text)).IsJson := by
  intro p part
  rcases List.mem_cons.mp part with rfl | part
  · rfl
  · rw [List.mem_singleton.mp part]
    rfl

namespace Schema

variable {n : Int}

theorem check_salt_of_long (long : Text.decimal? n = none) :
    ArgType.uint64.check (.int n) = .error .numeralTooLong :=
  ArgType.check_of_long _ (by decide) long

theorem encode_salt_of_long (long : Text.decimal? n = none) :
    salt.encode (saltArgs n) = .error .numeralTooLong := by
  have accepted : salt.accept (saltArgs n) = .error .numeralTooLong := by
    show ((ArgType.uint64.check (.int n) >>= _) >>= _) = _
    rw [check_salt_of_long long]
    rfl
  have stopped : (salt.serialize (saltArgs n)).toBytes = .error .numeralTooLong := by
    rw [serialize, Encoder.toBytes_lift_bind, accepted]
    rfl
  rw [Schema.encode, stopped]
  rfl

theorem ofJson_salt_of_long {v : Value} (read : integerOfJson v = .ok n)
    (long : Text.decimal? n = none) : salt.ofJson (saltDocument v) = .error .numeralTooLong := by
  show ((((integerOfJson v >>= _) >>= _) >>= _) : Except Error Value) = _
  rw [read]
  show ((((ArgType.uint64.check (.int n) >>= _) >>= _) >>= _) : Except Error Value) = _
  rw [check_salt_of_long long]
  rfl

/-- Every schema belongs to an instruction. -/
theorem all_eq_map : Schema.all = List.map Opcode.schema
    [.jump, .jumpIfTokenIn, .deadline, .onlyTakerTokenBalanceNonZero, .onlyTakerTokenBalanceGte,
      .salt, .staticBalancesXD, .invalidateBit1D, .xycSwapXD, .limitSwap1D,
      .dutchAuctionBalanceIn1D, .flatFeeAmountInXD, .transferIn, .checkMakerTraits,
      .checkTakerTraits] := rfl

theorem refusing_of_mem_all {s : Schema} (mem : s ∈ Schema.all) : s.Refusing := by
  rw [all_eq_map] at mem
  obtain ⟨o, _, rfl⟩ := List.mem_map.mp mem
  exact o.schema_refusing

end Schema

/-! ## Instructions -/

namespace Registry

variable {set : OpcodeSet} {o : Opcode}

/-- A listed opcode: its arguments are encoded or refused. -/
theorem onlyRefusals_ofSet (listed : o ∈ set.opcodes) (args : Value) :
    OnlyRefusals args.HoldsLong ((ofSet set).encode (.opcode o) args) := by
  have indexed : (ofSet set).Indexed := (ofSet_reachable set).wellFormed.toIndexed
  obtain ⟨index, found⟩ := List.mem_iff_getElem?.mp listed
  rw [encode_of_getElem? indexed (getElem?_ofSet_iff.mpr ⟨found, rfl⟩)]
  refine (o.schema_refusing.encode args).bind fun payload _ => ?_
  split
  · exact .fail rfl (.inl rfl)
  · exact .ok _

/-- An opcode that is not listed is unknown. -/
theorem failsWith_ofSet (unlisted : o ∉ set.opcodes) (args : Value) :
    FailsWith ((ofSet set).encode (.opcode o) args) .unknownOpcode := by
  have wellFormed : (ofSet set).WellFormed := (ofSet_reachable set).wellFormed
  exact encode_of_unregistered (by rwa [wellFormed.indexOf?_eq_none_iff, opcodes_ofSet])

theorem encode_salt_ofSet (set : OpcodeSet) {n : Int} (long : Text.decimal? n = none) :
    (ofSet set).encode (.opcode .salt) (saltArgs n) = .error .numeralTooLong := by
  have indexed : (ofSet set).Indexed := (ofSet_reachable set).wellFormed.toIndexed
  have found : set.opcodes[6]? = some .salt := by
    cases set <;> rfl
  have refused : Opcode.salt.schema.encode (saltArgs n) = .error .numeralTooLong :=
    Schema.encode_salt_of_long long
  rw [encode_of_getElem? indexed (getElem?_ofSet_iff.mpr ⟨found, rfl⟩), refused]
  rfl

end Registry

/-- **Refusing arguments.** Take a published registry, an instruction with any value as
its arguments, and a builder over the registry. If the opcode is listed, encoding the
instruction and adding it to the builder succeed or refuse the arguments; if it is not,
both report an unknown opcode. Every schema reads a document of any form or refuses it.

A failure that is no refusal is that of a numeral, and some integer given is long. It does
occur: every integer without a numeral, given as a salt, is reported in this way, and so it
is in a document, as a number or as a text. -/
theorem arguments_refused (set : OpcodeSet) (o : Opcode) (args : Value) (b : Builder)
    (same : b.registry = Registry.ofSet set) (s : Schema) (published : s ∈ Schema.all) (j : Value)
    (json : j.IsJson) :
    let encoded := (Registry.ofSet set).encode (.opcode o) args
    let added := b.add (.opcode o) args
    (o ∈ set.opcodes →
      OnlyRefusals args.HoldsLong encoded ∧ OnlyRefusals args.HoldsLong added) ∧
    (o ∉ set.opcodes → FailsWith encoded .unknownOpcode ∧ FailsWith added .unknownOpcode) ∧
    OnlyRefusals j.SpellsLong (s.ofJson j) ∧
    ∀ n : Int, Text.decimal? n = none →
      (Registry.ofSet set).encode (.opcode .salt) (saltArgs n) = .error .numeralTooLong ∧
      Schema.salt.ofJson (saltDocument (.int n)) = .error .numeralTooLong ∧
      ∀ text, Text.readMarked text = some n →
        Schema.salt.ofJson (saltDocument (.str text)) = .error .numeralTooLong := by
  intro encoded added
  have followed : added = (encoded >>= fun data => .ok (b.enter ⟨o, args⟩ data)) := by
    have step := b.add_opcode o args
    rw [same] at step
    exact step
  refine ⟨fun listed => ?_, fun unlisted => ?_, (Schema.refusing_of_mem_all published).ofJson json,
    fun n long => ?_⟩
  · have refusals : OnlyRefusals args.HoldsLong encoded := Registry.onlyRefusals_ofSet listed args
    exact ⟨refusals, followed ▸ refusals.bind fun data _ => .ok _⟩
  · have unknown : FailsWith encoded .unknownOpcode := Registry.failsWith_ofSet unlisted args
    exact ⟨unknown, followed ▸ unknown.bind _⟩
  · refine ⟨Registry.encode_salt_ofSet set long, Schema.ofJson_salt_of_long rfl long,
      fun text read => Schema.ofJson_salt_of_long ?_ long⟩
    rw [integerOfJson, read]

/-- Arguments that are neither accepted nor refused: a salt that is spelled by a text of
4002 characters. -/
theorem long_salt_not_refused :
    Schema.salt.ofJson (saltDocument (.str (Text.repeatedF 3999))) = .error .numeralTooLong ∧
      ¬∀ s ∈ Schema.all, ∀ j : Value, j.IsJson → OnlyRefusals False (s.ofJson j) := by
  have escaped : Schema.salt.ofJson (saltDocument (.str (Text.repeatedF 3999))) =
      .error .numeralTooLong := by
    obtain ⟨n, read, long⟩ := exists_long_repeatedF
    refine Schema.ofJson_salt_of_long ?_ long
    rw [integerOfJson, read]
  refine ⟨escaped, fun all => ?_⟩
  have published : Schema.salt ∈ Schema.all := by simp [Schema.all]
  rcases all _ published _ (saltDocument_isJson _) _ escaped with refusal | ⟨none, _⟩
  · exact Error.not_isRefusal_numeralTooLong refusal
  · exact none

/-- The same text given to the theorem, and other instructions that fail. -/
theorem arguments_refused_long :
    let aqua := Registry.ofSet .aqua
    let b : Builder := { registry := aqua }
    let spelled := saltDocument (.str (Text.repeatedF 3999))
    let fraction : Value := .args "SaltArgs" [("salt", .float .nan)]
    (b.registry = aqua ∧ Schema.salt ∈ Schema.all ∧ spelled.IsJson) ∧
      (∃ n, Text.readMarked (Text.repeatedF 3999) = some n ∧ Text.decimal? n = none) ∧
      Schema.salt.ofJson spelled = .error .numeralTooLong ∧ spelled.SpellsLong ∧
      FailsWith (b.add (.opcode .staticBalancesXD) fraction) .unknownOpcode ∧
      ∃ e, aqua.encode (.opcode .salt) fraction = .error e ∧ e.IsRefusal := by
  intro aqua b spelled fraction
  have published : Schema.salt ∈ Schema.all := by simp [Schema.all]
  have json : spelled.IsJson := saltDocument_isJson _
  obtain ⟨n, read, long⟩ := exists_long_repeatedF
  obtain ⟨listed, _, documents, escapes⟩ :=
    arguments_refused .aqua .salt fraction b rfl Schema.salt published spelled json
  obtain ⟨_, unlisted, _⟩ :=
    arguments_refused .aqua .staticBalancesXD fraction b rfl Schema.salt published spelled json
  obtain ⟨_, _, texts⟩ := escapes n long
  have escaped : Schema.salt.ofJson spelled = .error .numeralTooLong := texts _ read
  refine ⟨⟨rfl, published, json⟩, ⟨n, read, long⟩, escaped, ?_, (unlisted (by decide)).2, ?_⟩
  · rcases documents _ escaped with refusal | ⟨present, _⟩
    · exact absurd refusal Error.not_isRefusal_numeralTooLong
    · exact present
  · have failed : aqua.encode (.opcode .salt) fraction =
        .error (.integerRequired (.float .nan)) := rfl
    refine ⟨_, failed, ?_⟩
    rcases (listed (by decide)).1 _ failed with refusal | ⟨_, other⟩
    · exact refusal
    · cases other

end SwapCodec
