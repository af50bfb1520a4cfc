import SwapCodec.Proofs.Auction.Decoded
import SwapCodec.Proofs.Auction.Monotone
import SwapCodec.Proofs.CommandLine.JsonOption
import SwapCodec.Proofs.Text.Numeral

/-!
# Prices on the command line

A line that names a source, an instruction and a moment asks for the price of an auction at
that moment, and so does a session with the same source. A numeral is read as a value behind
an option, be it negative or not (`Grammar.reads_decimal`), unless it is too long to be read
(`readAll_auctionAmount`).

The line holds the auction to its direction whatever the settings of the source say
(`answers_strict`). So it answers as a session that asks for the direction. A session that
leaves this to the settings gives the same answer if they ask for the direction or if the
auction follows it, and only then (`preview_always_strict`).
-/

set_option autoImplicit false

namespace SwapCodec

/-! ## Auctions on the wire -/

/-- An instruction of an auction that was decoded describes an auction that can be encoded. -/
theorem Registry.exists_auction_of_decode {set : OpcodeSet} {data : List UInt8} {i : Instruction}
    (decoded : (ofSet set).decode data = .ok i) {d : Direction}
    (direction : i.opcode.direction? = some d) : ∃ a : Auction, a.Encodable ∧ i.args = a.toArgs := by
  have wellFormed := (ofSet_reachable set).wellFormed
  obtain ⟨_, payload, _, formed, -⟩ := ofSet_wire_iff.mp (wellFormed.decode_eq_ok_iff.mp decoded)
  obtain ⟨o, args⟩ := i
  have schema : o.schema = .dutchAuction := by
    cases o <;> first | rfl | cases direction
  exact Schema.exists_auction_of_wire (schema ▸ formed)

theorem Opcode.exists_direction {o : Opcode}
    (auction : o = .dutchAuctionBalanceIn1D ∨ o = .dutchAuctionBalanceOut1D) :
    ∃ d, o.direction? = some d := by
  rcases auction with rfl | rfl
  · exact ⟨.input, rfl⟩
  · exact ⟨.output, rfl⟩

/-! ## Prices in a session -/

namespace Session

variable {t : FileTree} {s : Session} {o : Opcode} {d : Direction}

/-- Whether the auction has to follow its direction is as it is given. -/
theorem instructionPrice_given (direction : o.direction? = some d) (auction : Auction)
    (strict : Bool) (now : Int) :
    (instructionPrice t (.opcode o) auction.toArgs (some strict) (.int now) s).1 =
      auction.price d strict now := by
  have moved : directionOf (.opcode o) = .ok d := by
    rw [directionOf, direction]
  rw [← instructionPrice_toArgs direction, instructionPrice, bind_apply, moved]
  rfl

/-- Where it is not given, it is as the settings say. -/
theorem instructionPrice_described {X : Settings} (direction : o.direction? = some d)
    (fresh : s.loaded = none) (described : s.described t = .ok X) (auction : Auction)
    (now : Int) :
    (instructionPrice t (.opcode o) auction.toArgs none (.int now) s).1 =
      auction.price d X.strictAuctions now := by
  have moved : directionOf (.opcode o) = .ok d := by
    rw [directionOf, direction]
  rw [instructionPrice_eq, moved, settings_of_described fresh described,
    ← instructionPrice_toArgs direction]
  rfl

end Session

namespace CommandLine

/-! ## Numerals as words -/

theorem isDigit_digitChar {d : Nat} (small : d < 10) : isDigit (Nat.digitChar d) = true :=
  (by decide : ∀ m ∈ List.range 10, isDigit (Nat.digitChar m) = true) d (List.mem_range.mpr small)

theorem single_decimal (n : Int) : Single (Text.decimal n) := by
  obtain ⟨ds, chars, filled, bounded⟩ := Text.exists_toList_decimal n
  intro cs same
  rw [chars] at same
  cases ds with
  | nil => exact filled rfl
  | cons d ds =>
      have dash : Nat.digitChar d ≠ '-' :=
        Text.digitChar_ne (List.forall_mem_cons.mp bounded).1 (by decide)
      split at same <;> simp [dash] at same

theorem isNegativeNumber_digits {ds : List Nat} (filled : ds ≠ []) (bounded : ∀ d ∈ ds, d < 10) :
    isNegativeNumber ('-' :: ds.map Nat.digitChar) = true := by
  have digits : ∀ c ∈ ds.map Nat.digitChar, isDigit c = true := by
    intro c mem
    obtain ⟨d, within, rfl⟩ := List.mem_map.mp mem
    exact isDigit_digitChar (bounded d within)
  have unbroken : ('-' :: ds.map Nat.digitChar).getLast? ≠ some '\n' := by
    intro last
    rcases List.mem_cons.mp (List.mem_of_getLast? last) with sign | digit
    · cases sign
    · cases digits _ digit
  rw [isNegativeNumber, if_neg (by simpa using unbroken)]
  simp only [List.dropWhile_eq_nil_iff.mpr digits]
  simpa using filled

/-- A numeral is a value for every grammar. -/
theorem Grammar.reads_decimal (g : Grammar) (n : Int) :
    g.Reads (Text.decimal n) (.operand (Text.decimal n)) := by
  obtain ⟨ds, chars, filled, bounded⟩ := Text.exists_toList_decimal n
  refine ⟨(single_decimal n).ne_separator, ?_⟩
  cases ds with
  | nil => exact absurd rfl filled
  | cons d ds =>
      have small := (List.forall_mem_cons.mp bounded).1
      by_cases negative : n < 0
      · rw [if_pos negative, List.singleton_append] at chars
        rw [g.token?_of_minus chars (Text.digitChar_ne small (by decide))
          (Text.digitChar_ne small (by decide)), strayToken, chars,
          isNegativeNumber_digits filled bounded]
        rfl
      · rw [if_neg negative, List.nil_append] at chars
        apply g.token?_of_plain
        rw [Plain, chars]
        exact fun dash => Text.digitChar_ne small (by decide) (Option.some.inj dash)

/-! ## Reading the line -/

/-- An option whose value is the next word ends the line if the word is no such value. -/
theorem Grammar.readWords_separate_error {g : Grammar} {ps : List Operand} {filled : Bool}
    {a : Arguments} {line : List String} {s text : String} {o : CommandOption} {form : ValueForm}
    (word : g.Reads s (.option o none)) (role : o.role = .value form)
    (next : g.Reads text (.operand text)) (none : form.read? text = none) :
    g.readWords ps filled a (s :: text :: line) = .error .usage := by
  rw [readWords, tokens?, if_neg (by simpa using word.other), word.token, tokens?,
    if_neg (by simpa using next.other), next.token]
  cases g.tokens? line with
  | none => rfl
  | some ts =>
      show g.readFrom ps filled a (.option o .none :: .operand text :: ts) = _
      rw [readFrom.eq_def]
      simp only [role, none]

theorem Variables.OnlySource.registers_auctionAmount {env : Variables} (h : env.OnlySource) :
    Command.auctionAmount.Registers env :=
  ⟨rfl, by decide, by decide, _, rfl, h.unset (by decide)⟩

/-- The words that ask for the price of an instruction at a moment. -/
def priceWords (text : String) (now : Int) : List String :=
  [instructionOption.spelling, text, nowOption.spelling, Text.decimal now]

/-- A moment is read if its numeral is not too long. -/
theorem readAll_auctionAmount {env : Variables} (h : env.OnlySource) {k : RegistryChoice}
    (named : k.Named) {text : String} (plain : Plain text) (now : Int) {a : Arguments}
    (inherited : k.inherited env = .ok a) :
    Command.auctionAmount.grammar.readAll env (k.words ++ priceWords text now) =
      if now.natAbs < Text.tooLong then
        .ok (((k.give a).give instructionOption.name (.text text)).give nowOption.name
          (.integer now))
      else .error .usage := by
  have instruction : Command.auctionAmount.grammar.Knows instructionOption := by decide
  have moment : Command.auctionAmount.grammar.Knows nowOption := by decide
  have unspelt : ∀ s ∈ priceWords text now, ∀ o ∈ registryGrammar.options,
      spelled s ≠ o.spelling := by
    simp only [priceWords, List.forall_mem_cons]
    exact ⟨by decide, fun o _ => plain.single.spelled_ne o, by decide,
      fun o _ => (single_decimal now).spelled_ne o, List.forall_mem_nil _⟩
  rw [Grammar.readAll, h.registers_auctionAmount.readKnown_eq named unspelt, inherited,
    Except.ok_bind, priceWords, Grammar.readWords_separate instruction.reads_spelling rfl
      (Grammar.reads_of_plain _ plain) rfl]
  have value : ValueForm.integer.read? (Text.decimal now) =
      if now.natAbs < Text.tooLong then some (.integer now) else none := by
    rw [ValueForm.read?, Text.readDecimal_decimal]
    split <;> rfl
  by_cases short : now.natAbs < Text.tooLong
  · rw [if_pos short] at value ⊢
    rw [Grammar.readWords_separate moment.reads_spelling rfl (Grammar.reads_decimal _ now) value]
    have all : a.unknown = [] := Grammar.inherit_unknown inherited
    show (if ((k.give a).unknown.isEmpty) = true then Except.ok _ else _) = _
    rw [RegistryChoice.unknown_give, all]
    rfl
  · rw [if_neg short] at value ⊢
    rw [Grammar.readWords_separate_error moment.reads_spelling rfl (Grammar.reads_decimal _ now)
      value]
    rfl

/-! ## Running the command -/

section

variable {w : World} {a : Arguments} {p : Progress} {text : String} {R : Registry}
  {data : List UInt8} {i : Instruction}

theorem ne_empty_of_decode (bytes : Text.bytesOfHex? (Text.dropHexMarker text) = some data)
    (decoded : R.decode data = .ok i) : text.isEmpty = false := by
  by_contra empty
  rw [Bool.not_eq_false, String.isEmpty_iff] at empty
  subst empty
  cases bytes
  exact absurd decoded fail_ne_ok

/-- The auction is that of the instruction, in the direction of its opcode. -/
theorem fst_auctionOfInstruction (active : (activeRegistry w a p).1 = .ok R)
    (bytes : Text.bytesOfHex? (Text.dropHexMarker text) = some data)
    (decoded : R.decode data = .ok i) {d : Direction} (direction : i.opcode.direction? = some d) :
    (auctionOfInstruction w a text p).1 = .ok (i.args, d) := by
  have moved : directionOf (.opcode i.opcode) = .ok d := by
    rw [directionOf, direction]
  rw [auctionOfInstruction]
  simp only [Run.fst_bind, active, readHex, Run.fst_require, Run.snd_require, bytes, decoded,
    moved, Run.fst_check, Run.snd_check, Run.mapError_ok, Option.elim_some, Except.ok_bind,
    Run.fst_pure]

/-- The command ends with the price in the direction of the opcode, which the auction has to
follow. -/
theorem fst_auctionAmount (given : a.text? instructionOption.name = some text)
    (active : (activeRegistry w a p).1 = .ok R)
    (bytes : Text.bytesOfHex? (Text.dropHexMarker text) = some data)
    (decoded : R.decode data = .ok i) {d : Direction} (direction : i.opcode.direction? = some d)
    {auction : Auction} (encodable : auction.Encodable) (same : i.args = auction.toArgs)
    {now : Int} (moment : a.integer? nowOption.name = some now)
    (strict : a.has noStrictOption.name = false) :
    (auctionAmount w a p).1 =
      (auction.price d true now).mapError Stop.ofError >>= fun n => .ok (Text.decimal n) := by
  have asked := fst_auctionOfInstruction active bytes decoded direction
  rw [auctionAmount]
  simp only [given, moment, strict, Option.getD_some, ne_empty_of_decode bytes decoded,
    Bool.false_eq_true, if_false, Run.fst_bind, asked, Except.ok_bind, Run.record, same,
    Auction.ofArgs_toArgs, Run.fst_check, Run.snd_check, Run.mapError_ok, Bool.not_false]
  cases priced : auction.price d true now with
  | error e => exact (rfl : Except.error (Stop.ofError e) = .error (Stop.ofError e))
  | ok n =>
      have word : 0 ≤ n ∧ n < 2 ^ 256 := by
        obtain ⟨rfl, -⟩ := (Auction.price_strict_eq_ok_iff encodable.duration.1).mp priced
        exact encodable.amountAt_word d now
      have short : n.natAbs < Text.tooLong :=
        Nat.lt_of_lt_of_le (by omega) Text.two_pow_256_le_tooLong
      rw [Run.mapError_ok, Except.ok_bind, Except.ok_bind, Text.decimal?, if_pos short]
      rfl

end

/-! ## Answers -/

/-- The response prints the price, or it is refused because the price is. -/
def Response.Answers (r : Response) (price : Except Error Int) : Prop :=
  (∃ n, price = .ok n ∧ r.Prints (Text.decimal n)) ∨
    (FailsWith price .invalidRange ∧ r.exit = 1 ∧ r.out = "")

theorem Response.answers_ofRun {price : Except Error Int}
    (known : (∃ n, price = .ok n) ∨ FailsWith price .invalidRange) (logging : LogOptions)
    (log : List LogEntry) :
    (ofRun logging log
      (price.mapError Stop.ofError >>= fun n => .ok (Text.decimal n))).Answers price := by
  rcases known with ⟨n, rfl⟩ | refused
  · exact .inl ⟨n, rfl, prints_ofRun_iff.mpr rfl⟩
  · right
    obtain ⟨e, rfl, kind, -⟩ := id refused
    have stopped : Stop.ofError e = .refused (.cause e) := by
      rw [Stop.ofError, kind]
      rfl
    refine ⟨refused, ?_⟩
    show (ofRun logging log (.error (Stop.ofError e))).exit = 1 ∧ _
    rw [stopped]
    exact ⟨rfl, rfl⟩

/-- A response that answers one price answers another exactly if it is the same price. -/
theorem Response.Answers.answers_ok_iff {r : Response} {price : Except Error Int}
    (answers : r.Answers price) {n : Int} (only : ∀ m, price = .ok m → m = n) :
    r.Answers (.ok n) ↔ ∃ m, price = .ok m := by
  constructor
  · rintro (⟨m, -, printed⟩ | ⟨refused, -⟩)
    · rcases answers with ⟨k, priced, -⟩ | ⟨-, exit, -⟩
      · exact ⟨k, priced⟩
      · cases exit.symm.trans printed.exit
    · exact absurd rfl refused.ne_ok
  · rintro ⟨m, priced⟩
    obtain rfl := only m priced
    rwa [priced] at answers

section

variable {w : World} {source text : String} {X : Settings} {data : List UInt8} {i : Instruction}

/-- The line that asks for the price of an instruction at a moment. -/
def priceLine (source text : String) (now : Int) : List String :=
  Command.auctionAmount.name ::
    (RegistryChoice.words ⟨some source, none⟩ ++ priceWords text now)

theorem priceLine_eq (source text : String) (now : Int) :
    priceLine source text now = ["auction_amount", "--config-yaml", source, "--instruction", text,
      "--now", Text.decimal now] := by
  rfl

theorem named_of_plain (plain : Plain source) : RegistryChoice.Named ⟨some source, none⟩ := by
  rintro s ⟨⟩
  exact plain

theorem unlogged_priceLine (named : Plain source) (plain : Plain text) (now : Int) :
    ∀ s ∈ RegistryChoice.words ⟨some source, none⟩ ++ priceWords text now, Unlogged s := by
  rw [List.forall_mem_append]
  refine ⟨RegistryChoice.unlogged_words (named_of_plain named), ?_⟩
  simp only [priceWords, List.forall_mem_cons]
  exact ⟨by decide, plain.single.unlogged, by decide, (single_decimal now).unlogged,
    List.forall_mem_nil _⟩

/-- The line is responded to as the run of the command with what is read. -/
theorem respond_priceLine (env : w.environment.OnlySource) (named : Plain source)
    (plain : Plain text) (now : Int) :
    respond w (priceLine source text now) =
      match Command.auctionAmount.grammar.readAll w.environment
        (RegistryChoice.words ⟨some source, none⟩ ++ priceWords text now) with
      | .error s => .ofUnread .auctionAmount s
      | .ok a =>
        let out := Invocation.run ⟨.auctionAmount, {}, a⟩ w
        .ofRun {} out.2.log out.1 := by
  have responded : respond w (priceLine source text now) = _ :=
    respond_command w .auctionAmount _
  rw [responded, Invocation.read, Invocation.readLogging_eq (unlogged_priceLine named plain now),
    env.readLogging_eq]
  simp only [Except.map, Except.ok_bind]
  cases Command.auctionAmount.grammar.readAll w.environment
    (RegistryChoice.words ⟨some source, none⟩ ++ priceWords text now) <;> rfl

/-- A moment whose numeral is too long is no moment. -/
theorem exit_priceLine_of_long (env : w.environment.OnlySource) (named : Plain source)
    (filled : source ≠ "") (plain : Plain text) {now : Int} (long : ¬now.natAbs < Text.tooLong) :
    (respond w (priceLine source text now)).exit = 2 := by
  obtain ⟨a, inherited, -⟩ := RegistryChoice.exists_inherited (named_of_plain named)
    (by simpa using filled) fun _ => env opcodeSetOption (by decide) (by decide)
  rw [respond_priceLine env named plain,
    readAll_auctionAmount env (named_of_plain named) plain now inherited, if_neg long]
  rfl

/-- The line runs the command with the instruction and the moment, on the settings of the
source. -/
theorem exists_run_auctionAmount (env : w.environment.OnlySource) (named : Plain source)
    (filled : source ≠ "") (plain : Plain text) {now : Int} (short : now.natAbs < Text.tooLong) :
    ∃ a : Arguments, a.text? opcodeSetOption.name = none ∧
      a.text? instructionOption.name = some text ∧ a.integer? nowOption.name = some now ∧
      a.has noStrictOption.name = false ∧
      let out := auctionAmount w a { session := { source := some source } }
      respond w (priceLine source text now) = .ofRun {} out.2.log out.1 := by
  obtain ⟨a, inherited, table, begins⟩ := RegistryChoice.exists_inherited (named_of_plain named)
    (by simpa using filled) fun _ => env opcodeSetOption (by decide) (by decide)
  let c := RegistryChoice.give ⟨some source, none⟩ a
  let b := (c.give instructionOption.name (.text text)).give nowOption.name (.integer now)
  have others : ∀ name, name ≠ nowOption.name → name ≠ instructionOption.name →
      b.given.lookup name = c.given.lookup name := by
    intro name first second
    rw [Arguments.lookup_give_of_ne first, Arguments.lookup_give_of_ne second]
  refine ⟨b, ?_, ?_, ?_, ?_, ?_⟩
  · rw [Arguments.text?_congr (others _ (by decide) (by decide)), table]
    rfl
  · rw [Arguments.text?_congr (Arguments.lookup_give_of_ne (by decide)), Arguments.text?_give_self]
  · rw [Arguments.integer?, Arguments.lookup_give_self]
  · apply Arguments.has_eq_false
    rw [others _ (by decide) (by decide)]
    exact RegistryChoice.lookup_eq_none inherited (by decide)
  · have started : Invocation.run ⟨.auctionAmount, {}, b⟩ w =
        Command.auctionAmount.run w b (c.begin w) :=
      run_congr _ _ (Arguments.text?_congr (others _ (by decide) (by decide)))
        (Arguments.text?_congr (others _ (by decide) (by decide))) w
    rw [begins] at started
    rw [respond_priceLine env named plain,
      readAll_auctionAmount env (named_of_plain named) plain now inherited, if_pos short]
    dsimp only
    rw [started]
    rfl

/-- A line that can be read is answered by the price in the direction of the opcode, which the
auction has to follow whatever the settings say. -/
theorem answers_strict (env : w.environment.OnlySource) (plain : Plain source)
    (filled : source ≠ "") (described : w.described (some source) = .ok X)
    (bytes : Text.bytesOfHex? (Text.dropHexMarker text) = some data)
    (decoded : (Registry.ofSet X.opcodeSet).decode data = .ok i) {d : Direction}
    (direction : i.opcode.direction? = some d) {auction : Auction} (encodable : auction.Encodable)
    (same : i.args = auction.toArgs) {now : Int} (short : now.natAbs < Text.tooLong) :
    (respond w (priceLine source text now)).Answers (auction.price d true now) := by
  obtain ⟨a, unnamed, given, moment, strict, responded⟩ :=
    exists_run_auctionAmount env plain filled (plain_of_bytesOfHex? bytes) short
  have active := (activeRegistry_of_source (T := none) unnamed described).1
  have ended := fst_auctionAmount given active bytes decoded direction encodable same moment strict
  rw [responded, ended]
  apply Response.answers_ofRun
  cases follows : auction.follows d with
  | true => exact .inl ⟨_, Auction.price_of_follows encodable.duration.1 follows true⟩
  | false => exact .inr (encodable.failsWith_price_iff.mpr follows)

end

/-- **Previews.** Take an environment from which no option but the source of the settings comes,
a source of settings and an instruction of an auction in their table. The line that asks for its
price at a moment prints it, or exits with 1 if the range of the amounts is invalid, as if the
settings asked for the direction of the auction.

So the line answers as a session on the same settings exactly if they do, or if the auction
follows its direction anyway. A moment that no numeral spells on a command line, for it has too
many digits, is refused with another exit code. -/
theorem preview_always_strict (w : World) (env : w.environment.OnlySource) (source text : String)
    (plain : Plain source) (filled : source ≠ "") (X : Settings)
    (described : w.described (some source) = .ok X) (data : List UInt8)
    (bytes : Text.bytesOfHex? (Text.dropHexMarker text) = some data) (i : Instruction)
    (decoded : (Registry.ofSet X.opcodeSet).decode data = .ok i)
    (auction : i.opcode = .dutchAuctionBalanceIn1D ∨ i.opcode = .dutchAuctionBalanceOut1D)
    (now : Int) :
    let response := respond w ["auction_amount", "--config-yaml", source, "--instruction", text,
      "--now", Text.decimal now]
    let price := fun strict => (Session.instructionPrice w.files (.opcode i.opcode) i.args strict
      (.int now) { source := some source }).1
    (now.natAbs < Text.tooLong → response.Answers (price (some true)) ∧
      (response.Answers (price none) ↔
        X.strictAuctions = true ∨ ∃ n, price (some true) = .ok n)) ∧
      (¬now.natAbs < Text.tooLong → response.exit = 2) := by
  intro response price
  obtain ⟨d, direction⟩ := Opcode.exists_direction auction
  obtain ⟨a, encodable, same⟩ := Registry.exists_auction_of_decode decoded direction
  have given : price (some true) = a.price d true now := by
    show (Session.instructionPrice _ _ i.args _ _ _).1 = _
    rw [same, Session.instructionPrice_given direction]
  have wanted : price none = a.price d X.strictAuctions now := by
    show (Session.instructionPrice _ _ i.args _ _ _).1 = _
    rw [same, Session.instructionPrice_described direction rfl described]
  constructor
  · intro short
    have answers := answers_strict env plain filled described bytes decoded direction encodable
      same short
    rw [priceLine_eq] at answers
    rw [given, wanted]
    refine ⟨answers, ?_⟩
    cases X.strictAuctions with
    | true => exact iff_of_true answers (.inl rfl)
    | false =>
        rw [Auction.price_lenient encodable.duration.1, answers.answers_ok_iff fun n priced =>
          ((Auction.price_strict_eq_ok_iff encodable.duration.1).mp priced).1]
        simp
  · intro long
    have exit := exit_priceLine_of_long env plain filled (plain_of_bytesOfHex? bytes) long
    rwa [priceLine_eq] at exit

/-- Files with settings that do not ask for the direction of an auction. -/
def lenientFiles : FileTree :=
  .withShipped ⟨["home"]⟩ [(⟨["home", "own.yml"]⟩, "STRICT_AUCTION_MONOTONICITY: false\n")]

theorem described_lenientFiles :
    World.described { files := lenientFiles, clock := 0 } (some "own.yml") =
      .ok { strictAuctions := false } :=
  Except.eq_ok_of_toOption (by decide +kernel)

theorem decode_risingFrame : (Registry.ofSet .swapVm).decode risingFrame =
    .ok ⟨.dutchAuctionBalanceIn1D, risingAuction.toArgs⟩ := by
  rfl

theorem risingFrame_bytes :
    Text.bytesOfHex? (Text.dropHexMarker ("0x" ++ Text.hexOfBytes risingFrame)) =
      some risingFrame := by
  rw [Text.dropHexMarker_marked, Text.bytesOfHex?_hexOfBytes]

theorem preview_always_strict_rising :
    let w : World := { files := lenientFiles, clock := 0 }
    let price := fun strict => (Session.instructionPrice w.files (.opcode .dutchAuctionBalanceIn1D)
      risingAuction.toArgs strict (.int 105) { source := some "own.yml" }).1
    let response := respond w ["auction_amount", "--config-yaml", "own.yml", "--instruction",
      "0x" ++ Text.hexOfBytes risingFrame, "--now", Text.decimal 105]
    response.Answers (price (some true)) ∧ ¬response.Answers (price none) := by
  intro w price response
  obtain ⟨answered, -⟩ := preview_always_strict w (fun _ _ _ => rfl) "own.yml"
    ("0x" ++ Text.hexOfBytes risingFrame) (by decide) (by decide) _ described_lenientFiles _
    risingFrame_bytes _ decode_risingFrame (.inl rfl) 105
  obtain ⟨answers, only⟩ := answered (Nat.lt_of_lt_of_le (by decide) Text.two_pow_256_le_tooLong)
  refine ⟨answers, fun lenient => ?_⟩
  rcases only.mp lenient with strict | ⟨n, priced⟩
  · cases strict
  · exact absurd priced fail_ne_ok

/-- The settings accept an auction that the line refuses. -/
theorem rising_preview_refused :
    let w : World := { files := lenientFiles, clock := 0 }
    let i : Instruction := ⟨.dutchAuctionBalanceIn1D, risingAuction.toArgs⟩
    let response := respond w ["auction_amount", "--config-yaml", "own.yml", "--instruction",
      "0x" ++ Text.hexOfBytes risingFrame, "--now", "105"]
    w.described (some "own.yml") = .ok { opcodeSet := .swapVm, strictAuctions := false } ∧
      (Registry.ofSet .swapVm).decode risingFrame = .ok i ∧
      (Session.instructionPrice w.files (.opcode i.opcode) i.args none (.int 105)
        { source := some "own.yml" }).1 = .ok 7 ∧
      response.exit = 1 ∧ response.out = "" := by
  intro w i response
  have direction : i.opcode.direction? = some .input := rfl
  obtain ⟨a, encodable, same⟩ := Registry.exists_auction_of_decode decode_risingFrame direction
  obtain rfl : a = risingAuction :=
    Except.ok.inj ((Auction.ofArgs_toArgs a).symm.trans (congrArg Auction.ofArgs same.symm))
  have lenient := Session.instructionPrice_described direction
    (s := { source := some "own.yml" }) rfl described_lenientFiles risingAuction 105
  have asked : (respond w (priceLine "own.yml" ("0x" ++ Text.hexOfBytes risingFrame) 105)).Answers
      (risingAuction.price .input true 105) :=
    answers_strict (fun _ _ _ => rfl) (by decide) (by decide) described_lenientFiles
      risingFrame_bytes decode_risingFrame direction encodable rfl
      (Nat.lt_of_lt_of_le (by decide) Text.two_pow_256_le_tooLong)
  have numeral : Text.decimal 105 = "105" := rfl
  rw [priceLine_eq, numeral] at asked
  have answers : response.Answers (risingAuction.price .input true 105) := asked
  refine ⟨described_lenientFiles, decode_risingFrame, lenient.trans rfl, ?_⟩
  rcases answers with ⟨n, priced, -⟩ | ⟨-, exit, out⟩
  · exact absurd priced fail_ne_ok
  · exact ⟨exit, out⟩

end CommandLine

end SwapCodec
