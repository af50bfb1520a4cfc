import SwapCodec.Proofs.Auction
import SwapCodec.Proofs.Published

/-!
# Auctions that were decoded

The wire form of the arguments of an auction holds four parameters in the range of
their fields, and the duration is positive (`Auction.Encodable`,
`Schema.exists_auction_of_wire`). So an instruction that was decoded describes an
auction that can be priced: nothing is left that could go wrong except, if it is
asked for, that the amounts go against the direction of the opcode
(`decoded_auction_priced`).
-/

set_option autoImplicit false

namespace SwapCodec

/-- The parameters are in the range of their fields, and the auction lasts some
time. -/
structure Auction.Encodable (a : Auction) : Prop where
  /-- The amount at the start fits in a word. -/
  startAmount : 0 ≤ a.startAmount ∧ a.startAmount < 2 ^ 256
  /-- The amount at the end fits in a word. -/
  endAmount : 0 ≤ a.endAmount ∧ a.endAmount < 2 ^ 256
  /-- The start fits in five bytes. -/
  startTime : 0 ≤ a.startTime ∧ a.startTime < 2 ^ 40
  /-- The duration fits in four bytes and is positive. -/
  duration : 0 < a.duration ∧ a.duration < 2 ^ 32

/-! ## On the wire -/

namespace ArgType

theorem uint_wire_iff {w : Width} {v : Value} {data : List UInt8} :
    (word .unsigned w).Wire v data ↔
      ∃ n, v = .int n ∧ (0 ≤ n ∧ n < 2 ^ w.bits) ∧ data = wordBytes w n := by
  simp only [Wire, fits_unsigned_iff]

end ArgType

/-- Only auctions that can be encoded are on the wire. -/
theorem Schema.exists_auction_of_wire {args : Value} {data : List UInt8}
    (h : Schema.dutchAuction.Wire args data) : ∃ a : Auction, a.Encodable ∧ args = a.toArgs := by
  obtain ⟨fields, formed, lasting, rfl⟩ := h
  obtain ⟨_, _, _, _, rfl, first, ⟨_, _, _, _, rfl, second, ⟨_, _, _, _, rfl, third,
    ⟨_, _, _, _, rfl, fourth, ⟨rfl, _⟩, _⟩, _⟩, _⟩, _⟩ := formed
  obtain ⟨startAmount, rfl, start, _⟩ := ArgType.uint_wire_iff.mp first
  obtain ⟨endAmount, rfl, stop, _⟩ := ArgType.uint_wire_iff.mp second
  obtain ⟨startTime, rfl, time, _⟩ := ArgType.uint_wire_iff.mp third
  obtain ⟨duration, rfl, length, _⟩ := ArgType.uint_wire_iff.mp fourth
  let a : Auction := ⟨startAmount, endAmount, startTime, duration⟩
  have positive : 0 < a.duration := by
    by_contra stopped
    exact fail_ne_ok ((if_neg stopped).symm.trans lasting)
  exact ⟨a, ⟨start, stop, time, positive, length.2⟩, rfl⟩

/-! ## Prices -/

namespace Auction

variable {a : Auction}

theorem isSome_decimal?_of_word {n : Int} (word : 0 ≤ n ∧ n < 2 ^ 256) :
    (Text.decimal? n).isSome = true :=
  Text.isSome_decimal? (Nat.lt_of_lt_of_le (by omega) Text.two_pow_256_le_tooLong)

/-- The price of an auction that can be encoded fits in a word. -/
theorem Encodable.amountAt_word (h : a.Encodable) (d : Direction) (now : Int) :
    0 ≤ a.amountAt d now ∧ a.amountAt d now < 2 ^ 256 := by
  have below := amountAt_le h.duration.1 d now (Int.le_sub_one_of_lt h.startAmount.2)
    (Int.le_sub_one_of_lt h.endAmount.2)
  exact ⟨le_amountAt h.duration.1 d now h.startAmount.1 h.endAmount.1, by omega⟩

/-- An auction that can be encoded is refused exactly if it goes against its
direction, whatever the moment. -/
theorem Encodable.failsWith_price_iff (h : a.Encodable) {d : Direction} {now : Int} :
    FailsWith (a.price d true now) .invalidRange ↔ a.follows d = false :=
  Auction.failsWith_price_iff h.duration.1 (isSome_decimal?_of_word h.startAmount)
    (isSome_decimal?_of_word h.endAmount)

end Auction

/-- **Decoded auctions.** An instruction of an auction that was decoded describes an
auction with parameters in range. Whatever the moment, it has a price if the
direction is not asked for, which lies between the ends of the auction and fits in a
word. If the direction is asked for, it has the same price or the range of its
amounts is reported as invalid, and this is reported exactly if the taker would pay
more and more, or receive less and less. -/
theorem decoded_auction_priced (set : OpcodeSet) {data : List UInt8} {i : Instruction}
    (decoded : (Registry.ofSet set).decode data = .ok i)
    (auction : i.opcode = .dutchAuctionBalanceIn1D ∨ i.opcode = .dutchAuctionBalanceOut1D) :
    ∃ a : Auction, i.args = a.toArgs ∧ a.Encodable ∧ ∀ now : Int,
      let lenient := instructionPrice (.opcode i.opcode) i.args false (.int now)
      let strict := instructionPrice (.opcode i.opcode) i.args true (.int now)
      ∃ n : Int, lenient = .ok n ∧
        (min a.startAmount a.endAmount ≤ n ∧ n ≤ max a.startAmount a.endAmount) ∧
        (0 ≤ n ∧ n < 2 ^ 256) ∧
        (strict = .ok n ∨ FailsWith strict .invalidRange) ∧
        (FailsWith strict .invalidRange ↔
          (i.opcode = .dutchAuctionBalanceIn1D ∧ a.startAmount < a.endAmount) ∨
            (i.opcode = .dutchAuctionBalanceOut1D ∧ a.endAmount < a.startAmount)) := by
  have wellFormed := (Registry.ofSet_reachable set).wellFormed
  obtain ⟨_, payload, _, formed, _⟩ :=
    Registry.ofSet_wire_iff.mp (wellFormed.decode_eq_ok_iff.mp decoded)
  obtain ⟨o, args⟩ := i
  dsimp only at auction formed ⊢
  have schema : o.schema = .dutchAuction := by
    rcases auction with rfl | rfl <;> rfl
  obtain ⟨a, encodable, rfl⟩ := Schema.exists_auction_of_wire (schema ▸ formed)
  refine ⟨a, rfl, encodable, fun now => ?_⟩
  obtain ⟨d, direction⟩ : ∃ d, o.direction? = some d := by
    rcases auction with rfl | rfl
    · exact ⟨.input, rfl⟩
    · exact ⟨.output, rfl⟩
  simp only [instructionPrice_toArgs direction]
  have lasting := encodable.duration.1
  refine ⟨a.amountAt d now, Auction.price_lenient lasting,
    ⟨Auction.min_le_amountAt lasting d now, Auction.amountAt_le_max lasting d now⟩,
    encodable.amountAt_word d now, ?_, ?_⟩
  · rw [encodable.failsWith_price_iff]
    cases follows : a.follows d with
    | false => exact .inr rfl
    | true => exact .inl (Auction.price_of_follows lasting follows true)
  · rw [encodable.failsWith_price_iff]
    rcases auction with rfl | rfl
    · cases direction
      simp [Auction.follows]
    · cases direction
      simp [Auction.follows]

/-- An auction in which the taker pays more and more. -/
def risingAuction : Auction := ⟨5, 8, 100, 10⟩

/-- The frame of the rising auction in the full table. -/
def risingFrame : List UInt8 :=
  [15, 73] ++ bigEndian 32 5 ++ bigEndian 32 8 ++ bigEndian 5 100 ++ bigEndian 4 10

theorem decoded_auction_priced_rising :
    let i : Instruction := ⟨.dutchAuctionBalanceIn1D, risingAuction.toArgs⟩
    (Registry.ofSet .swapVm).decode risingFrame = .ok i ∧
      ∀ now : Int,
        (∃ n, instructionPrice (.opcode i.opcode) i.args false (.int now) = .ok n ∧ 5 ≤ n ∧ n ≤ 8) ∧
          FailsWith (instructionPrice (.opcode i.opcode) i.args true (.int now)) .invalidRange := by
  intro i
  have decoded : (Registry.ofSet .swapVm).decode risingFrame = .ok i := by rfl
  refine ⟨decoded, fun now => ?_⟩
  obtain ⟨a, same, _, priced⟩ := decoded_auction_priced .swapVm decoded (.inl rfl)
  obtain rfl : a = risingAuction := by
    exact Except.ok.inj ((Auction.ofArgs_toArgs a).symm.trans (congrArg Auction.ofArgs same.symm))
  obtain ⟨n, lenient, between, _, _, refused⟩ := priced now
  exact ⟨⟨n, lenient, between⟩, refused.mpr (.inl ⟨rfl, by decide⟩)⟩

end SwapCodec
