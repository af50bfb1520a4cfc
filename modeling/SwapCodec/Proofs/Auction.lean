import SwapCodec.Auction
import SwapCodec.Proofs.Flaws

/-!
# Prices of an auction

Rounding down gives the greatest integer that is not above the exact quotient
(`Direction.le_divide_output_iff`), and rounding up the least that is not below it
(`Direction.divide_input_le_iff`). So a quotient rounded either way lies on the same
side of every integer as the exact quotient (`Direction.le_divide`,
`Direction.divide_le`). While an auction lasts its exact amount is a mean of both
ends, so the rounded amount stays between them, and before and after it is one of them
(`Auction.min_le_amountAt`, `Auction.amountAt_le_max`).

An auction that lasts some time has a price at every moment. If the direction is
asked for, there is one exactly when the auction follows its direction
(`Auction.price_of_follows`), and otherwise the range of the amounts is reported as
invalid, at every moment (`Auction.failsWith_price`).
-/

set_option autoImplicit false

namespace SwapCodec

/-! ## Rounding -/

namespace Direction

variable {n m k : Int}

theorem le_divide_output_iff (pos : 0 < m) : k ≤ output.divide n m ↔ k * m ≤ n := by
  rw [divide, Int.fdiv_eq_ediv_of_nonneg _ (Int.le_of_lt pos), Int.le_ediv_iff_mul_le pos]

/-- Rounding up is rounding down on the other side of zero. -/
theorem divide_input_le_iff (pos : 0 < m) : input.divide n m ≤ k ↔ n ≤ k * m := by
  have reflected : -k ≤ output.divide (-n) m ↔ -k * m ≤ -n := le_divide_output_iff pos
  rw [Int.neg_mul, Int.neg_le_neg_iff] at reflected
  rw [← reflected]
  exact Int.neg_le_iff

theorem divide_output_mul_le (pos : 0 < m) : output.divide n m * m ≤ n :=
  (le_divide_output_iff pos).mp (Int.le_refl _)

theorem le_divide_input_mul (pos : 0 < m) : n ≤ input.divide n m * m :=
  (divide_input_le_iff pos).mp (Int.le_refl _)

theorem le_divide (d : Direction) (pos : 0 < m) (below : k * m ≤ n) : k ≤ d.divide n m := by
  cases d with
  | input => exact Int.le_of_mul_le_mul_right (Int.le_trans below (le_divide_input_mul pos)) pos
  | output => exact (le_divide_output_iff pos).mpr below

theorem divide_le (d : Direction) (pos : 0 < m) (above : n ≤ k * m) : d.divide n m ≤ k := by
  cases d with
  | input => exact (divide_input_le_iff pos).mpr above
  | output => exact Int.le_of_mul_le_mul_right (Int.le_trans (divide_output_mul_le pos) above) pos

end Direction

namespace Auction

variable {a : Auction} {d : Direction} {now : Int}

/-! ## Amounts -/

/-- The time that is left and the time that has passed are the weights of the ends,
and together they are the duration. -/
theorem duration_eq (a : Auction) (now : Int) :
    a.duration = (a.endTime - now) + (now - a.startTime) := by
  rw [endTime]
  omega

theorem le_weighted (started : a.startTime ≤ now) (running : now ≤ a.endTime) {k : Int}
    (start : k ≤ a.startAmount) (stop : k ≤ a.endAmount) : k * a.duration ≤ a.weighted now := by
  have left := Int.mul_le_mul_of_nonneg_right start (Int.sub_nonneg.mpr running)
  have passed := Int.mul_le_mul_of_nonneg_right stop (Int.sub_nonneg.mpr started)
  rw [weighted, a.duration_eq now, Int.mul_add]
  exact Int.add_le_add left passed

theorem weighted_le (started : a.startTime ≤ now) (running : now ≤ a.endTime) {k : Int}
    (start : a.startAmount ≤ k) (stop : a.endAmount ≤ k) : a.weighted now ≤ k * a.duration := by
  have left := Int.mul_le_mul_of_nonneg_right start (Int.sub_nonneg.mpr running)
  have passed := Int.mul_le_mul_of_nonneg_right stop (Int.sub_nonneg.mpr started)
  rw [weighted, a.duration_eq now, Int.mul_add]
  exact Int.add_le_add left passed

/-- A lower bound of both ends bounds the amount at every moment. -/
theorem le_amountAt (lasting : 0 < a.duration) (d : Direction) (now : Int) {k : Int}
    (start : k ≤ a.startAmount) (stop : k ≤ a.endAmount) : k ≤ a.amountAt d now := by
  rw [amountAt]
  split
  · exact start
  · split
    · exact stop
    · exact d.le_divide lasting (le_weighted (by omega) (by omega) start stop)

/-- An upper bound of both ends bounds the amount at every moment. -/
theorem amountAt_le (lasting : 0 < a.duration) (d : Direction) (now : Int) {k : Int}
    (start : a.startAmount ≤ k) (stop : a.endAmount ≤ k) : a.amountAt d now ≤ k := by
  rw [amountAt]
  split
  · exact start
  · split
    · exact stop
    · exact d.divide_le lasting (weighted_le (by omega) (by omega) start stop)

theorem min_le_amountAt (lasting : 0 < a.duration) (d : Direction) (now : Int) :
    min a.startAmount a.endAmount ≤ a.amountAt d now :=
  le_amountAt lasting d now (Int.min_le_left _ _) (Int.min_le_right _ _)

theorem amountAt_le_max (lasting : 0 < a.duration) (d : Direction) (now : Int) :
    a.amountAt d now ≤ max a.startAmount a.endAmount :=
  amountAt_le lasting d now (Int.le_max_left _ _) (Int.le_max_right _ _)

/-! ## Prices -/

/-- Without asking for the direction there is always a price. -/
theorem price_lenient (lasting : 0 < a.duration) :
    a.price d false now = .ok (a.amountAt d now) := by
  rw [price, if_neg (Int.not_le.mpr lasting)]
  rfl

/-- An auction that follows its direction has the same price either way. -/
theorem price_of_follows (lasting : 0 < a.duration) (follows : a.follows d = true)
    (strict : Bool) : a.price d strict now = .ok (a.amountAt d now) := by
  cases strict with
  | false => exact price_lenient lasting
  | true =>
      rw [price, if_neg (Int.not_le.mpr lasting), checkDirection.eq_def, if_pos follows]
      rfl

/-- The report of an auction that goes against its direction quotes both ends. -/
theorem failsWith_checkDirection (start : (Text.decimal? a.startAmount).isSome = true)
    (stop : (Text.decimal? a.endAmount).isSome = true) (against : a.follows d = false) :
    FailsWith (a.checkDirection d) .invalidRange := by
  obtain ⟨first, firstNumeral⟩ := Option.isSome_iff_exists.mp start
  obtain ⟨last, lastNumeral⟩ := Option.isSome_iff_exists.mp stop
  rw [checkDirection.eq_def, if_neg (by simp [against])]
  cases d with
  | input => exact failsWith_fail (by simp [Error.message?, firstNumeral, lastNumeral])
  | output => exact failsWith_fail (by simp [Error.message?, firstNumeral, lastNumeral])

theorem failsWith_price (lasting : 0 < a.duration)
    (start : (Text.decimal? a.startAmount).isSome = true)
    (stop : (Text.decimal? a.endAmount).isSome = true) (against : a.follows d = false) :
    FailsWith (a.price d true now) .invalidRange := by
  rw [price, if_neg (Int.not_le.mpr lasting)]
  exact (failsWith_checkDirection start stop against).bind _

/-- **Strict prices.** An auction whose ends have numerals is refused exactly if it
goes against its direction, whatever the moment. -/
theorem failsWith_price_iff (lasting : 0 < a.duration)
    (start : (Text.decimal? a.startAmount).isSome = true)
    (stop : (Text.decimal? a.endAmount).isSome = true) :
    FailsWith (a.price d true now) .invalidRange ↔ a.follows d = false := by
  constructor
  · intro failed
    by_contra against
    exact failed.ne_ok (price_of_follows lasting (by simpa using against) true)
  · exact failsWith_price lasting start stop

/-! ## The auction of an instruction -/

/-- The parameters are those that the record was made of. -/
theorem ofArgs_toArgs (a : Auction) : ofArgs a.toArgs = .ok a := by
  rfl

end Auction

/-- The price of an instruction that describes an auction is the price of that
auction in the direction of the opcode. -/
theorem instructionPrice_toArgs {o : Opcode} {d : Direction} (direction : o.direction? = some d)
    (a : Auction) (strict : Bool) (now : Int) :
    instructionPrice (.opcode o) a.toArgs strict (.int now) = a.price d strict now := by
  have moved : directionOf (.opcode o) = .ok d := by
    rw [directionOf, direction]
  rw [instructionPrice, moved, Auction.ofArgs_toArgs]
  rfl

end SwapCodec
