import SwapCodec.Proofs.Auction.Rounding
import Mathlib.Order.Basic

/-!
# Symmetries of prices

Three changes of an auction change its amounts in a known way. Run backwards, it has at every
moment the amount of the mirrored moment (`Auction.amountAt_reversed`). Started later, it has
the amounts of the earlier auction later (`Auction.amountAt_delayed`). And the complement of an
auction in a total, whose ends are what the ends leave of the total, leaves of the total what
the auction leaves, if it is rounded the other way (`Auction.amountAt_complement`).

Each change carries the nearest moment of the auction and the weighted sum over to the changed
auction, so that the cases before, during and after an auction need not be told apart
(`Auction.amountAt_congr`). Only the complement turns the rounding around
(`Direction.divide_complement`).
-/

set_option autoImplicit false

namespace SwapCodec

/-! ## The other direction -/

namespace Direction

/-- The side of the swap that an auction does not move. -/
def opposite : Direction → Direction
  | input => output
  | output => input

/-- What is left of a whole number of units is rounded the other way. -/
theorem divide_complement (d : Direction) {n m : Int} (pos : 0 < m) (total : Int) :
    d.opposite.divide (total * m - n) m = total - d.divide n m := by
  cases d with
  | input =>
      refine eq_of_forall_le_iff fun k => ?_
      calc k ≤ output.divide (total * m - n) m
        _ ↔ k * m ≤ total * m - n := le_divide_output_iff pos
        _ ↔ n ≤ (total - k) * m := by rw [Int.sub_mul]; omega
        _ ↔ input.divide n m ≤ total - k := (divide_input_le_iff pos).symm
        _ ↔ k ≤ total - input.divide n m := by omega
  | output =>
      refine eq_of_forall_ge_iff fun k => ?_
      calc input.divide (total * m - n) m ≤ k
        _ ↔ total * m - n ≤ k * m := divide_input_le_iff pos
        _ ↔ (total - k) * m ≤ n := by rw [Int.sub_mul]; omega
        _ ↔ total - k ≤ output.divide n m := (le_divide_output_iff pos).symm
        _ ↔ total - output.divide n m ≤ k := by omega

end Direction

namespace Auction

/-! ## Changed auctions -/

/-- The auction from its end to its start, at the same times. -/
def reversed (a : Auction) : Auction := ⟨a.endAmount, a.startAmount, a.startTime, a.duration⟩

/-- The auction that starts later. -/
def delayed (a : Auction) (delay : Int) : Auction := { a with startTime := a.startTime + delay }

/-- The auction of what is left of a total. -/
def complement (a : Auction) (total : Int) : Auction :=
  ⟨total - a.startAmount, total - a.endAmount, a.startTime, a.duration⟩

/-- The moment that is as far from the end of the auction as the given one is from its start. -/
def mirrored (a : Auction) (now : Int) : Int := a.startTime + a.endTime - now

variable {a b : Auction}

/-- Auctions that last equally long have the same amount wherever their weighted sums agree. -/
theorem amountAt_congr (lasting : 0 < a.duration) (same : b.duration = a.duration) {now later : Int}
    (sums : b.weighted (b.clamped later) = a.weighted (a.clamped now)) (d : Direction) :
    b.amountAt d later = a.amountAt d now := by
  have lastingToo : 0 < b.duration := same.symm ▸ lasting
  rw [amountAt_eq_divide lastingToo, amountAt_eq_divide lasting, sums, same]

/-! ## Run backwards -/

theorem clamped_reversed (lasting : 0 < a.duration) (now : Int) :
    a.reversed.clamped (a.mirrored now) = a.mirrored (a.clamped now) := by
  simp only [clamped, mirrored, reversed, endTime]
  omega

theorem weighted_reversed (a : Auction) (now : Int) :
    a.reversed.weighted (a.mirrored now) = a.weighted now := by
  simp only [weighted, mirrored, reversed, endTime]
  ring

theorem amountAt_reversed (lasting : 0 < a.duration) (d : Direction) (now : Int) :
    a.reversed.amountAt d (a.mirrored now) = a.amountAt d now := by
  refine amountAt_congr lasting (by rfl) ?_ d
  rw [clamped_reversed lasting, weighted_reversed]

/-! ## Started later -/

theorem clamped_delayed (a : Auction) (delay now : Int) :
    (a.delayed delay).clamped (now + delay) = a.clamped now + delay := by
  simp only [clamped, delayed, endTime]
  omega

theorem weighted_delayed (a : Auction) (delay now : Int) :
    (a.delayed delay).weighted (now + delay) = a.weighted now := by
  simp only [weighted, delayed, endTime]
  ring

theorem amountAt_delayed (lasting : 0 < a.duration) (d : Direction) (delay now : Int) :
    (a.delayed delay).amountAt d (now + delay) = a.amountAt d now := by
  refine amountAt_congr lasting (by rfl) ?_ d
  rw [clamped_delayed, weighted_delayed]

/-! ## What is left of a total -/

/-- The weights of the ends add up to the duration, so they take the total as often. -/
theorem weighted_complement (a : Auction) (total now : Int) :
    (a.complement total).weighted now = total * a.duration - a.weighted now := by
  simp only [weighted, complement, endTime]
  ring

theorem amountAt_complement (lasting : 0 < a.duration) (d : Direction) (total now : Int) :
    (a.complement total).amountAt d.opposite now = total - a.amountAt d now := by
  have lastingToo : 0 < (a.complement total).duration := lasting
  have moment : (a.complement total).clamped now = a.clamped now := rfl
  rw [amountAt_eq_divide lastingToo, moment, weighted_complement, amountAt_eq_divide lasting]
  exact d.divide_complement lasting total

end Auction

/-- **Symmetric prices.** Take an auction that lasts some time, either direction, and any moment,
which lies `passed` seconds after the start. The auction that runs backwards has the same price
as many seconds before its end, and the auction that starts later has the same price as many
seconds after its own start. The price and the price of the complementary auction at the same
moment in the other direction add up to the total. -/
theorem pricing_symmetric (a : Auction) (lasting : 0 < a.duration) (d : Direction)
    (passed delay total : Int) :
    ∃ price left : Int,
      a.price d false (a.startTime + passed) = .ok price ∧
      a.reversed.price d false (a.startTime + a.duration - passed) = .ok price ∧
      (a.delayed delay).price d false (a.startTime + delay + passed) = .ok price ∧
      (a.complement total).price d.opposite false (a.startTime + passed) = .ok left ∧
      price + left = total := by
  have mirror : a.startTime + a.duration - passed = a.mirrored (a.startTime + passed) := by
    simp only [Auction.mirrored, Auction.endTime]
    omega
  have later : a.startTime + delay + passed = a.startTime + passed + delay := by omega
  refine ⟨a.amountAt d (a.startTime + passed),
    (a.complement total).amountAt d.opposite (a.startTime + passed),
    Auction.price_lenient lasting, ?_, ?_, Auction.price_lenient lasting, ?_⟩
  · rw [mirror, ← Auction.amountAt_reversed lasting]
    exact Auction.price_lenient lasting
  · rw [later, ← Auction.amountAt_delayed lasting d delay]
    exact Auction.price_lenient lasting
  · rw [Auction.amountAt_complement lasting]
    omega

/-- An auction from ten to zero in three seconds, one second after its start. The exact amount
is six and two thirds, and what is left of twelve is five and a third. -/
theorem pricing_symmetric_falling :
    let a : Auction := ⟨10, 0, 100, 3⟩
    0 < a.duration ∧
      (⟨0, 10, 100, 3⟩ : Auction).price .input false 102 = .ok 7 ∧
      (⟨10, 0, 95, 3⟩ : Auction).price .input false 96 = .ok 7 ∧
      (⟨2, 12, 100, 3⟩ : Auction).price .output false 101 = .ok 5 := by
  intro a
  have lasting : 0 < a.duration := by decide
  obtain ⟨price, left, here, mirrored, later, rest, sum⟩ :=
    pricing_symmetric a lasting .input 1 (-5) 12
  obtain rfl : price = 7 := Except.ok.inj (here.symm.trans rfl)
  obtain rfl : left = 5 := by omega
  exact ⟨lasting, mirrored, later, rest⟩

end SwapCodec
