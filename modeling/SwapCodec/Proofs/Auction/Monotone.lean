import Mathlib.Tactic.Ring
import SwapCodec.Proofs.Auction

/-!
# Amounts over time

Before an auction starts its amount is that of the start, and after it has ended it is
that of the end. So the amount at any moment is the one at the nearest moment of the
auction (`Auction.clamped`), and there a single formula holds, with the ends included
(`Auction.amountAt_eq_divide`): the rounded quotient is exact at both ends
(`Direction.divide_mul`), so nothing can be lost where the line meets them.

The amount is composed of three steps that keep the order of their arguments or turn it
around: the nearest moment (`Auction.clamped_monotone`), the weighted sum of both ends,
which changes by the same difference at every second (`Auction.weighted_eq`), and the
rounded quotient (`Direction.divide_monotone`).
-/

set_option autoImplicit false

namespace SwapCodec

/-! ## Rounding -/

namespace Direction

/-- A quotient that is exact is not rounded. -/
theorem divide_mul (d : Direction) {m : Int} (pos : 0 < m) (k : Int) :
    d.divide (k * m) m = k := by
  apply Int.le_antisymm
  · exact d.divide_le pos (Int.le_refl _)
  · exact d.le_divide pos (Int.le_refl _)

theorem divide_monotone (d : Direction) {m n n' : Int} (pos : 0 < m) (le : n ≤ n') :
    d.divide n m ≤ d.divide n' m := by
  cases d with
  | input => exact (divide_input_le_iff pos).mpr (Int.le_trans le (le_divide_input_mul pos))
  | output => exact (le_divide_output_iff pos).mpr (Int.le_trans (divide_output_mul_le pos) le)

end Direction

namespace Auction

variable {a : Auction} {d : Direction} {now later : Int}

/-! ## The moment that counts -/

/-- The moment from the start to the end of the auction that is nearest. -/
def clamped (a : Auction) (now : Int) : Int := max a.startTime (min now a.endTime)

theorem clamped_monotone (a : Auction) (le : now ≤ later) : a.clamped now ≤ a.clamped later := by
  simp only [clamped]
  omega

theorem clamped_of_le_start (lasting : 0 < a.duration) (before : now ≤ a.startTime) :
    a.clamped now = a.startTime := by
  simp only [clamped, endTime]
  omega

theorem clamped_of_end_le (lasting : 0 < a.duration) (after : a.endTime ≤ now) :
    a.clamped now = a.endTime := by
  simp only [clamped, endTime] at after ⊢
  omega

theorem clamped_of_running (started : a.startTime ≤ now) (running : now ≤ a.endTime) :
    a.clamped now = now := by
  simp only [clamped]
  omega

/-! ## The weighted sum -/

/-- The weighted sum changes by the difference of the ends at every second. -/
theorem weighted_eq (a : Auction) (now : Int) :
    a.weighted now =
      a.startAmount * a.duration + (a.endAmount - a.startAmount) * (now - a.startTime) := by
  rw [weighted, endTime]
  ring

theorem weighted_start (a : Auction) : a.weighted a.startTime = a.startAmount * a.duration := by
  simp [weighted_eq]

theorem weighted_end (a : Auction) : a.weighted a.endTime = a.endAmount * a.duration := by
  rw [weighted_eq, endTime]
  ring

theorem weighted_monotone (rising : a.startAmount ≤ a.endAmount) (le : now ≤ later) :
    a.weighted now ≤ a.weighted later := by
  rw [weighted_eq, weighted_eq]
  apply Int.add_le_add_left
  exact Int.mul_le_mul_of_nonneg_left (by omega) (Int.sub_nonneg.mpr rising)

theorem weighted_antitone (falling : a.endAmount ≤ a.startAmount) (le : now ≤ later) :
    a.weighted later ≤ a.weighted now := by
  rw [weighted_eq, weighted_eq]
  apply Int.add_le_add_left
  exact Int.mul_le_mul_of_nonpos_left (by omega) (by omega)

/-! ## Amounts -/

/-- **One formula.** The amount is the rounded mean at the nearest moment of the auction. -/
theorem amountAt_eq_divide (lasting : 0 < a.duration) (d : Direction) (now : Int) :
    a.amountAt d now = d.divide (a.weighted (a.clamped now)) a.duration := by
  rw [amountAt]
  split
  case isTrue before =>
    rw [clamped_of_le_start lasting before, weighted_start, d.divide_mul lasting]
  case isFalse started =>
    split
    case isTrue after =>
      rw [clamped_of_end_le lasting after, weighted_end, d.divide_mul lasting]
    case isFalse running =>
      rw [clamped_of_running (by omega) (by omega)]

theorem amountAt_monotone (lasting : 0 < a.duration) (rising : a.startAmount ≤ a.endAmount)
    (d : Direction) (le : now ≤ later) : a.amountAt d now ≤ a.amountAt d later := by
  rw [amountAt_eq_divide lasting, amountAt_eq_divide lasting]
  apply d.divide_monotone lasting
  exact weighted_monotone rising (a.clamped_monotone le)

theorem amountAt_antitone (lasting : 0 < a.duration) (falling : a.endAmount ≤ a.startAmount)
    (d : Direction) (le : now ≤ later) : a.amountAt d later ≤ a.amountAt d now := by
  rw [amountAt_eq_divide lasting, amountAt_eq_divide lasting]
  apply d.divide_monotone lasting
  exact weighted_antitone falling (a.clamped_monotone le)

theorem amountAt_of_le_start (before : now ≤ a.startTime) :
    a.amountAt d now = a.startAmount := if_pos before

theorem amountAt_of_end_le (lasting : 0 < a.duration) (after : a.endTime ≤ now) :
    a.amountAt d now = a.endAmount := by
  rw [amountAt_eq_divide lasting, clamped_of_end_le lasting after, weighted_end,
    d.divide_mul lasting]

theorem checkDirection_ne_ok (against : a.follows d = false) : a.checkDirection d ≠ .ok () := by
  rw [checkDirection.eq_def, if_neg (by simp [against])]
  cases d with
  | input => exact fail_ne_ok
  | output => exact fail_ne_ok

/-- If the direction is asked for there is a price exactly where the auction follows it, and it
is the price that there is anyway. -/
theorem price_strict_eq_ok_iff (lasting : 0 < a.duration) {n : Int} :
    a.price d true now = .ok n ↔ n = a.amountAt d now ∧ a.follows d = true := by
  cases follows : a.follows d with
  | true =>
      rw [price_of_follows lasting follows]
      simp [eq_comm]
  | false =>
      have refused := checkDirection_ne_ok follows
      rw [price, if_neg (Int.not_le.mpr lasting), if_pos rfl, Except.bind_eq_ok_iff]
      simp [refused]

end Auction

/-- **Amounts over time.** An auction that lasts some time has an amount at every moment,
whatever its direction, as long as the direction is not asked for. The amount never rises as
time goes by if the auction does not end higher than it starts, and never falls if it does not
end lower. It is the start amount until the auction starts and the end amount from its end on,
and so it lies between both at every moment. Asking for the direction leads to the same amount
or to none, and to none exactly if the auction goes against its direction. -/
theorem amount_over_time (a : Auction) (d : Direction) (lasting : 0 < a.duration) :
    ∃ amount : Int → Int,
      (∀ now, a.price d false now = .ok (amount now)) ∧
      (a.endAmount ≤ a.startAmount → ∀ now later, now ≤ later → amount later ≤ amount now) ∧
      (a.startAmount ≤ a.endAmount → ∀ now later, now ≤ later → amount now ≤ amount later) ∧
      (∀ now, now ≤ a.startTime → amount now = a.startAmount) ∧
      (∀ now, a.startTime + a.duration ≤ now → amount now = a.endAmount) ∧
      (∀ now, min a.startAmount a.endAmount ≤ amount now ∧
        amount now ≤ max a.startAmount a.endAmount) ∧
      ∀ now n, a.price d true now = .ok n ↔ n = amount now ∧ a.follows d = true := by
  refine ⟨a.amountAt d, fun now => Auction.price_lenient lasting, ?_, ?_, ?_, ?_, ?_, ?_⟩
  · intro falling now later le
    exact Auction.amountAt_antitone lasting falling d le
  · intro rising now later le
    exact Auction.amountAt_monotone lasting rising d le
  · intro now before
    exact Auction.amountAt_of_le_start before
  · intro now after
    exact Auction.amountAt_of_end_le lasting after
  · intro now
    exact ⟨Auction.min_le_amountAt lasting d now, Auction.amountAt_le_max lasting d now⟩
  · intro now n
    exact Auction.price_strict_eq_ok_iff lasting

/-- An auction from ten to zero in three seconds. The rounded amounts meet both ends. -/
theorem amount_over_time_falling :
    let a : Auction := ⟨10, 0, 0, 3⟩
    0 < a.duration ∧ ∃ amount : Int → Int,
      (∀ now, a.price .input false now = .ok (amount now)) ∧
      (∀ now later, now ≤ later → amount later ≤ amount now) ∧
      [-1, 0, 1, 2, 3, 4].map amount = [10, 10, 7, 4, 0, 0] := by
  intro a
  have lasting : 0 < a.duration := by decide
  obtain ⟨amount, priced, falling, -⟩ := amount_over_time a .input lasting
  refine ⟨lasting, amount, priced, falling (by decide), ?_⟩
  have amount_eq : ∀ now n, a.price .input false now = .ok n → amount now = n := by
    intro now n known
    exact Except.ok.inj ((priced now).symm.trans known)
  simp only [List.map_cons, List.map_nil]
  rw [amount_eq (-1) 10 rfl, amount_eq 0 10 rfl, amount_eq 1 7 rfl, amount_eq 2 4 rfl,
    amount_eq 3 0 rfl, amount_eq 4 0 rfl]

end SwapCodec
