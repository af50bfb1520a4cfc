import SwapCodec.Proofs.Auction.Monotone
import Mathlib.Order.Bounds.Basic

/-!
# Rounding in favour of the maker

A quotient rounded down and the same quotient rounded up are the integers next to the exact
quotient on either side (`Direction.isGreatest_divide_output`, `Direction.isLeast_divide_input`).
They are the same if the quotient is exact and neighbours otherwise
(`Direction.divide_output_eq_input_iff`, `Direction.divide_input_le_succ`).

From the start of an auction to its end the exact amount is the weighted sum of both ends over
the duration. So what the taker pays and what the taker receives are the integers next to it on
either side (`rounding_favours_maker`).
-/

set_option autoImplicit false

namespace SwapCodec

/-! ## The integers next to a quotient -/

namespace Direction

variable {n m k : Int}

theorem isLeast_divide_input (pos : 0 < m) : IsLeast {k | n ≤ k * m} (input.divide n m) := by
  refine ⟨le_divide_input_mul pos, ?_⟩
  intro k above
  exact (divide_input_le_iff pos).mpr above

theorem isGreatest_divide_output (pos : 0 < m) :
    IsGreatest {k | k * m ≤ n} (output.divide n m) := by
  refine ⟨divide_output_mul_le pos, ?_⟩
  intro k below
  exact (le_divide_output_iff pos).mpr below

theorem divide_output_lt_iff (pos : 0 < m) : output.divide n m < k ↔ n < k * m :=
  lt_iff_lt_of_le_iff_le (le_divide_output_iff pos)

theorem lt_divide_input_iff (pos : 0 < m) : k < input.divide n m ↔ k * m < n :=
  lt_iff_lt_of_le_iff_le (divide_input_le_iff pos)

theorem divide_output_le_input (pos : 0 < m) : output.divide n m ≤ input.divide n m :=
  input.le_divide pos (divide_output_mul_le pos)

theorem divide_input_le_succ (pos : 0 < m) : input.divide n m ≤ output.divide n m + 1 := by
  rw [divide_input_le_iff pos]
  exact ((divide_output_lt_iff pos).mp (Int.lt_succ _)).le

/-- Both ways of rounding agree exactly where there is nothing to round. -/
theorem divide_output_eq_input_iff (pos : 0 < m) :
    output.divide n m = input.divide n m ↔ m ∣ n := by
  constructor
  · intro same
    have up : n ≤ input.divide n m * m := le_divide_input_mul pos
    rw [← same] at up
    exact Dvd.intro_left _ (Int.le_antisymm (divide_output_mul_le pos) up)
  · rintro ⟨quotient, rfl⟩
    rw [Int.mul_comm, divide_mul _ pos, divide_mul _ pos]

/-- Rounding either way adds or takes away less than one unit. -/
theorem abs_divide_mul_sub_lt (d : Direction) (pos : 0 < m) : |d.divide n m * m - n| < m := by
  rw [abs_lt]
  cases d with
  | input =>
      have up : n ≤ input.divide n m * m := le_divide_input_mul pos
      have before : (input.divide n m - 1) * m < n := (lt_divide_input_iff pos).mp (by omega)
      rw [Int.sub_mul, Int.one_mul] at before
      omega
  | output =>
      have down : output.divide n m * m ≤ n := divide_output_mul_le pos
      have after : n < (output.divide n m + 1) * m := (divide_output_lt_iff pos).mp (by omega)
      rw [Int.add_mul, Int.one_mul] at after
      omega

end Direction

/-! ## Amounts -/

theorem Auction.amountAt_of_running {a : Auction} (lasting : 0 < a.duration) {now : Int}
    (started : a.startTime ≤ now) (running : now ≤ a.endTime) (d : Direction) :
    a.amountAt d now = d.divide (a.weighted now) a.duration := by
  rw [amountAt_eq_divide lasting, clamped_of_running started running]

/-- **Rounding favours the maker.** From the start of an auction to its end, both included, the
taker pays the least integer that is not below the exact amount and receives the greatest one
that is not above it. Either is less than one unit from the exact amount. They are the same if
the exact amount is an integer, and otherwise the taker pays one unit more. -/
theorem rounding_favours_maker (a : Auction) (lasting : 0 < a.duration) {now : Int}
    (started : a.startTime ≤ now) (running : now ≤ a.startTime + a.duration) :
    let sum := a.startAmount * (a.startTime + a.duration - now)
      + a.endAmount * (now - a.startTime)
    ∃ paid received : Int,
      a.price .input false now = .ok paid ∧ a.price .output false now = .ok received ∧
      IsLeast {n : Int | sum ≤ n * a.duration} paid ∧
      IsGreatest {n : Int | n * a.duration ≤ sum} received ∧
      |paid * a.duration - sum| < a.duration ∧ |received * a.duration - sum| < a.duration ∧
      received ≤ paid ∧ paid ≤ received + 1 ∧
      (received = paid ↔ a.duration ∣ sum) ∧
      (paid = received + 1 ↔ ¬ a.duration ∣ sum) := by
  intro sum
  have rounded : ∀ d : Direction, a.price d false now = .ok (d.divide sum a.duration) := by
    intro d
    rw [Auction.price_lenient lasting, Auction.amountAt_of_running lasting started running]
    rfl
  have ordered := Direction.divide_output_le_input (n := sum) lasting
  have near := Direction.divide_input_le_succ (n := sum) lasting
  have divides := Direction.divide_output_eq_input_iff (n := sum) lasting
  refine ⟨_, _, rounded .input, rounded .output, Direction.isLeast_divide_input lasting,
    Direction.isGreatest_divide_output lasting, Direction.abs_divide_mul_sub_lt _ lasting,
    Direction.abs_divide_mul_sub_lt _ lasting, ordered, near, divides, ?_⟩
  rw [← divides]
  omega

/-- A debt that turns into a credit: a third of the way the exact amount is minus four thirds,
which is rounded up to minus one and down to minus two. -/
theorem rounding_favours_maker_negative :
    let a : Auction := ⟨-7, 10, 0, 3⟩
    0 < a.duration ∧ a.startTime ≤ 1 ∧ 1 ≤ a.startTime + a.duration ∧
      a.price .input false 1 = .ok (-1) ∧ a.price .output false 1 = .ok (-2) ∧
      IsLeast {n : Int | -4 ≤ n * 3} (-1) ∧ IsGreatest {n : Int | n * 3 ≤ -4} (-2) := by
  intro a
  have lasting : 0 < a.duration := by decide
  have started : a.startTime ≤ 1 := by decide
  have running : 1 ≤ a.startTime + a.duration := by decide
  obtain ⟨paid, received, up, down, least, greatest, -⟩ :=
    rounding_favours_maker a lasting started running
  obtain rfl : paid = -1 := Except.ok.inj (up.symm.trans rfl)
  obtain rfl : received = -2 := Except.ok.inj (down.symm.trans rfl)
  exact ⟨lasting, started, running, up, down, least, greatest⟩

end SwapCodec
