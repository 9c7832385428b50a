import Mathlib

/-! A budget that is renewed every period: amounts are taken from what is left
of the current period and then, as far as needed, from whole periods after it.
Taking amounts one after the other is taking their sum. -/

/-- The current period, and what is left of it -/
@[ext]
structure Allotment where
  period : ℕ
  left : ℕ
  deriving DecidableEq

namespace Allotment

variable (size : ℕ)

/-- Take an amount; `size` is added for every period that has to be opened for it. -/
def take (q : Allotment) (amount : ℕ) : Allotment :=
  if amount ≤ q.left then ⟨q.period, q.left - amount⟩
  else
    let opened := (amount - q.left - 1) / size + 1
    ⟨q.period + opened, q.left + opened * size - amount⟩

/-- What can be taken without going beyond a period -/
def through (q : Allotment) (period : ℕ) : ℕ := q.left + (period - q.period) * size

variable {size} (hsize : 0 < size) (q : Allotment) (amount : ℕ)
include hsize

theorem opened_le_iff (h : q.left < amount) (n : ℕ) :
    (amount - q.left - 1) / size + 1 ≤ n ↔ amount ≤ q.left + n * size := by
  rw [Nat.succ_le_iff, Nat.div_lt_iff_lt_mul hsize]
  omega

/-- The period reached is the first one whose budget suffices. -/
theorem period_take_le_iff (period : ℕ) :
    (take size q amount).period ≤ period ↔ q.period ≤ period ∧ amount ≤ through size q period := by
  unfold take through
  split_ifs with h
  · exact ⟨fun hle => ⟨hle, h.trans (Nat.le_add_right _ _)⟩, fun hle => hle.1⟩
  · have hopened := opened_le_iff hsize q amount (not_le.mp h) (period - q.period)
    dsimp only
    generalize (amount - q.left - 1) / size + 1 = opened at hopened
    constructor
    · intro hle
      exact ⟨by omega, hopened.mp (by omega)⟩
    · rintro ⟨hperiod, hamount⟩
      have hle := hopened.mpr hamount
      omega

theorem period_le_take : q.period ≤ (take size q amount).period :=
  ((period_take_le_iff hsize q amount _).mp le_rfl).1

/-- Nothing is lost between periods. -/
theorem left_take : (take size q amount).left + amount = through size q (take size q amount).period := by
  have hsuffices : amount ≤ through size q (take size q amount).period :=
    ((period_take_le_iff hsize q amount _).mp le_rfl).2
  unfold take through at *
  split_ifs at * with h
  · dsimp only
    rw [Nat.sub_self, Nat.zero_mul]
    omega
  · dsimp only at *
    rw [Nat.add_sub_cancel_left] at *
    omega

theorem through_take {period : ℕ} (h : (take size q amount).period ≤ period) :
    through size (take size q amount) period + amount = through size q period := by
  have hleft := left_take hsize q amount
  have hstart := period_le_take hsize q amount
  unfold through at *
  have hsplit : (period - q.period) * size = (period - (take size q amount).period) * size +
      ((take size q amount).period - q.period) * size := by
    rw [← Nat.add_mul]
    exact congrArg (· * size) (by omega)
  omega

theorem take_take (amount' : ℕ) : take size (take size q amount) amount' = take size q (amount + amount') := by
  have hperiod : ∀ period, (take size (take size q amount) amount').period ≤ period ↔
      (take size q (amount + amount')).period ≤ period := by
    intro period
    rw [period_take_le_iff hsize (take size q amount), period_take_le_iff hsize q (amount + amount')]
    constructor
    · rintro ⟨hle, hamount⟩
      have hthrough := through_take hsize q amount hle
      exact ⟨(period_le_take hsize q amount).trans hle, by omega⟩
    · rintro ⟨hle, hamount⟩
      have hfirst : (take size q amount).period ≤ period := (period_take_le_iff hsize q amount _).mpr ⟨hle, by omega⟩
      have hthrough := through_take hsize q amount hfirst
      exact ⟨hfirst, by omega⟩
  have hsame : (take size (take size q amount) amount').period = (take size q (amount + amount')).period :=
    le_antisymm ((hperiod _).mpr le_rfl) ((hperiod _).mp le_rfl)
  have hleft := left_take hsize (take size q amount) amount'
  have hleft' := left_take hsize q (amount + amount')
  have hthrough := through_take hsize q amount (period_le_take hsize (take size q amount) amount')
  rw [hsame] at hleft hthrough
  exact Allotment.ext hsame (by omega)

omit hsize in
theorem take_zero : take size q 0 = q := by
  unfold take
  rw [if_pos (Nat.zero_le _), Nat.sub_zero]

/-- Amounts one by one come to the same as all at once. -/
theorem foldl_take (amounts : List ℕ) : amounts.foldl (take size) q = take size q amounts.sum := by
  induction amounts generalizing q with
  | nil => exact (take_zero q).symm
  | cons amount amounts ih => rw [List.foldl_cons, ih, take_take hsize, List.sum_cons]

theorem period_take_mono {amount amount' : ℕ} (h : amount ≤ amount') :
    (take size q amount).period ≤ (take size q amount').period := by
  obtain ⟨hstart, hamount⟩ := (period_take_le_iff hsize q amount' _).mp le_rfl
  exact (period_take_le_iff hsize q amount _).mpr ⟨hstart, h.trans hamount⟩

theorem isLeast_period_take :
    IsLeast {period | q.period ≤ period ∧ amount ≤ through size q period} (take size q amount).period :=
  ⟨(period_take_le_iff hsize q amount _).mp le_rfl, fun period h => (period_take_le_iff hsize q amount period).mpr h⟩

end Allotment
