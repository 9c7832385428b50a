import Mathlib

/-! Floating-point numbers as the rationals that they are. An operation is exact,
and its result is rounded to the nearest number of `p` digits in base `b`, of two
equally near ones to the even one. The exponents have no bounds. -/

namespace FloatingPoint

/-- The nearest integer -/
def halfEven (x : ℚ) : ℤ :=
  if x - ⌊x⌋ < 1 / 2 then ⌊x⌋
  else if 1 / 2 < x - ⌊x⌋ then ⌊x⌋ + 1
  else if ⌊x⌋ % 2 = 0 then ⌊x⌋ else ⌊x⌋ + 1

/-- The exponent of the last of the `p` digits -/
def lastExponent (b p : ℕ) (x : ℚ) : ℤ := Int.log b |x| + 1 - p

def nearest (b p : ℕ) (x : ℚ) : ℚ := halfEven (x / (b : ℚ) ^ lastExponent b p x) * (b : ℚ) ^ lastExponent b p x

/-- Numbers of 53 binary digits -/
def double (x : ℚ) : ℚ := nearest 2 53 x

section Bounds

variable {b p : ℕ} {x : ℚ}

theorem le_halfEven {m : ℤ} (h : (m : ℚ) ≤ x) : m ≤ halfEven x := by
  have hfloor : m ≤ ⌊x⌋ := Int.le_floor.mpr h
  unfold halfEven
  split_ifs <;> omega

theorem halfEven_le {m : ℤ} (h : x ≤ m) : halfEven x ≤ m := by
  have hfloor : ⌊x⌋ ≤ m := Int.cast_le.mp ((Int.floor_le x).trans h)
  unfold halfEven
  split_ifs with hbelow
  · exact hfloor
  all_goals
    -- the fraction is not zero, so the next integer is not above `m`
    have hlt : ⌊x⌋ < m := lt_of_le_of_ne hfloor fun heq => hbelow <| by
      rw [heq]
      linarith
    omega

theorem nearest_nonneg (h : 0 ≤ x) : 0 ≤ nearest b p x := by
  have hscale : 0 ≤ (b : ℚ) ^ lastExponent b p x := zpow_nonneg (Nat.cast_nonneg b) _
  have hint : 0 ≤ halfEven (x / (b : ℚ) ^ lastExponent b p x) :=
    le_halfEven (by rw [Int.cast_zero]; exact div_nonneg h hscale)
  exact mul_nonneg (Int.cast_nonneg hint) hscale

/-- Rounding does not pass a natural number of at most `p` digits. -/
theorem nearest_le {n : ℕ} (hb : 1 < b) (hn : n < b ^ p) (hx : 0 ≤ x) (h : x ≤ n) : nearest b p x ≤ n := by
  rcases hx.eq_or_lt with rfl | hpos
  · have hzero : nearest b p 0 = 0 := by simp [nearest, halfEven]
    rw [hzero]
    exact h
  have hb0 : (0 : ℚ) < b := Nat.cast_pos.mpr (hb.trans' one_pos)
  obtain ⟨k, hk⟩ : ∃ k : ℕ, lastExponent b p x = -k := by
    have hlog : Int.log b |x| < p := by
      rw [abs_of_pos hpos, ← zpow_lt_zpow_iff_right₀ (Nat.one_lt_cast.mpr hb : (1 : ℚ) < b)]
      refine (Int.zpow_log_le_self hb hpos).trans_lt (h.trans_lt ?_)
      rw [zpow_natCast]
      exact_mod_cast hn
    exact ⟨(-lastExponent b p x).toNat, by unfold lastExponent; omega⟩
  have hscaled : x / (b : ℚ) ^ (-(k : ℤ)) ≤ ((n * b ^ k : ℕ) : ℤ) := by
    rw [zpow_neg, div_inv_eq_mul, zpow_natCast]
    push_cast
    exact mul_le_mul_of_nonneg_right h (pow_pos hb0 k).le
  have hint := Int.cast_le (R := ℚ).mpr (halfEven_le hscaled)
  rw [nearest, hk]
  refine (mul_le_mul_of_nonneg_right hint (zpow_nonneg hb0.le _)).trans_eq ?_
  rw [zpow_neg, zpow_natCast]
  push_cast
  exact mul_inv_cancel_right₀ (pow_pos hb0 k).ne' _

theorem double_nonneg (h : 0 ≤ x) : 0 ≤ double x := nearest_nonneg h

theorem double_le {n : ℕ} (hn : n < 2 ^ 53) (hx : 0 ≤ x) (h : x ≤ n) : double x ≤ n := nearest_le one_lt_two hn hx h

end Bounds

end FloatingPoint
