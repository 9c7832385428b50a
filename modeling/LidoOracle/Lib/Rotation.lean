import Mathlib

/-! Rotation among `n` positions. One of them is on turn at each step, and the
next one at the next step, with the first after the last. -/

namespace Rotation

/-- The steps that a position still has to wait -/
def wait (n : ℕ) (step : ℤ) (pos : ℕ) : ℤ := (pos - step) % n

variable {n : ℕ} {step : ℤ} {pos : ℕ}

theorem wait_nonneg (hn : 0 < n) : 0 ≤ wait n step pos :=
  Int.emod_nonneg _ (Int.natCast_pos.mpr hn).ne'

theorem wait_lt (hn : 0 < n) : wait n step pos < n :=
  Int.emod_lt_of_pos _ (Int.natCast_pos.mpr hn)

/-- The difference of two residues, wrapped around where it is negative -/
theorem wait_eq_wrapped (hpos : pos < n) : wait n step pos =
    if (pos : ℤ) - step % n < 0 then pos - step % n + n else pos - step % n := by
  have hn : (0 : ℤ) < n := Int.natCast_pos.mpr (Nat.zero_lt_of_lt hpos)
  have hnonneg := Int.emod_nonneg step hn.ne'
  have hlt := Int.emod_lt_of_pos step hn
  have hresidue : wait n step pos = (pos - step % n) % n := (Int.sub_emod_emod ..).symm
  rw [hresidue]
  split
  · rw [← Int.add_emod_right, Int.emod_eq_of_lt (by omega) (by omega)]
  · rw [Int.emod_eq_of_lt (by omega) (by omega)]

theorem wait_inj {pos' : ℕ} (hpos : pos < n) (hpos' : pos' < n) (h : wait n step pos = wait n step pos') :
    pos = pos' := by
  have hmod : (pos : ℤ) ≡ pos' [ZMOD n] := Int.ModEq.add_right_cancel' (-step) h
  rw [Int.natCast_modEq_iff] at hmod
  exact hmod.eq_of_lt_of_lt hpos hpos'

theorem exists_wait_eq {k : ℤ} (hk : 0 ≤ k) (hkn : k < n) : ∃ pos < n, wait n step pos = k := by
  have hn : (0 : ℤ) < n := by omega
  have hnonneg := Int.emod_nonneg (step + k) hn.ne'
  have hlt := Int.emod_lt_of_pos (step + k) hn
  refine ⟨((step + k) % n).toNat, by omega, ?_⟩
  rw [wait, Int.toNat_of_nonneg hnonneg, Int.emod_sub_emod, add_sub_cancel_left, Int.emod_eq_of_lt hk hkn]

/-- A step on, everybody waits a step less, and the one that was on turn waits longest. -/
theorem wait_succ (hn : 0 < n) : wait n (step + 1) pos =
    if wait n step pos = 0 then (n : ℤ) - 1 else wait n step pos - 1 := by
  have hnonneg := @wait_nonneg n step pos hn
  have hlt := @wait_lt n step pos hn
  have hshift : wait n (step + 1) pos = (wait n step pos - 1) % n := by
    rw [wait, wait, Int.emod_sub_emod, ← sub_sub]
  rw [hshift]
  split
  · rename_i h
    rw [h, ← Int.add_emod_right, Int.emod_eq_of_lt (by omega) (by omega)]
    ring
  · rw [Int.emod_eq_of_lt (by omega) (by omega)]

/-- Everybody is on turn once in `n` steps. -/
theorem existsUnique_wait_eq_zero (hn : 0 < n) (start : ℤ) (pos : ℕ) :
    ∃! step, (start ≤ step ∧ step < start + n) ∧ wait n step pos = 0 := by
  have hnonneg := @wait_nonneg n start pos hn
  have hlt := @wait_lt n start pos hn
  refine ⟨start + wait n start pos, ⟨⟨by omega, by omega⟩, ?_⟩, fun step' ⟨hrange, hzero⟩ => ?_⟩
  · rw [wait, ← sub_sub, wait, Int.sub_emod_emod, sub_self, Int.zero_emod]
  · have hmod : (pos : ℤ) - start ≡ step' - start [ZMOD n] :=
      Int.ModEq.sub_right start (Int.emod_eq_emod_iff_emod_sub_eq_zero.mpr hzero)
    have hwait : wait n start pos = step' - start := by
      rw [wait, hmod, Int.emod_eq_of_lt (by omega) (by omega)]
    omega

end Rotation
