import Mathlib

/-! An amount split in proportion to shares, every part rounded down: no part is
negative, and together they are no more than the amount. -/

namespace ProRata

/-- The part of one share, out of `total` shares -/
def part (amount total share : ℤ) : ℤ := (amount * share).fdiv total

variable {amount total : ℤ}

theorem part_eq_floor (amount share : ℤ) (htotal : 0 < total) :
    part amount total share = ⌊((amount * share : ℤ) : ℚ) / total⌋ := by
  obtain ⟨n, rfl⟩ := Int.eq_ofNat_of_zero_le htotal.le
  rw [part, Int.fdiv_eq_ediv_of_nonneg _ htotal.le]
  exact (Rat.floor_intCast_div_natCast _ n).symm

theorem part_nonneg (hamount : 0 ≤ amount) (htotal : 0 < total) {share : ℤ} (hshare : 0 ≤ share) :
    0 ≤ part amount total share :=
  Int.fdiv_nonneg (mul_nonneg hamount hshare) htotal.le

theorem part_mul_le (share : ℤ) (htotal : 0 < total) : part amount total share * total ≤ amount * share := by
  rw [part, Int.fdiv_eq_ediv_of_nonneg _ htotal.le]
  exact Int.ediv_mul_le _ htotal.ne'

/-- What is given out is no more than what there is. -/
theorem sum_part_le (hamount : 0 ≤ amount) (htotal : 0 < total) {shares : List ℤ} (hsum : shares.sum ≤ total) :
    (shares.map (part amount total)).sum ≤ amount := by
  have hall : (shares.map (part amount total)).sum * total ≤ amount * shares.sum := by
    have hparts : (shares.map fun share => part amount total share * total).sum ≤
        (shares.map fun share => amount * share).sum :=
      List.sum_le_sum fun share _ => part_mul_le share htotal
    rwa [List.sum_map_mul_right, List.sum_map_mul_left, List.map_id'] at hparts
  exact le_of_mul_le_mul_right (hall.trans (mul_le_mul_of_nonneg_left hsum hamount)) htotal

end ProRata
