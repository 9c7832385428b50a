import Mathlib

/-! A ring buffer of `n` cells after `s` writes: write number `i` goes to cell
`i % n`. The last `n` writes can be read back, cells never written hold the
initial value. -/

universe u

namespace RingBuffer

variable {α : Type u}

def written (init : α) (f : ℕ → α) (n : ℕ) : ℕ → List α
  | 0 => List.replicate n init
  | s + 1 => (written init f n s).set (s % n) (f s)

variable {init : α} {f : ℕ → α} {n : ℕ}

@[simp] theorem length_written (s : ℕ) : (written init f n s).length = n := by
  induction s with
  | zero => exact List.length_replicate
  | succ s ih => rw [written, List.length_set, ih]

theorem mod_ne_of_lt {i j : ℕ} (hij : i < j) (hn : j < i + n) : i % n ≠ j % n := by
  intro h
  have hdvd : n ∣ j - i := (Nat.modEq_iff_dvd' hij.le).mp h
  have := Nat.le_of_dvd (by omega) hdvd
  omega

theorem written_recent (hn : 0 < n) {i s : ℕ} (his : i < s) (hsn : s ≤ i + n) :
    (written init f n s)[i % n]? = some (f i) := by
  induction s with
  | zero => omega
  | succ s ih =>
    have hlt : i % n < (written init f n s).length := by
      rw [length_written]
      exact Nat.mod_lt i hn
    rw [written]
    rcases Nat.lt_succ_iff_lt_or_eq.mp his with hlater | rfl
    · rw [List.getElem?_set_ne (mod_ne_of_lt hlater (by omega)).symm]
      exact ih hlater (by omega)
    · exact List.getElem?_set_self hlt

theorem written_unwritten {i s : ℕ} (hsi : s ≤ i) (hin : i < n) : (written init f n s)[i]? = some init := by
  induction s with
  | zero => exact List.getElem?_replicate_of_lt hin
  | succ s ih =>
    have hmod : s % n = s := Nat.mod_eq_of_lt (by omega)
    rw [written, List.getElem?_set_ne (by omega)]
    exact ih (by omega)

end RingBuffer
