import Mathlib

/-! A list of counters of which some are reset to zero. -/

namespace Cells

variable {cells indexes : List ℕ}

def reset (cells indexes : List ℕ) : List ℕ := indexes.foldl (fun cells i => cells.set i 0) cells

/-- The counters that are not reset -/
def others (cells indexes : List ℕ) : List ℕ :=
  (cells.zipIdx.filter fun e => e.2 ∉ indexes).map Prod.fst

theorem reset_append (cells before after : List ℕ) :
    reset cells (before ++ after) = reset (reset cells before) after :=
  List.foldl_append

theorem getElem?_reset (cells indexes : List ℕ) (i : ℕ) :
    (reset cells indexes)[i]? = if i ∈ indexes then cells[i]?.map fun _ => 0 else cells[i]? := by
  induction indexes generalizing cells with
  | nil => rfl
  | cons j indexes ih =>
    change (reset (cells.set j 0) indexes)[i]? = _
    rw [ih, List.getElem?_set]
    by_cases hij : j = i
    · subst hij
      by_cases hlt : j < cells.length
      · simp [hlt]
      · simp [hlt]
    · simp [hij, Ne.symm hij]

theorem reset_eq (cells indexes : List ℕ) :
    reset cells indexes = cells.zipIdx.map fun e => if e.2 ∈ indexes then 0 else e.1 := by
  refine List.ext_getElem? fun i => ?_
  rw [getElem?_reset, List.getElem?_map, List.getElem?_zipIdx]
  cases cells[i]? with
  | none => simp
  | some c => split_ifs with h <;> simp [h]

/-- Leaving counters out of a sum is resetting them. -/
theorem sum_others (cells indexes : List ℕ) : (others cells indexes).sum = (reset cells indexes).sum := by
  rw [reset_eq, others]
  induction cells.zipIdx with
  | nil => rfl
  | cons e es ih =>
    by_cases h : e.2 ∈ indexes
    · rw [List.filter_cons_of_neg (by simpa using h), ih, List.map_cons, if_pos h, List.sum_cons, zero_add]
    · rw [List.filter_cons_of_pos (by simpa using h), List.map_cons, List.sum_cons, ih, List.map_cons,
        if_neg h, List.sum_cons]

theorem sum_set_zero (cells : List ℕ) (i : ℕ) : (cells.set i 0).sum + cells.getD i 0 = cells.sum := by
  induction cells generalizing i with
  | nil => rfl
  | cons c cells ih =>
    cases i with
    | zero => simp [add_comm]
    | succ i => rw [List.set_cons_succ, List.sum_cons, List.getD_cons_succ, add_assoc, ih, List.sum_cons]

/-- One more reset takes its counter out of the sum. -/
theorem sum_reset_snoc {i : ℕ} (h : i ∉ indexes) :
    (reset cells (indexes ++ [i])).sum + cells.getD i 0 = (reset cells indexes).sum := by
  have hcell : (reset cells indexes).getD i 0 = cells.getD i 0 := by
    rw [List.getD_eq_getElem?_getD, getElem?_reset, if_neg h, List.getD_eq_getElem?_getD]
  rw [reset_append, ← hcell]
  exact sum_set_zero _ i

theorem sum_reset_all (h : ∀ i < cells.length, i ∈ indexes) : (reset cells indexes).sum = 0 := by
  rw [reset_eq, List.sum_eq_zero_iff]
  refine List.forall_mem_map.mpr fun e he => if_pos (h e.2 ?_)
  have := List.snd_lt_of_mem_zipIdx he
  omega

end Cells
