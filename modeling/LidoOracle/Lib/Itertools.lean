import LidoOracle.Lib.Python

/-! Python's `groupby` and `batched`: both only put brackets into a list. -/

namespace Itertools

variable {α : Type} {κ : Type} [DecidableEq κ]

/-- Runs of neighbours with one key -/
def groupby (key : α → κ) : List α → List (κ × List α)
  | [] => []
  | a :: l =>
    match groupby key l with
    | [] => [(key a, [a])]
    | (k, g) :: rest => if key a = k then (k, a :: g) :: rest else (key a, [a]) :: (k, g) :: rest

/-- Consecutive batches of `n`, the last one possibly shorter; `passes` bounds their number. -/
def batchesAux (n : ℕ) : ℕ → List α → List (List α)
  | 0, _ => []
  | _ + 1, [] => []
  | passes + 1, a :: l => (a :: l).take n :: batchesAux n passes ((a :: l).drop n)

def batches (n : ℕ) (l : List α) : List (List α) := batchesAux n l.length l

/-- `batched(l, n)` -/
def batched {χ : Type} (l : List α) (n : ℕ) : Py χ (List (List α)) :=
  if n < 1 then .error .valueError else .ok (batches n l)

variable {key : α → κ} {l : List α} {n : ℕ}

/-- The brackets of `groupby` come off again. -/
theorem groupby_flatten (key : α → κ) (l : List α) : (groupby key l).flatMap Prod.snd = l := by
  induction l with
  | nil => rfl
  | cons a l ih =>
    rw [groupby]
    split
    · rename_i h
      rw [h] at ih
      rw [← ih]
      rfl
    · rename_i k g rest h
      rw [h] at ih
      split_ifs
      · rw [List.flatMap_cons, List.cons_append, ← ih]
        rfl
      · rw [List.flatMap_cons, ih]
        rfl

theorem groupby_key {k : κ} {g : List α} (h : (k, g) ∈ groupby key l) : ∀ a ∈ g, key a = k := by
  induction l generalizing k g with
  | nil => exact absurd h List.not_mem_nil
  | cons a l ih =>
    rw [groupby] at h
    split at h
    · rw [List.mem_singleton] at h
      cases h
      simp
    · rename_i k' g' rest hl
      have hrest : ∀ {k g}, (k, g) ∈ (k', g') :: rest → ∀ a ∈ g, key a = k := fun hmem =>
        ih (hl ▸ hmem)
      split_ifs at h with hk
      · rcases List.mem_cons.mp h with h | h
        · cases h
          exact List.forall_mem_cons.mpr ⟨hk, hrest List.mem_cons_self⟩
        · exact hrest (List.mem_cons_of_mem _ h)
      · rcases List.mem_cons.mp h with h | h
        · cases h
          simp
        · exact hrest h

theorem batchesAux_flatten (hn : 0 < n) {passes : ℕ} (h : l.length ≤ passes) :
    (batchesAux n passes l).flatten = l := by
  induction passes generalizing l with
  | zero =>
    rw [List.length_eq_zero_iff.mp (Nat.le_zero.mp h)]
    rfl
  | succ passes ih =>
    cases l with
    | nil => rfl
    | cons a l =>
      rw [batchesAux, List.flatten_cons, ih, List.take_append_drop]
      rw [List.length_drop]
      omega

/-- The brackets of `batched` come off again. -/
theorem batches_flatten (hn : 0 < n) (l : List α) : (batches n l).flatten = l :=
  batchesAux_flatten hn le_rfl

theorem length_of_mem_batches {b : List α} (h : b ∈ batches n l) : b.length ≤ n := by
  unfold batches at h
  generalize l.length = passes at h
  induction passes generalizing l with
  | zero => exact absurd h List.not_mem_nil
  | succ passes ih =>
    cases l with
    | nil => exact absurd h List.not_mem_nil
    | cons a l =>
      rcases List.mem_cons.mp h with rfl | h
      · exact List.length_take_le _ _
      · exact ih h

theorem ne_nil_of_mem_batches (hn : 0 < n) {b : List α} (h : b ∈ batches n l) : b ≠ [] := by
  unfold batches at h
  generalize l.length = passes at h
  induction passes generalizing l with
  | zero => exact absurd h List.not_mem_nil
  | succ passes ih =>
    cases l with
    | nil => exact absurd h List.not_mem_nil
    | cons a l =>
      rcases List.mem_cons.mp h with rfl | h
      · obtain ⟨m, rfl⟩ := Nat.exists_eq_succ_of_ne_zero hn.ne'
        exact List.cons_ne_nil _ _
      · exact ih h

theorem batches_map {β : Type} (f : α → β) (n : ℕ) (l : List α) :
    batches n (l.map f) = (batches n l).map (List.map f) := by
  unfold batches
  rw [List.length_map]
  generalize l.length = passes
  induction passes generalizing l with
  | zero => rfl
  | succ passes ih =>
    cases l with
    | nil => rfl
    | cons a l =>
      simp only [List.map_cons, batchesAux]
      rw [← List.map_cons, ← List.map_take, ← List.map_drop, ih]

/-- A batch of consecutive numbers is a run of consecutive numbers. -/
theorem mem_batches_range' {a m : ℕ} {b : List ℕ} (hn : 0 < n) (h : b ∈ batches n (List.range' a m)) :
    ∃ a' k, b = List.range' a' k ∧ a ≤ a' ∧ a' + k ≤ a + m ∧ 0 < k ∧ k ≤ n := by
  unfold batches at h
  generalize (List.range' a m).length = passes at h
  induction passes generalizing a m with
  | zero => exact absurd h List.not_mem_nil
  | succ passes ih =>
    cases m with
    | zero => exact absurd h List.not_mem_nil
    | succ m =>
      rw [List.range'_succ] at h
      simp only [batchesAux] at h
      rw [← List.range'_succ] at h
      rcases List.mem_cons.mp h with rfl | h
      · rcases Nat.le_total (m + 1) n with hle | hle
        · exact ⟨a, m + 1, List.take_range'_of_length_le hle, Nat.le_refl a, Nat.le_refl _, Nat.succ_pos m, hle⟩
        · exact ⟨a, n, List.take_range'_of_length_ge hle, Nat.le_refl a, by omega, hn, Nat.le_refl n⟩
      · rw [List.drop_range'] at h
        obtain ⟨a', k, hb, hle, hend, hpos, hk⟩ := ih h
        exact ⟨a', k, hb, by omega, by omega, hpos, hk⟩

/-- Consecutive numbers whose count is a multiple of the batch length come in whole batches. -/
theorem batches_range'_mul (hn : 0 < n) (a count : ℕ) :
    batches n (List.range' a (count * n)) = (List.range count).map fun i => List.range' (a + i * n) n := by
  have hgen : ∀ passes count a, count * n ≤ passes →
      batchesAux n passes (List.range' a (count * n)) = (List.range count).map fun i => List.range' (a + i * n) n := by
    intro passes
    induction passes with
    | zero =>
      intro count a h
      have hzero : count = 0 := (Nat.mul_eq_zero.mp (Nat.le_zero.mp h)).resolve_right hn.ne'
      rw [hzero]
      rfl
    | succ passes ih =>
      intro count a h
      cases count with
      | zero =>
        rw [Nat.zero_mul]
        rfl
      | succ count =>
        rw [Nat.succ_mul] at h ⊢
        obtain ⟨m, hm⟩ := Nat.exists_eq_succ_of_ne_zero (show count * n + n ≠ 0 by omega)
        rw [hm, List.range'_succ]
        simp only [batchesAux]
        rw [← List.range'_succ, ← Nat.succ_eq_add_one, ← hm, List.take_range'_of_length_ge (by omega), List.drop_range',
          Nat.add_sub_cancel, Nat.mul_one, ih count (a + n) (by omega), List.range_succ_eq_map, List.map_cons,
          List.map_map, Nat.zero_mul, Nat.add_zero]
        refine congrArg (List.cons _) (List.map_congr_left fun i _ => ?_)
        rw [Function.comp_apply, Nat.succ_mul, Nat.add_right_comm, Nat.add_assoc a]
  unfold batches
  rw [List.length_range']
  exact hgen _ count a le_rfl

theorem batched_eq_ok {χ : Type} {r : List (List α)} :
    (batched l n : Py χ _) = .ok r ↔ 0 < n ∧ r = batches n l := by
  unfold batched
  split_ifs with h
  · have hn : ¬ 0 < n := by omega
    simp [hn]
  · have hn : 0 < n := by omega
    simp [hn, eq_comm]

end Itertools
