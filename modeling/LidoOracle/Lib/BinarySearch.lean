import LidoOracle.Lib.ExceptRun

/-! The first number of a range at which a test turns true, by halving the range.
The test may fail. What was tested is given beside what was found. -/

namespace BinarySearch

variable {ε : Type}

def firstTrue (test : ℤ → Except ε Bool) (start stop : ℤ) : Except ε (ℤ × List ℤ) :=
  if _ : start < stop then do
    let mid := (stop + start) / 2
    let found ← test mid
    let (first, probes) ← (if found then firstTrue test start mid else firstTrue test (mid + 1) stop)
    return (first, mid :: probes)
  else return (start, [])
termination_by (stop - start).toNat
decreasing_by all_goals omega

/-- The numbers a search comes by when its test is true from a threshold on -/
def visits (threshold start stop : ℤ) : List ℤ :=
  if _ : start < stop then
    let mid := (stop + start) / 2
    mid :: (if threshold ≤ mid then visits threshold start mid else visits threshold (mid + 1) stop)
  else []
termination_by (stop - start).toNat
decreasing_by all_goals omega

variable {test : ℤ → Except ε Bool} {threshold start stop : ℤ}

/-- One step of the search, and what it leaves -/
theorem firstTrue_step (h : start < stop) : firstTrue test start stop =
    (test ((stop + start) / 2) >>= fun found =>
      (if found then firstTrue test start ((stop + start) / 2)
        else firstTrue test ((stop + start) / 2 + 1) stop) >>= fun rest =>
          .ok (rest.1, (stop + start) / 2 :: rest.2)) := by
  rw [firstTrue, dif_pos h]
  rfl

theorem visits_step (h : start < stop) : visits threshold start stop =
    (stop + start) / 2 :: (if threshold ≤ (stop + start) / 2 then visits threshold start ((stop + start) / 2)
      else visits threshold ((stop + start) / 2 + 1) stop) := by
  rw [visits, dif_pos h]

theorem firstTrue_of_le (h : stop ≤ start) : firstTrue test start stop = .ok (start, []) := by
  rw [firstTrue, dif_neg (not_lt.mpr h)]
  rfl

theorem visits_of_le (h : stop ≤ start) : visits threshold start stop = [] := by
  rw [visits, dif_neg (not_lt.mpr h)]

/-- A search stays within its range. -/
theorem mem_visits {i : ℤ} (h : i ∈ visits threshold start stop) : start ≤ i ∧ i < stop := by
  induction hsize : (stop - start).toNat using Nat.strong_induction_on generalizing start stop with
  | _ size ih =>
    rcases le_or_gt stop start with hle | hlt
    · rw [visits_of_le hle] at h
      exact absurd h List.not_mem_nil
    · rw [visits_step hlt, List.mem_cons] at h
      have hmid : start ≤ (stop + start) / 2 ∧ (stop + start) / 2 < stop := by omega
      generalize (stop + start) / 2 = mid at h hmid
      rcases h with rfl | h
      · exact hmid
      · split_ifs at h
        · have := ih (mid - start).toNat (by omega) h rfl
          omega
        · have := ih (stop - (mid + 1)).toNat (by omega) h rfl
          omega

/-- A test that is true from a threshold on, where the search comes by: it ends at the threshold, or at the end of
the range that is closest to it. -/
theorem firstTrue_threshold (htest : ∀ i ∈ visits threshold start stop, test i = .ok (decide (threshold ≤ i))) :
    firstTrue test start stop = .ok (max start (min threshold stop), visits threshold start stop) := by
  induction hsize : (stop - start).toNat using Nat.strong_induction_on generalizing start stop with
  | _ size ih =>
    rcases le_or_gt stop start with hle | hlt
    · have hfirst : max start (min threshold stop) = start := by omega
      rw [firstTrue_of_le hle, visits_of_le hle, hfirst]
    · rw [visits_step hlt, List.forall_mem_cons] at htest
      rw [firstTrue_step hlt, visits_step hlt, htest.1]
      have hmid : start ≤ (stop + start) / 2 ∧ (stop + start) / 2 < stop := by omega
      have hrest := htest.2
      clear htest
      generalize (stop + start) / 2 = mid at hrest hmid
      by_cases hfound : threshold ≤ mid
      · -- true at the middle: what is left ends there
        rw [if_pos hfound] at hrest
        have hfirst : max start (min threshold mid) = max start (min threshold stop) := by omega
        rw [Except.ok_bind, if_pos (decide_eq_true hfound), ih (mid - start).toNat (by omega) hrest rfl, Except.ok_bind,
          hfirst, if_pos hfound]
      · rw [if_neg hfound] at hrest
        have hfirst : max (mid + 1) (min threshold stop) = max start (min threshold stop) := by omega
        rw [Except.ok_bind, if_neg (by simpa using hfound), ih (stop - (mid + 1)).toNat (by omega) hrest rfl,
          Except.ok_bind, hfirst, if_neg hfound]

/-- A test that fails somewhere a search comes by fails the search. -/
theorem firstTrue_error {error : ε}
    (htest : ∀ i ∈ visits threshold start stop, test i = .ok (decide (threshold ≤ i)) ∨ test i = .error error)
    (hfail : ∃ i ∈ visits threshold start stop, test i = .error error) :
    firstTrue test start stop = .error error := by
  induction hsize : (stop - start).toNat using Nat.strong_induction_on generalizing start stop with
  | _ size ih =>
    obtain ⟨i, hi, hfail⟩ := hfail
    rcases le_or_gt stop start with hle | hlt
    · rw [visits_of_le hle] at hi
      exact absurd hi List.not_mem_nil
    · rw [visits_step hlt, List.forall_mem_cons] at htest
      rw [visits_step hlt, List.mem_cons] at hi
      rw [firstTrue_step hlt]
      have hmid : start ≤ (stop + start) / 2 ∧ (stop + start) / 2 < stop := by omega
      obtain ⟨hfirst, hrest⟩ := htest
      generalize (stop + start) / 2 = mid at hi hmid hfirst hrest ⊢
      rcases hfirst with hanswer | herror
      · have hlater : i ∈ if threshold ≤ mid then visits threshold start mid else visits threshold (mid + 1) stop := by
          refine hi.resolve_left fun heq => ?_
          rw [heq, hanswer] at hfail
          cases hfail
        rw [hanswer, Except.ok_bind]
        by_cases hfound : threshold ≤ mid
        · rw [if_pos hfound] at hrest hlater
          rw [if_pos (decide_eq_true hfound), ih (mid - start).toNat (by omega) hrest ⟨i, hlater, hfail⟩ rfl]
          rfl
        · rw [if_neg hfound] at hrest hlater
          rw [if_neg (by simpa using hfound), ih (stop - (mid + 1)).toNat (by omega) hrest ⟨i, hlater, hfail⟩ rfl]
          rfl
      · rw [herror]
        rfl

end BinarySearch
