import LidoOracle.Lib.Tally

/-! Requests served from a budget per key, in their order. A request served on
its own account may get the whole budget of its key; served in turn, it may get
what the requests before it left. The two agree as long as the requests of a key
fit in its budget. -/

namespace Grants

variable {α κ : Type*} [DecidableEq κ] (key : α → κ) (amount : α → ℕ) (budget : κ → ℕ)

/-- Serve a request as if it were the first of its key. -/
def serveAlone (granted : List (κ × ℕ)) (a : α) : List (κ × ℕ) :=
  if 0 < budget (key a) then granted ++ [(key a, min (budget (key a)) (amount a))] else granted

/-- Serve a request from what is left of its key's budget. -/
def serveInTurn (granted : List (κ × ℕ)) (a : α) : List (κ × ℕ) :=
  let left := budget (key a) - Dict.amountAt granted (key a)
  if 0 < left then granted ++ [(key a, min left (amount a))] else granted

/-- What the requests ask for under one key -/
def requested (requests : List α) (k : κ) : ℕ := Dict.amountAt (requests.map fun a => (key a, amount a)) k

/-- Each request comes to an untouched budget, or is covered by the rest of one. -/
def Fits (requests : List α) : Prop :=
  ∀ earlier a, earlier ++ [a] <+: requests → 0 < budget (key a) →
    requested key amount earlier (key a) = 0 ∨
      requested key amount earlier (key a) < budget (key a) ∧
        requested key amount earlier (key a) + amount a ≤ budget (key a)

variable {key amount budget}

theorem requested_concat (requests : List α) (a : α) (k : κ) :
    requested key amount (requests ++ [a]) k = requested key amount requests k + if key a = k then amount a else 0 := by
  unfold requested
  rw [List.map_append, Dict.amountAt_append]
  rfl

/-- In turn, a key is granted what it asks for, up to its budget. -/
theorem amountAt_inTurn (requests : List α) (k : κ) :
    Dict.amountAt (requests.foldl (serveInTurn key amount budget) []) k =
      min (budget k) (requested key amount requests k) := by
  induction requests using List.reverseRecOn with
  | nil => exact (Nat.min_zero _).symm
  | append_singleton requests a ih =>
    rw [List.foldl_append, List.foldl_cons, List.foldl_nil, requested_concat]
    generalize requests.foldl (serveInTurn key amount budget) [] = granted at ih
    unfold serveInTurn
    by_cases hk : key a = k
    · rw [hk, ih, if_pos rfl]
      dsimp only
      split_ifs with hleft
      · rw [Dict.amountAt_append, ih, Dict.amountAt_singleton, if_pos rfl]
        omega
      · rw [ih]
        omega
    · rw [if_neg hk, Nat.add_zero, ← ih]
      dsimp only
      split_ifs with hleft
      · rw [Dict.amountAt_append, Dict.amountAt_singleton, if_neg hk, Nat.add_zero]
      · rfl

theorem amountAt_inTurn_le (requests : List α) (k : κ) :
    Dict.amountAt (requests.foldl (serveInTurn key amount budget) []) k ≤ budget k :=
  (amountAt_inTurn requests k).trans_le (Nat.min_le_left _ _)

theorem budget_pos_of_mem {requests : List α} {grant : κ × ℕ}
    (h : grant ∈ requests.foldl (serveInTurn key amount budget) []) : 0 < budget grant.1 := by
  induction requests using List.reverseRecOn with
  | nil => exact absurd h List.not_mem_nil
  | append_singleton requests a ih =>
    rw [List.foldl_append, List.foldl_cons, List.foldl_nil] at h
    unfold serveInTurn at h
    dsimp only at h
    split_ifs at h with hleft
    · rcases List.mem_append.mp h with hmem | hlast
      · exact ih hmem
      · rw [List.mem_singleton.mp hlast]
        exact hleft.trans_le (Nat.sub_le _ _)
    · exact ih h

theorem length_inTurn_le (requests : List α) :
    (requests.foldl (serveInTurn key amount budget) []).length ≤
      (requests.foldl (serveAlone key amount budget) []).length := by
  induction requests using List.reverseRecOn with
  | nil => exact le_rfl
  | append_singleton requests a ih =>
    simp only [List.foldl_append, List.foldl_cons, List.foldl_nil]
    generalize requests.foldl (serveInTurn key amount budget) [] = inTurn at ih
    generalize requests.foldl (serveAlone key amount budget) [] = alone at ih
    unfold serveInTurn serveAlone
    dsimp only
    split_ifs with hleft hbudget
    · rw [List.length_append, List.length_append]
      exact Nat.add_le_add_right ih 1
    · exact absurd (hleft.trans_le (Nat.sub_le _ _)) hbudget
    · rw [List.length_append]
      exact ih.trans (Nat.le_add_right _ _)
    · exact ih

theorem fits_concat {requests : List α} {a : α} : Fits key amount budget (requests ++ [a]) ↔
    Fits key amount budget requests ∧ (0 < budget (key a) →
      requested key amount requests (key a) = 0 ∨
        requested key amount requests (key a) < budget (key a) ∧
          requested key amount requests (key a) + amount a ≤ budget (key a)) := by
  refine ⟨fun h => ⟨fun earlier b hb => h earlier b (hb.trans (List.prefix_append _ _)),
    h requests a (List.prefix_refl _)⟩, ?_⟩
  · rintro ⟨hrequests, ha⟩ earlier b hb
    rcases List.prefix_concat_iff.mp hb with heq | hprefix
    · obtain ⟨rfl, hlast⟩ := List.append_inj' heq rfl
      obtain rfl : b = a := List.singleton_inj.mp hlast
      exact ha
    · exact hrequests earlier b hprefix

/-- The last request gets the same both ways: it is granted, and its budget is untouched
or covers it. -/
theorem last_grant_iff {b s r : ℕ} (hb : 0 < b) :
    (0 < b - min b s ∧ min (b - min b s) r = min b r) ↔ s = 0 ∨ s < b ∧ s + r ≤ b := by
  omega

/-- Serving each request on its own account is right exactly when the requests fit. -/
theorem alone_eq_inTurn_iff (requests : List α) :
    requests.foldl (serveAlone key amount budget) [] = requests.foldl (serveInTurn key amount budget) [] ↔
      Fits key amount budget requests := by
  induction requests using List.reverseRecOn with
  | nil =>
    refine ⟨fun _ earlier a h => ?_, fun _ => rfl⟩
    exact absurd (List.prefix_nil.mp h) (by simp)
  | append_singleton requests a ih =>
    have hturn := @amountAt_inTurn α κ _ key amount budget requests (key a)
    have hlength := @length_inTurn_le α κ _ key amount budget requests
    rw [fits_concat, ← ih]
    simp only [List.foldl_append, List.foldl_cons, List.foldl_nil]
    generalize requests.foldl (serveInTurn key amount budget) [] = inTurn at hturn hlength
    generalize requests.foldl (serveAlone key amount budget) [] = alone at hlength
    unfold serveAlone serveInTurn
    rw [hturn]
    dsimp only
    by_cases hbudget : 0 < budget (key a)
    · rw [if_pos hbudget, ← last_grant_iff hbudget]
      split_ifs with hleft
      · refine ⟨fun h => ?_, fun ⟨hsame, hlast⟩ => ?_⟩
        · obtain ⟨hsame, hlast⟩ := List.append_inj' h rfl
          exact ⟨hsame, fun _ => ⟨hleft, (congrArg Prod.snd (List.singleton_inj.mp hlast)).symm⟩⟩
        · rw [hsame, (hlast hbudget).2]
      · refine ⟨fun h => ?_, fun ⟨_, hlast⟩ => absurd (hlast hbudget).1 hleft⟩
        -- a request refused in turn leaves the list too short
        have hlonger := congrArg List.length h
        rw [List.length_append, List.length_singleton] at hlonger
        omega
    · have hnone : ¬ 0 < budget (key a) - min (budget (key a)) (requested key amount requests (key a)) := by omega
      rw [if_neg hbudget, if_neg hnone]
      exact ⟨fun h => ⟨h, fun hpos => absurd hpos hbudget⟩, And.left⟩

end Grants
