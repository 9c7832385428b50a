import LidoOracle.Ejector.ValidatorsToEject

/-! The balance expected to cover the withdrawal queue. Three sums over the
validators add to it: what is withdrawable by the predicted epoch, what has been
asked to exit, and what the report is about to eject. -/

namespace LidoOracle

namespace Ejector

open ValidatorExitIterator

/-- What the other services and contracts report at the reference block -/
structure ElBalanceInputs where
  refEpoch : EpochNumber
  totalElBalance : ℤ
  sweepDelayInEpochs : ℕ
  rewardsPerEpoch : ℤ
  predictedWithdrawableEpoch : Gwei → EpochNumber
  depositLockAmount : ℤ → ℤ

/-- A validator's part in the balance that is withdrawable by an epoch -/
def withdrawablePart (onEpoch : EpochNumber) (v : LidoValidator) : Gwei :=
  if v.consolidatingAsSource.isSome then 0
  else if isFullyWithdrawableValidator v.validator v.balance onEpoch then
    getPredictableFullInboundBalance v
  else getPredictableInboundSweep v

def getWithdrawableLidoValidatorsBalance (st : StakingState) (onEpoch : EpochNumber) : ℤ :=
  gweiToWei (st.activeLidoValidators.map (withdrawablePart onEpoch)).sum

def getPredictedElBalance (st : StakingState) (inputs : ElBalanceInputs) (toExit : Gwei) :
    Iter ℤ := do
  let validatorsGoingToExit ← st.getRecentlyRequestedButNotExitingValidators
  let goingToWithdrawBalance := (validatorsGoingToExit.map getPredictableInboundBalance).sum
  let withdrawalEpoch := inputs.predictedWithdrawableEpoch (goingToWithdrawBalance + toExit)
  let timeToLastWithdrawalInEpoch : ℤ := withdrawalEpoch + inputs.sweepDelayInEpochs - inputs.refEpoch
  let futureRewards := timeToLastWithdrawalInEpoch * inputs.rewardsPerEpoch
  let futureWithdrawals := getWithdrawableLidoValidatorsBalance st withdrawalEpoch
  return futureRewards + futureWithdrawals + inputs.totalElBalance +
    gweiToWei goingToWithdrawBalance - inputs.depositLockAmount timeToLastWithdrawalInEpoch

/-- One validator's part in a sum over a list of validators -/
def contribution (validators : List LidoValidator) (f : LidoValidator → Gwei) (v : LidoValidator) :
    Gwei :=
  ((validators.filter fun u => u = v).map f).sum

/-- One validator's part in future withdrawals, in the balance going to withdraw and in
the balance to eject -/
def totalContribution (st : StakingState) (requested : List LidoValidator)
    (selected : List (NodeOperatorGlobalIndex × LidoValidator)) (onEpoch : EpochNumber)
    (v : LidoValidator) : Gwei :=
  contribution st.activeLidoValidators (withdrawablePart onEpoch) v +
    contribution requested getPredictableInboundBalance v +
    contribution (selected.map Prod.snd) getPredictableInboundBalance v

/-- Some recent exit request names the validator. -/
def IsRequested (st : StakingState) (v : LidoValidator) : Prop :=
  ∃ gid, st.gidOf v = some gid ∧ v.index ∈ st.requestedOf gid

section Contribution

variable {validators : List LidoValidator} {f : LidoValidator → Gwei} {v : LidoValidator}

theorem contribution_of_mem (hnd : validators.Nodup) (h : v ∈ validators) :
    contribution validators f v = f v := by
  have hone : validators.filter (fun u => u = v) = [v] := by
    have hcount := List.count_eq_one_of_mem hnd h
    have hfilter := List.filter_eq v (l := validators)
    rw [hcount] at hfilter
    exact hfilter
  rw [contribution, hone]
  simp

theorem contribution_of_not_mem (h : v ∉ validators) : contribution validators f v = 0 := by
  have hnil : validators.filter (fun u => u = v) = [] := by
    refine List.filter_eq_nil_iff.mpr fun u hu heq => h ?_
    rw [← of_decide_eq_true heq]
    exact hu
  rw [contribution, hnil]
  rfl

/-- The parts of the validators of a set make up every sum over a list of them. -/
theorem sum_contribution {active : List LidoValidator} (hnd : active.Nodup)
    (hsub : ∀ u ∈ validators, u ∈ active) :
    (active.map (contribution validators f)).sum = (validators.map f).sum := by
  induction validators with
  | nil =>
    have hzero : active.map (contribution [] f) = active.map fun _ => 0 := rfl
    rw [hzero]
    simp
  | cons u validators ih =>
    rw [List.forall_mem_cons] at hsub
    have hsplit : ∀ v, contribution (u :: validators) f v =
        (if v = u then f u else 0) + contribution validators f v := by
      intro v
      unfold contribution
      by_cases huv : u = v
      · simp [huv]
      · simp [huv, Ne.symm huv]
    have hone : (active.map fun v => if v = u then f u else 0).sum = f u := by
      have hsingle : (fun v => if v = u then f u else 0) = (Pi.single u (f u) : LidoValidator → Gwei) :=
        funext fun v => (Pi.single_apply u (f u) v).symm
      rw [hsingle]
      exact sum_map_single_of_mem hnd hsub.1 (f u)
    rw [List.map_congr_left fun v _ => hsplit v, List.sum_map_add, hone, ih hsub.2, List.map_cons, List.sum_cons]

end Contribution

section Requested

variable {st : StakingState} {requested : List LidoValidator}

/-- Every request in the window names an operator. -/
theorem isOperator_of_requested {χ : Type}
    {indexes : Dict NodeOperatorGlobalIndex (Finset ValidatorIndex)}
    (h : (st.getRecentlyRequestedToExitValidatorsByNodeOperator : Py χ _) = .ok indexes)
    {gid : NodeOperatorGlobalIndex} {index : ValidatorIndex} (hreq : index ∈ st.requestedOf gid) :
    st.IsOperator gid := by
  obtain ⟨event, hevent, hgid, -⟩ := StakingState.mem_requestedOf.mp hreq
  obtain ⟨pre, post, hsplit⟩ := List.append_of_mem hevent
  unfold StakingState.getRecentlyRequestedToExitValidatorsByNodeOperator at h
  rw [hsplit] at h
  obtain ⟨d, hpre, h⟩ := ExceptRun.foldlM_append_ok.mp h
  obtain ⟨d', hstep, -⟩ := ExceptRun.foldlM_cons_ok.mp h
  have hkey := (Py.updateItem_eq_ok.mp hstep).1
  rw [hgid] at hkey
  -- the window up to this request files under the same operators
  exact (@StakingState.mem_recentlyRequested χ { st with validatorExitRequests := pre } gid d hpre).mp hkey

/-- The service returns, once each, the validators asked to exit that are still staying. -/
theorem requestedButNotExiting_ok (hindex : (st.activeLidoValidators.map (·.index)).Nodup)
    (h : (st.getRecentlyRequestedButNotExitingValidators : Iter _) = .ok requested) :
    requested.Nodup ∧ ∀ v, v ∈ requested ↔ v ∈ st.activeLidoValidators ∧ IsRequested st v ∧
      isOnExit v.toValidator = false ∧ v.consolidatingAsSource = none := by
  obtain ⟨validators, hval, h⟩ := Except.bind_eq_ok.mp h
  obtain ⟨indexes, hidx, h⟩ := Except.bind_eq_ok.mp h
  have hfiled : ∀ e ∈ validators.entries, st.IsOperator e.1 ∧ e.2 = st.validatorsOf e.1 := by
    intro e he
    have hop := (StakingState.mem_lidoValidators hval).mp (Dict.mem_of_mem_entries he)
    refine ⟨hop, ?_⟩
    have hget := Dict.get?_eq_some_iff.mpr (show (e.1, e.2) ∈ validators.entries from he)
    rw [StakingState.lidoValidators_get? hval hop, Option.some.injEq] at hget
    exact hget.symm
  let keep (gid : NodeOperatorGlobalIndex) (v : LidoValidator) : Bool :=
    !isOnExit v.toValidator && (decide (v.index ∈ st.requestedOf gid) && v.consolidatingAsSource.isNone)
  have hfilter : ∀ e ∈ validators.entries,
      Py.filterM (StakingState.isValidatorRecentlyRequestedButNotExiting indexes e.1) e.2 =
        (.ok (e.2.filter (keep e.1)) : Iter _) := by
    intro e he
    refine Py.filterM_of_ok fun v _ => ?_
    unfold StakingState.isValidatorRecentlyRequestedButNotExiting
    have hitem : (Py.getItem indexes e.1 : Iter _) = .ok (st.requestedOf e.1) :=
      Py.getItem_eq_ok.mpr (StakingState.recentlyRequested_get? hidx (hfiled e he).1)
    by_cases hexit : isOnExit v.toValidator = true
    · simp [keep, hexit, pure, Except.pure]
    · simp [keep, hexit, hitem, pure, Except.pure]
  rw [ExceptRun.mapM_of_ok hfilter, Except.ok_bind, Except.pure_eq_ok, ← List.flatMap_def] at h
  have hmem : ∀ v, v ∈ requested ↔ ∃ gid, st.IsOperator gid ∧ v ∈ st.validatorsOf gid ∧
      keep gid v = true := by
    intro v
    rw [← h, List.mem_flatMap]
    constructor
    · rintro ⟨e, he, hv⟩
      obtain ⟨hv, hkeep⟩ := List.mem_filter.mp hv
      exact ⟨e.1, (hfiled e he).1, (hfiled e he).2 ▸ hv, hkeep⟩
    · rintro ⟨gid, hop, hv, hkeep⟩
      have hget := Dict.get?_eq_some_iff.mp (StakingState.lidoValidators_get? hval hop)
      exact ⟨(gid, st.validatorsOf gid), hget, List.mem_filter.mpr ⟨hv, hkeep⟩⟩
  constructor
  · have hnodup := StakingState.filed_nodup hindex
      (d := validators.mapKV fun gid vs => vs.filter (keep gid)) (fun e he v hv => ?_) fun e he => ?_
    · rw [Dict.entries_mapKV, List.flatMap_map] at hnodup
      rw [← h]
      exact List.Nodup.of_map _ hnodup
    · rw [Dict.entries_mapKV] at he
      obtain ⟨e₀, he₀, rfl⟩ := List.mem_map.mp he
      exact (hfiled e₀ he₀).2 ▸ (List.mem_filter.mp hv).1
    · rw [Dict.entries_mapKV] at he
      obtain ⟨e₀, he₀, rfl⟩ := List.mem_map.mp he
      rw [(hfiled e₀ he₀).2]
      exact (StakingState.validatorsOf_nodup hindex).sublist (List.filter_sublist.map _)
  · intro v
    rw [hmem]
    constructor
    · rintro ⟨gid, -, hv, hkeep⟩
      obtain ⟨hactive, hgid⟩ := StakingState.mem_validatorsOf.mp hv
      simp only [keep, Bool.and_eq_true, Bool.not_eq_true', decide_eq_true_iff,
        Option.isNone_iff_eq_none] at hkeep
      exact ⟨hactive, ⟨gid, hgid, hkeep.2.1⟩, hkeep.1, hkeep.2.2⟩
    · rintro ⟨hactive, ⟨gid, hgid, hreq⟩, hexit, hsource⟩
      refine ⟨gid, isOperator_of_requested hidx hreq,
        StakingState.mem_validatorsOf.mpr ⟨hactive, hgid⟩, ?_⟩
      simp [keep, hexit, hreq, hsource]

end Requested

section CountedOnce

/-- A validator's balance enters the three sums at most once: all of it when it is about to
leave, else only the excess over its cap. -/
structure CountedOnce (st : StakingState)
    (selected : List (NodeOperatorGlobalIndex × LidoValidator)) (onEpoch : EpochNumber)
    (v : LidoValidator) (total : Gwei) : Prop where
  atMostFull : total ≤ getPredictableFullInboundBalance v
  full : v.consolidatingAsSource = none →
    isFullyWithdrawableValidator v.validator v.balance onEpoch = false →
    (IsRequested st v ∧ isOnExit v.toValidator = false) ∨ v ∈ selected.map Prod.snd →
      total = getPredictableFullInboundBalance v
  sweepOnly : v.consolidatingAsSource = none →
    isFullyWithdrawableValidator v.validator v.balance onEpoch = false →
    ¬ (IsRequested st v ∧ isOnExit v.toValidator = false) → v ∉ selected.map Prod.snd →
      total = getPredictableInboundSweep v
  source : v.consolidatingAsSource ≠ none → total = 0

variable {st : StakingState} {requested : List LidoValidator} {it it' : ValidatorExitIterator}
  {selected : List (NodeOperatorGlobalIndex × LidoValidator)} {onEpoch : EpochNumber}
  {v : LidoValidator}

/-- A validator that stays is not fully withdrawable before the far future. -/
theorem not_fullyWithdrawable
    (hstays : v.validator.exitEpoch = FAR_FUTURE_EPOCH → v.validator.withdrawableEpoch = FAR_FUTURE_EPOCH)
    (hepoch : onEpoch < FAR_FUTURE_EPOCH) (h : isOnExit v.toValidator = false) :
    isFullyWithdrawableValidator v.validator v.balance onEpoch = false := by
  have hexit : v.validator.exitEpoch = FAR_FUTURE_EPOCH := by simpa [isOnExit] using h
  have hlate : ¬ v.validator.withdrawableEpoch ≤ onEpoch := by
    rw [hstays hexit]
    exact not_le.mpr hepoch
  simp [isFullyWithdrawableValidator, hlate]

theorem totalContribution_countedOnce (hindex : (st.activeLidoValidators.map (·.index)).Nodup)
    (hstays : ∀ v ∈ st.activeLidoValidators, v.validator.exitEpoch = FAR_FUTURE_EPOCH →
      v.validator.withdrawableEpoch = FAR_FUTURE_EPOCH)
    (hepoch : onEpoch < FAR_FUTURE_EPOCH)
    (hreq : (st.getRecentlyRequestedButNotExitingValidators : Iter _) = .ok requested)
    (hiter : iter st = .ok it) (htakes : Takes it selected it') (hv : v ∈ st.activeLidoValidators) :
    CountedOnce st selected onEpoch v (totalContribution st requested selected onEpoch v) := by
  obtain ⟨hrnodup, hrmem⟩ := requestedButNotExiting_ok hindex hreq
  have hsafe := safeReport_of_takes hindex hiter htakes
  have hselNodup : (selected.map Prod.snd).Nodup := by
    refine List.Nodup.of_map (fun v : LidoValidator => v.index) ?_
    rw [List.map_map]
    exact hsafe.distinct
  -- a selected validator stays, has not been asked to exit and is no source
  have hsel : v ∈ selected.map Prod.snd → isOnExit v.toValidator = false ∧ ¬ IsRequested st v ∧
      v.consolidatingAsSource = none := by
    intro hmem
    obtain ⟨y, hy, rfl⟩ := List.mem_map.mp hmem
    refine ⟨hsafe.notOnExit y hy, ?_, hsafe.notConsolidating y hy⟩
    rintro ⟨gid, hgid, hindexReq⟩
    rw [(hsafe.active y hy).2, Option.some.injEq] at hgid
    exact hsafe.notRequested y hy (hgid ▸ StakingState.mem_requestedOf.mp hindexReq)
  have hfirst : contribution st.activeLidoValidators (withdrawablePart onEpoch) v =
      withdrawablePart onEpoch v := contribution_of_mem (List.Nodup.of_map _ hindex) hv
  have hcover : getPredictableInboundSweep v + getPredictableInboundBalance v =
      getPredictableFullInboundBalance v := (Nat.add_comm _ _).trans (inboundBalance_add_sweep v)
  unfold totalContribution
  rw [hfirst]
  by_cases hr : v ∈ requested
  · obtain ⟨-, hisreq, hexit, hsource⟩ := (hrmem v).mp hr
    have hnotsel : v ∉ selected.map Prod.snd := fun hmem => (hsel hmem).2.1 hisreq
    have hnot := not_fullyWithdrawable (hstays v hv) hepoch hexit
    rw [contribution_of_mem hrnodup hr, contribution_of_not_mem hnotsel, withdrawablePart]
    simp only [hsource, hnot, Option.isSome_none, Bool.false_eq_true, if_false]
    rw [Nat.add_zero, hcover]
    exact ⟨le_rfl, fun _ _ _ => rfl, fun _ _ hno => absurd ⟨hisreq, hexit⟩ hno,
      fun hne => absurd hsource hne⟩
  · have hleaving : v.consolidatingAsSource = none →
        ¬ (IsRequested st v ∧ isOnExit v.toValidator = false) :=
      fun hsource hboth => hr ((hrmem v).mpr ⟨hv, hboth.1, hboth.2, hsource⟩)
    rw [contribution_of_not_mem hr]
    by_cases hs : v ∈ selected.map Prod.snd
    · obtain ⟨hexit, -, hsource⟩ := hsel hs
      have hnot := not_fullyWithdrawable (hstays v hv) hepoch hexit
      rw [contribution_of_mem hselNodup hs, withdrawablePart]
      simp only [hsource, hnot, Option.isSome_none, Bool.false_eq_true, if_false]
      rw [Nat.add_zero, hcover]
      exact ⟨le_rfl, fun _ _ _ => rfl, fun _ _ _ hno => absurd hs hno,
        fun hne => absurd hsource hne⟩
    · rw [contribution_of_not_mem hs, withdrawablePart, Nat.add_zero]
      have hsweep := getPredictableInboundSweep_le v
      refine ⟨?_, fun hsource _ hin => ?_, fun hsource hnot _ _ => ?_, fun hne => ?_⟩
      · split_ifs
        · exact Nat.zero_le _
        · exact le_rfl
        · exact hsweep
      · exact hin.elim (fun hboth => absurd hboth (hleaving hsource)) fun hmem => absurd hmem hs
      · simp [hsource, hnot]
      · rw [if_pos (Option.isSome_iff_ne_none.mpr hne)]

/-- What is compared with the demand is made up of the validators' parts and of amounts that
belong to none of them. -/
theorem getPredictedElBalance_covers (hindex : (st.activeLidoValidators.map (·.index)).Nodup)
    (hreq : (st.getRecentlyRequestedButNotExitingValidators : Iter _) = .ok requested)
    (hiter : iter st = .ok it) (htakes : Takes it selected it') (inputs : ElBalanceInputs) :
    ∃ onEpoch, ∃ others : ℤ, ∀ toExit,
      toExit = (selected.map fun y => getPredictableInboundBalance y.2).sum →
      onEpoch = inputs.predictedWithdrawableEpoch
        ((requested.map getPredictableInboundBalance).sum + toExit) ∧
      getPredictedElBalance st inputs toExit = .ok (others + gweiToWei
        ((st.activeLidoValidators.map (totalContribution st requested selected onEpoch)).sum) -
          gweiToWei toExit) := by
  set going := (requested.map getPredictableInboundBalance).sum with hgoing
  set toExit := (selected.map fun y => getPredictableInboundBalance y.2).sum with htoExit
  set onEpoch := inputs.predictedWithdrawableEpoch (going + toExit) with honEpoch
  set time : ℤ := onEpoch + inputs.sweepDelayInEpochs - inputs.refEpoch with htime
  refine ⟨onEpoch, time * inputs.rewardsPerEpoch + inputs.totalElBalance -
    inputs.depositLockAmount time, ?_⟩
  rintro _ rfl
  refine ⟨rfl, ?_⟩
  have hactive : st.activeLidoValidators.Nodup := List.Nodup.of_map _ hindex
  have hrequested : ∀ v ∈ requested, v ∈ st.activeLidoValidators := fun v hv =>
    (((requestedButNotExiting_ok hindex hreq).2 v).mp hv).1
  have hselected : ∀ v ∈ selected.map Prod.snd, v ∈ st.activeLidoValidators := by
    intro v hv
    obtain ⟨y, hy, rfl⟩ := List.mem_map.mp hv
    exact ((safeReport_of_takes hindex hiter htakes).active y hy).1
  have hsum : (st.activeLidoValidators.map (totalContribution st requested selected onEpoch)).sum =
      (st.activeLidoValidators.map (withdrawablePart onEpoch)).sum + going + toExit := by
    unfold totalContribution
    rw [List.sum_map_add, List.sum_map_add, sum_contribution hactive fun _ h => h,
      sum_contribution hactive hrequested, sum_contribution hactive hselected, List.map_map]
    rfl
  rw [getPredictedElBalance, hreq, Except.ok_bind, Except.pure_eq_ok]
  change time * inputs.rewardsPerEpoch +
      gweiToWei (st.activeLidoValidators.map (withdrawablePart onEpoch)).sum + inputs.totalElBalance +
        gweiToWei going - inputs.depositLockAmount time = _
  rw [hsum, Nat.cast_add, Nat.cast_add]
  simp only [gweiToWei]
  ring

end CountedOnce

section Samples

/-- The sample state with validator 7 asked to exit -/
def requestedSampleState : StakingState :=
  { sampleState [1, 3] with validatorExitRequests := [⟨1, 0, 7⟩] }

/-- The iterator selects validator 5. It is counted in full, and so is validator 7, which was asked before. -/
theorem totalContribution_countedOnce_sample : ∃ it y it', iter requestedSampleState = .ok it ∧
    it.next = .ok (some y, it') ∧ y.2 = sampleValidator 5 (33 * 10 ^ 9) 1 "b" ∧
    CountedOnce requestedSampleState [y] 1000 y.2
      (totalContribution requestedSampleState [sampleValidator 7 (32 * 10 ^ 9) 0 "a"] [y] 1000 y.2) ∧
    totalContribution requestedSampleState [sampleValidator 7 (32 * 10 ^ 9) 0 "a"] [y] 1000 y.2 = 33 * 10 ^ 9 ∧
    totalContribution requestedSampleState [sampleValidator 7 (32 * 10 ^ 9) 0 "a"] [y] 1000
      (sampleValidator 7 (32 * 10 ^ 9) 0 "a") = 32 * 10 ^ 9 := by
  have hepoch : 1000 < FAR_FUTURE_EPOCH := by decide
  have hreq : (requestedSampleState.getRecentlyRequestedButNotExitingValidators : Iter _) =
      .ok [sampleValidator 7 (32 * 10 ^ 9) 0 "a"] := by decide +kernel
  have hselected : ((iter requestedSampleState).toOption.bind fun it => it.next.toOption.bind fun r =>
      r.1.map Prod.snd) = some (sampleValidator 5 (33 * 10 ^ 9) 1 "b") := by decide +kernel
  obtain ⟨it, hit, hselected⟩ := Option.bind_eq_some_iff.mp hselected
  obtain ⟨⟨next, it'⟩, hnext, hselected⟩ := Option.bind_eq_some_iff.mp hselected
  obtain ⟨y, rfl, hy⟩ := Option.map_eq_some_iff.mp hselected
  rw [Except.toOption_eq_some] at hit hnext
  obtain ⟨cmV1, cmV2, hready, -⟩ := iter_ready hit
  have htakes : Takes it [y] it' := .step (hready.next hnext).1 (.refl it')
  have hcounted := @totalContribution_countedOnce requestedSampleState _ it it' [y] 1000 y.2 (by decide) (by decide)
    hepoch hreq hit htakes (hy ▸ by decide)
  have hasked := @totalContribution_countedOnce requestedSampleState _ it it' [y] 1000
    (sampleValidator 7 (32 * 10 ^ 9) 0 "a") (by decide) (by decide) hepoch hreq hit htakes (by decide)
  refine ⟨it, y, it', hit, hnext, hy, hcounted, ?_, ?_⟩
  · rw [hcounted.full (hy ▸ rfl) (hy ▸ by decide) (.inr (List.mem_map_of_mem List.mem_cons_self)), hy]
    decide
  · rw [hasked.full rfl (by decide) (.inl ⟨⟨(1, 0), by decide, by decide⟩, by decide⟩)]
    decide

/-- Validator 7, already leaving, with a withdrawable epoch of 356 -/
def leavingSampleValidator : LidoValidator :=
  { sampleValidator 7 (32 * 10 ^ 9) 0 "a" with
    validator := { (sampleValidator 7 (32 * 10 ^ 9) 0 "a").validator with
      exitEpoch := 100, withdrawableEpoch := 356 } }

def leavingSampleState : StakingState :=
  { requestedSampleState with activeLidoValidators := [leavingSampleValidator] }

/-- Asked to exit and not yet withdrawable at epoch 200, but counted in none of the three sums -/
theorem leavingSample_not_counted :
    (∃ it, iter leavingSampleState = .ok it) ∧
    (leavingSampleState.getRecentlyRequestedButNotExitingValidators : Iter _) = .ok [] ∧
    leavingSampleValidator ∈ leavingSampleState.activeLidoValidators ∧
    leavingSampleValidator.consolidatingAsSource = none ∧
    IsRequested leavingSampleState leavingSampleValidator ∧
    isFullyWithdrawableValidator leavingSampleValidator.validator leavingSampleValidator.balance 200 =
      false ∧
    totalContribution leavingSampleState [] [] 200 leavingSampleValidator = 0 ∧
    getPredictableFullInboundBalance leavingSampleValidator = 32 * 10 ^ 9 := by
  have hok : (iter leavingSampleState).isOk = true := by decide +kernel
  refine ⟨?_, by decide +kernel, by decide, rfl, ⟨(1, 0), by decide, by decide⟩, by decide, by decide,
    by decide⟩
  cases hiter : iter leavingSampleState with
  | error e => rw [hiter] at hok; cases hok
  | ok it => exact ⟨it, rfl⟩

end Samples

end Ejector

end LidoOracle
