import LidoOracle.Lib.Grants
import LidoOracle.Lib.Python
import LidoOracle.ValidatorBalance
import LidoOracle.Consensus.BeaconState
import LidoOracle.Consensus.Web3Converter

/-! The withdrawals a sweep of the validators is predicted to perform. The
pending partial withdrawals come first, and their amounts are subtracted from
the balances before the validators are swept. -/

namespace LidoOracle

namespace Ejector

abbrev Sweep := Py Empty

structure Withdrawal where
  validatorIndex : ValidatorIndex
  amount : ℕ
  deriving DecidableEq

def epochFromSlot (slot : SlotNumber) (slotsPerEpoch : ℕ) : Sweep EpochNumber :=
  if slotsPerEpoch = 0 then .error .zeroDivisionError else .ok (slot / slotsPerEpoch)

/-- The loop body of `get_pending_partial_withdrawals` -/
def pendingPartialStep (state : BeaconStateView) (withdrawals : List Withdrawal)
    (withdrawal : PendingPartialWithdrawal) : Sweep (List Withdrawal) := do
  let index := withdrawal.validatorIndex
  let validator ← Py.listItem state.validators index
  let hasSufficientEffectiveBalance := decide (MIN_ACTIVATION_BALANCE ≤ validator.effectiveBalance)
  let balance ← Py.listItem state.balances index
  let hasExcessBalance := decide (MIN_ACTIVATION_BALANCE < balance)
  if validator.exitEpoch == FAR_FUTURE_EPOCH && hasSufficientEffectiveBalance && hasExcessBalance then
    let withdrawableBalance := min (balance - MIN_ACTIVATION_BALANCE) withdrawal.amount
    return withdrawals ++ [{ validatorIndex := index, amount := withdrawableBalance }]
  else return withdrawals

def getPendingPartialWithdrawals (state : BeaconStateView) : Sweep (List Withdrawal) :=
  state.pendingPartialWithdrawals.foldlM (pendingPartialStep state) []

/-- What the withdrawals pay out to one validator -/
def withdrawnFor (withdrawals : List Withdrawal) (index : ValidatorIndex) : ℕ :=
  Dict.amountAt (withdrawals.map fun w => (w.validatorIndex, w.amount)) index

/-- The loop body of the specification's `get_expected_withdrawals`: the balance is what
the withdrawals so far have left. -/
def specPendingPartialStep (state : BeaconStateView) (withdrawals : List Withdrawal)
    (withdrawal : PendingPartialWithdrawal) : Sweep (List Withdrawal) := do
  let index := withdrawal.validatorIndex
  let validator ← Py.listItem state.validators index
  let hasSufficientEffectiveBalance := decide (MIN_ACTIVATION_BALANCE ≤ validator.effectiveBalance)
  let totalWithdrawn := withdrawnFor withdrawals index
  let stateBalance ← Py.listItem state.balances index
  let balance := stateBalance - totalWithdrawn
  let hasExcessBalance := decide (MIN_ACTIVATION_BALANCE < balance)
  if validator.exitEpoch == FAR_FUTURE_EPOCH && hasSufficientEffectiveBalance && hasExcessBalance then
    let withdrawableBalance := min (balance - MIN_ACTIVATION_BALANCE) withdrawal.amount
    return withdrawals ++ [{ validatorIndex := index, amount := withdrawableBalance }]
  else return withdrawals

/-- The specification's loop, without the limits per payload and epoch -/
def specPendingPartialWithdrawals (state : BeaconStateView) : Sweep (List Withdrawal) :=
  state.pendingPartialWithdrawals.foldlM (specPendingPartialStep state) []

def partiallyWithdrawnMap (partialWithdrawals : List Withdrawal) : Dict ValidatorIndex ℕ :=
  Dict.empty.addAll (partialWithdrawals.map fun w => (w.validatorIndex, w.amount))

/-- The balance of a validator after the partial withdrawals; it can be negative. -/
def balanceAfterPartials (state : BeaconStateView) (partiallyWithdrawn : Dict ValidatorIndex ℕ)
    (index : ValidatorIndex) : Sweep ℤ := do
  let balance ← Py.listItem state.balances index
  return (balance : ℤ) - partiallyWithdrawn.totalAt index

def getValidatorsWithdrawals (state : BeaconStateView) (partialWithdrawals : List Withdrawal) (slotsPerEpoch : ℕ) :
    Sweep (List Withdrawal) := do
  let epoch ← epochFromSlot state.slot slotsPerEpoch
  let partiallyWithdrawn := partiallyWithdrawnMap partialWithdrawals
  state.indexedValidators.foldlM (fun withdrawals v => do
    -- a negative balance fails both comparisons, as zero does
    let balance ← Int.toNat <$> balanceAfterPartials state partiallyWithdrawn v.index
    if isFullyWithdrawableValidator v.validator balance epoch then
      return withdrawals ++ [{ validatorIndex := v.index, amount := balance }]
    else if isPartiallyWithdrawableValidator v.validator balance then
      let maxEffectiveBalance := getMaxEffectiveBalance v.validator
      return withdrawals ++ [{ validatorIndex := v.index, amount := balance - maxEffectiveBalance }]
    else return withdrawals) []

def predictWithdrawalsNumberInSweepCycle (state : BeaconStateView) (slotsPerEpoch : ℕ) : Sweep ℤ := do
  let pendingPartialWithdrawals ← getPendingPartialWithdrawals state
  let validatorsWithdrawals ← getValidatorsWithdrawals state pendingPartialWithdrawals slotsPerEpoch
  let pendingPartialWithdrawalsNumber : ℤ := pendingPartialWithdrawals.length
  let validatorsWithdrawalsNumber : ℤ := validatorsWithdrawals.length
  let partialWithdrawalsMaxRatio : ℚ := MAX_PENDING_PARTIALS_PER_WITHDRAWALS_SWEEP /
    (MAX_WITHDRAWALS_PER_PAYLOAD - MAX_PENDING_PARTIALS_PER_WITHDRAWALS_SWEEP)
  let pendingPartialWithdrawalsMaxNumberInCycle := ⌈validatorsWithdrawalsNumber * partialWithdrawalsMaxRatio⌉
  let pendingPartialWithdrawalsNumberInCycle :=
    min pendingPartialWithdrawalsNumber pendingPartialWithdrawalsMaxNumberInCycle
  return validatorsWithdrawalsNumber + pendingPartialWithdrawalsNumberInCycle

def getSweepDelayInEpochs (state : BeaconStateView) (spec : ChainConfig) : Sweep ℤ := do
  let withdrawalsNumberInSweepCycle ← predictWithdrawalsNumberInSweepCycle state spec.slotsPerEpoch
  let fullSweepCycleInEpochs := ⌈(withdrawalsNumberInSweepCycle : ℚ) / MAX_WITHDRAWALS_PER_PAYLOAD / spec.slotsPerEpoch⌉
  return fullSweepCycleInEpochs.fdiv 2

/-- What pending partial withdrawals can take from a validator altogether -/
def withdrawableExcess (state : BeaconStateView) (index : ValidatorIndex) : Gwei :=
  match state.validators[index]?, state.balances[index]? with
  | some validator, some balance =>
    if validator.exitEpoch = FAR_FUTURE_EPOCH ∧ MIN_ACTIVATION_BALANCE ≤ validator.effectiveBalance then
      balance - MIN_ACTIVATION_BALANCE
    else 0
  | _, _ => 0

/-- The requests of every validator that can pay fit in its excess: each of them is the
first to ask for anything, or the excess covers it together with those before it. -/
def RequestsFit (state : BeaconStateView) : Prop :=
  Grants.Fits PendingPartialWithdrawal.validatorIndex PendingPartialWithdrawal.amount (withdrawableExcess state)
    state.pendingPartialWithdrawals

/-- The prediction is the specification's, and leaves every validator it withdraws from
with the minimal balance. -/
def FollowsSpecification (state : BeaconStateView) : Prop :=
  ∃ withdrawals, getPendingPartialWithdrawals state = .ok withdrawals ∧
    specPendingPartialWithdrawals state = .ok withdrawals ∧
    ∀ w ∈ withdrawals, ∃ balance, state.balances[w.validatorIndex]? = some balance ∧
      withdrawnFor withdrawals w.validatorIndex + MIN_ACTIVATION_BALANCE ≤ balance ∧
      ∃ left, balanceAfterPartials state (partiallyWithdrawnMap withdrawals) w.validatorIndex = .ok left ∧
        MIN_ACTIVATION_BALANCE ≤ left

/-! Both loops serve requests from the excess of each validator: the specification in turn,
the prediction each on its own account. -/

def toWithdrawal (grant : ValidatorIndex × ℕ) : Withdrawal := { validatorIndex := grant.1, amount := grant.2 }

section Loops

variable {state : BeaconStateView} (granted : List (ValidatorIndex × ℕ)) {withdrawal : PendingPartialWithdrawal}

theorem withdrawnFor_toWithdrawal (index : ValidatorIndex) :
    withdrawnFor (granted.map toWithdrawal) index = Dict.amountAt granted index := by
  unfold withdrawnFor
  rw [List.map_map]
  exact congrArg (Dict.amountAt · index) (List.map_id granted)

theorem pendingPartialStep_eq (h : withdrawal.validatorIndex < state.validators.length) :
    pendingPartialStep state (granted.map toWithdrawal) withdrawal =
      .ok ((Grants.serveAlone PendingPartialWithdrawal.validatorIndex PendingPartialWithdrawal.amount
        (withdrawableExcess state) granted withdrawal).map toWithdrawal) := by
  obtain ⟨validator, balance, hvalidator, hbalance⟩ := state.exists_item h
  unfold pendingPartialStep Grants.serveAlone withdrawableExcess Py.listItem
  simp only [hvalidator, hbalance, Except.ok_bind]
  by_cases hpays : validator.exitEpoch = FAR_FUTURE_EPOCH ∧ MIN_ACTIVATION_BALANCE ≤ validator.effectiveBalance
  · simp only [hpays, and_self, if_true, beq_self_eq_true, decide_true, Bool.true_and, Nat.sub_pos_iff_lt,
      decide_eq_true_eq]
    split_ifs
    · rw [List.map_append]
      rfl
    · rfl
  · have hrefused : ¬ ((validator.exitEpoch == FAR_FUTURE_EPOCH && decide (MIN_ACTIVATION_BALANCE ≤ validator.effectiveBalance) &&
        decide (MIN_ACTIVATION_BALANCE < balance)) = true) := by
      simp only [Bool.and_eq_true, beq_iff_eq, decide_eq_true_eq]
      exact fun hall => hpays hall.1
    simp only [hrefused, hpays, if_false, lt_irrefl]
    rfl

theorem specPendingPartialStep_eq (h : withdrawal.validatorIndex < state.validators.length) :
    specPendingPartialStep state (granted.map toWithdrawal) withdrawal =
      .ok ((Grants.serveInTurn PendingPartialWithdrawal.validatorIndex PendingPartialWithdrawal.amount
        (withdrawableExcess state) granted withdrawal).map toWithdrawal) := by
  obtain ⟨validator, balance, hvalidator, hbalance⟩ := state.exists_item h
  unfold specPendingPartialStep Grants.serveInTurn withdrawableExcess Py.listItem
  simp only [hvalidator, hbalance, Except.ok_bind, withdrawnFor_toWithdrawal]
  generalize Dict.amountAt granted withdrawal.validatorIndex = withdrawn
  by_cases hpays : validator.exitEpoch = FAR_FUTURE_EPOCH ∧ MIN_ACTIVATION_BALANCE ≤ validator.effectiveBalance
  · simp only [hpays, and_self, if_true, beq_self_eq_true, decide_true, Bool.true_and, decide_eq_true_eq]
    rw [Nat.sub_right_comm]
    have hiff : 0 < balance - MIN_ACTIVATION_BALANCE - withdrawn ↔ MIN_ACTIVATION_BALANCE < balance - withdrawn := by
      rw [Nat.sub_right_comm]
      exact Nat.sub_pos_iff_lt
    by_cases hleft : MIN_ACTIVATION_BALANCE < balance - withdrawn
    · rw [if_pos hleft, if_pos (hiff.mpr hleft), List.map_append]
      rfl
    · rw [if_neg hleft, if_neg fun hpos => hleft (hiff.mp hpos)]
      rfl
  · have hrefused : ¬ ((validator.exitEpoch == FAR_FUTURE_EPOCH && decide (MIN_ACTIVATION_BALANCE ≤ validator.effectiveBalance) &&
        decide (MIN_ACTIVATION_BALANCE < balance - withdrawn)) = true) := by
      simp only [Bool.and_eq_true, beq_iff_eq, decide_eq_true_eq]
      exact fun hall => hpays hall.1
    simp only [hrefused, hpays, if_false, Nat.zero_sub, lt_irrefl]
    rfl

end Loops

variable (state : BeaconStateView)

theorem getPendingPartialWithdrawals_eq : getPendingPartialWithdrawals state =
    .ok ((state.pendingPartialWithdrawals.foldl (Grants.serveAlone PendingPartialWithdrawal.validatorIndex
      PendingPartialWithdrawal.amount (withdrawableExcess state)) []).map toWithdrawal) :=
  @ExceptRun.foldlM_of_ok _ _ _ _ _ (List.map toWithdrawal) _ _
    (fun withdrawal hmem granted => pendingPartialStep_eq granted (state.validatorIndex_lt withdrawal hmem)) []

theorem specPendingPartialWithdrawals_eq : specPendingPartialWithdrawals state =
    .ok ((state.pendingPartialWithdrawals.foldl (Grants.serveInTurn PendingPartialWithdrawal.validatorIndex
      PendingPartialWithdrawal.amount (withdrawableExcess state)) []).map toWithdrawal) :=
  @ExceptRun.foldlM_of_ok _ _ _ _ _ (List.map toWithdrawal) _ _
    (fun withdrawal hmem granted => specPendingPartialStep_eq granted (state.validatorIndex_lt withdrawal hmem)) []

theorem toWithdrawal_injective : Function.Injective toWithdrawal := fun _ _ h =>
  Prod.ext (congrArg Withdrawal.validatorIndex h) (congrArg Withdrawal.amount h)

/-- The two loops agree exactly on the queues whose requests fit. -/
theorem pending_eq_spec_iff :
    getPendingPartialWithdrawals state = specPendingPartialWithdrawals state ↔ RequestsFit state := by
  rw [getPendingPartialWithdrawals_eq, specPendingPartialWithdrawals_eq, Except.ok.injEq,
    (List.map_injective_iff.mpr toWithdrawal_injective).eq_iff]
  exact Grants.alone_eq_inTurn_iff _

/-- What is granted in turn goes to keys with a budget. -/
theorem withdrawableExcess_pos_of_mem {grant : ValidatorIndex × ℕ}
    (h : grant ∈ state.pendingPartialWithdrawals.foldl (Grants.serveInTurn PendingPartialWithdrawal.validatorIndex
      PendingPartialWithdrawal.amount (withdrawableExcess state)) []) : 0 < withdrawableExcess state grant.1 :=
  Grants.budget_pos_of_mem h

theorem balance_of_withdrawableExcess {index : ValidatorIndex} (h : 0 < withdrawableExcess state index) :
    ∃ balance, state.balances[index]? = some balance ∧
      withdrawableExcess state index + MIN_ACTIVATION_BALANCE = balance := by
  unfold withdrawableExcess at *
  split at h
  · rename_i validator balance hvalidator hbalance
    split_ifs at * with hpays
    · exact ⟨balance, hbalance, Nat.sub_add_cancel (Nat.lt_of_sub_pos h).le⟩
    · exact absurd h (lt_irrefl 0)
  · exact absurd h (lt_irrefl 0)

theorem balanceAfterPartials_eq {index : ValidatorIndex} {balance : Gwei} (h : state.balances[index]? = some balance)
    (withdrawals : List Withdrawal) : balanceAfterPartials state (partiallyWithdrawnMap withdrawals) index =
      .ok ((balance : ℤ) - withdrawnFor withdrawals index) := by
  unfold balanceAfterPartials partiallyWithdrawnMap withdrawnFor
  rw [Py.listItem_eq_ok.mpr h, Except.ok_bind, Dict.totalAt_addAll, Dict.totalAt_empty, Nat.zero_add]
  rfl

/-- Granted in turn, the withdrawals leave every validator they take from the minimal balance. -/
theorem spec_leaves_minimum {withdrawals : List Withdrawal}
    (h : specPendingPartialWithdrawals state = .ok withdrawals) {w : Withdrawal} (hw : w ∈ withdrawals) :
    ∃ balance, state.balances[w.validatorIndex]? = some balance ∧
      withdrawnFor withdrawals w.validatorIndex + MIN_ACTIVATION_BALANCE ≤ balance ∧
      ∃ left, balanceAfterPartials state (partiallyWithdrawnMap withdrawals) w.validatorIndex = .ok left ∧
        MIN_ACTIVATION_BALANCE ≤ left := by
  rw [specPendingPartialWithdrawals_eq, Except.ok.injEq] at h
  subst h
  obtain ⟨grant, hgrant, rfl⟩ := List.mem_map.mp hw
  obtain ⟨balance, hbalance, hexcess⟩ :=
    balance_of_withdrawableExcess state (withdrawableExcess_pos_of_mem state hgrant)
  have hpaid := @Grants.amountAt_inTurn_le _ _ _ PendingPartialWithdrawal.validatorIndex
    PendingPartialWithdrawal.amount (withdrawableExcess state) state.pendingPartialWithdrawals grant.1
  rw [← withdrawnFor_toWithdrawal] at hpaid
  refine ⟨balance, hbalance, ?_, _, balanceAfterPartials_eq state hbalance _, ?_⟩
  · rw [← hexcess]
    exact Nat.add_le_add_right hpaid _
  · have hkept := Nat.add_le_add_right hpaid MIN_ACTIVATION_BALANCE
    rw [hexcess] at hkept
    change (MIN_ACTIVATION_BALANCE : ℤ) ≤ (balance : ℤ) - (withdrawnFor _ grant.1 : ℤ)
    omega

/-- The prediction follows the specification exactly when the requests fit. -/
theorem followsSpecification_iff : FollowsSpecification state ↔ RequestsFit state := by
  rw [← pending_eq_spec_iff]
  refine ⟨fun ⟨withdrawals, hpending, hspec, _⟩ => hpending.trans hspec.symm, fun h => ?_⟩
  have hspec := specPendingPartialWithdrawals_eq state
  exact ⟨_, h.trans hspec, hspec, fun w hw => spec_leaves_minimum state hspec hw⟩

/-- One validator with an excess of 1 ETH, and two requests for 1 ETH each -/
def twoRequestsState : BeaconStateView where
  slot := 32
  validators := [{
    pubkey := "0xaa"
    withdrawalCredentials := "0x02"
    effectiveBalance := 32 * 10 ^ 9
    slashed := false
    activationEligibilityEpoch := 0
    activationEpoch := 0
    exitEpoch := FAR_FUTURE_EPOCH
    withdrawableEpoch := FAR_FUTURE_EPOCH
    effectiveBalance_le := by decide }]
  balances := [33 * 10 ^ 9]
  exitBalanceToConsume := 0
  earliestExitEpoch := 0
  pendingPartialWithdrawals := [⟨0, 10 ^ 9⟩, ⟨0, 10 ^ 9⟩]
  balances_length := rfl
  validatorIndex_lt := by simp

/-- Both requests are predicted to be paid, which leaves 31 ETH; the specification pays one. -/
theorem twoRequests_overdrawn :
    getPendingPartialWithdrawals twoRequestsState = .ok [⟨0, 10 ^ 9⟩, ⟨0, 10 ^ 9⟩] ∧
      specPendingPartialWithdrawals twoRequestsState = .ok [⟨0, 10 ^ 9⟩] ∧
      balanceAfterPartials twoRequestsState (partiallyWithdrawnMap [⟨0, 10 ^ 9⟩, ⟨0, 10 ^ 9⟩]) 0 =
        .ok (31 * 10 ^ 9) ∧
      ¬ FollowsSpecification twoRequestsState := by
  have hpending : getPendingPartialWithdrawals twoRequestsState = .ok [⟨0, 10 ^ 9⟩, ⟨0, 10 ^ 9⟩] := rfl
  have hspec : specPendingPartialWithdrawals twoRequestsState = .ok [⟨0, 10 ^ 9⟩] := rfl
  refine ⟨hpending, hspec, rfl, ?_⟩
  rintro ⟨withdrawals, hcode, hloop, -⟩
  rw [hpending, Except.ok.injEq] at hcode
  rw [hspec, Except.ok.injEq, ← hcode] at hloop
  exact absurd (congrArg List.length hloop) (by decide)

end Ejector

end LidoOracle
