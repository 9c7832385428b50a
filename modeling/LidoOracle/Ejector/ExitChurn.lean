import LidoOracle.Lib.Allotment
import LidoOracle.ValidatorBalance
import LidoOracle.Consensus.BeaconState

/-! The epoch by which a batch of validators can have exited. The consensus
specification lets them exit one after the other, and keeps the unused churn of
the last epoch in the state; the ejector computes the epoch of the whole batch
with one division. -/

namespace LidoOracle

def computeActivationExitEpoch (refEpoch : EpochNumber) : EpochNumber := refEpoch + 1 + MAX_SEED_LOOKAHEAD

def getBalanceChurnLimit (totalActiveBalance : Gwei) : Gwei :=
  let churn := max MIN_PER_EPOCH_CHURN_LIMIT_ELECTRA (totalActiveBalance / CHURN_LIMIT_QUOTIENT)
  churn - churn % EFFECTIVE_BALANCE_INCREMENT

def getActivationExitChurnLimit (totalActiveBalance : Gwei) : Gwei :=
  min MAX_PER_EPOCH_ACTIVATION_EXIT_CHURN_LIMIT (getBalanceChurnLimit totalActiveBalance)

namespace Ejector

def getActiveValidators (validators : List Validator) (refEpoch : EpochNumber) : List Validator :=
  validators.filter (isActiveValidator · refEpoch)

def getTotalActiveBalance (validators : List Validator) (refEpoch : EpochNumber) : Gwei :=
  max EFFECTIVE_BALANCE_INCREMENT ((getActiveValidators validators refEpoch).map (·.validator.effectiveBalance)).sum

/-- `totalActiveBalance` is that of the validators at the reference block. -/
def computeExitEpochAndUpdateChurn (totalActiveBalance : Gwei) (state : BeaconStateView) (exitBalance : Gwei)
    (refEpoch : EpochNumber) : EpochNumber :=
  let earliestExitEpoch := max state.earliestExitEpoch (computeActivationExitEpoch refEpoch)
  let perEpochChurn := getActivationExitChurnLimit totalActiveBalance
  let exitBalanceToConsume :=
    if state.earliestExitEpoch < earliestExitEpoch then perEpochChurn else state.exitBalanceToConsume
  if exitBalance > exitBalanceToConsume then
    let balanceToProcess := exitBalance - exitBalanceToConsume
    let additionalEpochs := (balanceToProcess - 1) / perEpochChurn + 1
    earliestExitEpoch + additionalEpochs
  else earliestExitEpoch

def getPredictedWithdrawableEpoch (validators : List Validator) (state : BeaconStateView) (refEpoch : EpochNumber)
    (exitingBalanceSum : Gwei) : EpochNumber :=
  computeExitEpochAndUpdateChurn (getTotalActiveBalance validators refEpoch) state exitingBalanceSum refEpoch +
    MIN_VALIDATOR_WITHDRAWABILITY_DELAY

/-- One exit as the specification has it: the churn consumed and the exit epoch reached
are stored in the state. -/
def specExit (totalActiveBalance : Gwei) (refEpoch : EpochNumber) (state : BeaconStateView) (exitBalance : Gwei) :
    BeaconStateView :=
  let earliestExitEpoch := max state.earliestExitEpoch (computeActivationExitEpoch refEpoch)
  let perEpochChurn := getActivationExitChurnLimit totalActiveBalance
  let exitBalanceToConsume :=
    if state.earliestExitEpoch < earliestExitEpoch then perEpochChurn else state.exitBalanceToConsume
  if exitBalance > exitBalanceToConsume then
    let balanceToProcess := exitBalance - exitBalanceToConsume
    let additionalEpochs := (balanceToProcess - 1) / perEpochChurn + 1
    { state with
      exitBalanceToConsume := exitBalanceToConsume + additionalEpochs * perEpochChurn - exitBalance
      earliestExitEpoch := earliestExitEpoch + additionalEpochs }
  else
    { state with
      exitBalanceToConsume := exitBalanceToConsume - exitBalance
      earliestExitEpoch := earliestExitEpoch }

/-- The first epoch open to an exit initiated in `refEpoch`, with the churn it has left -/
def exitAllotment (totalActiveBalance : Gwei) (refEpoch : EpochNumber) (state : BeaconStateView) : Allotment where
  period := max state.earliestExitEpoch (computeActivationExitEpoch refEpoch)
  left :=
    if state.earliestExitEpoch < computeActivationExitEpoch refEpoch then getActivationExitChurnLimit totalActiveBalance
    else state.exitBalanceToConsume

/-- The churn there is from the first open epoch to the end of `epoch` -/
def cumulativeChurn (totalActiveBalance : Gwei) (refEpoch : EpochNumber) (state : BeaconStateView)
    (epoch : EpochNumber) : Gwei :=
  (exitAllotment totalActiveBalance refEpoch state).through (getActivationExitChurnLimit totalActiveBalance) epoch

variable (totalActiveBalance : Gwei) (refEpoch : EpochNumber) (state : BeaconStateView) (exitBalance : Gwei)

/-- The minimal churn is a whole number of increments, so rounding down keeps it. -/
theorem getBalanceChurnLimit_ge : MIN_PER_EPOCH_CHURN_LIMIT_ELECTRA ≤ getBalanceChurnLimit totalActiveBalance := by
  unfold getBalanceChurnLimit
  dsimp only
  have hchurn := Nat.le_max_left MIN_PER_EPOCH_CHURN_LIMIT_ELECTRA (totalActiveBalance / CHURN_LIMIT_QUOTIENT)
  generalize max MIN_PER_EPOCH_CHURN_LIMIT_ELECTRA (totalActiveBalance / CHURN_LIMIT_QUOTIENT) = churn at hchurn
  unfold MIN_PER_EPOCH_CHURN_LIMIT_ELECTRA EFFECTIVE_BALANCE_INCREMENT at *
  omega

theorem getActivationExitChurnLimit_pos : 0 < getActivationExitChurnLimit totalActiveBalance := by
  have hmin : 0 < MIN_PER_EPOCH_CHURN_LIMIT_ELECTRA := by decide
  exact lt_min (by decide) (hmin.trans_le (getBalanceChurnLimit_ge totalActiveBalance))

/-- The ejector's division finds the epoch that a single exit of the whole balance reaches. -/
theorem computeExitEpoch_eq : computeExitEpochAndUpdateChurn totalActiveBalance state exitBalance refEpoch =
    ((exitAllotment totalActiveBalance refEpoch state).take (getActivationExitChurnLimit totalActiveBalance)
      exitBalance).period := by
  unfold computeExitEpochAndUpdateChurn exitAllotment Allotment.take
  simp only [lt_max_iff, lt_irrefl, false_or]
  generalize (if state.earliestExitEpoch < computeActivationExitEpoch refEpoch then
    getActivationExitChurnLimit totalActiveBalance else state.exitBalanceToConsume) = left
  by_cases h : exitBalance ≤ left
  · rw [if_neg (not_lt.mpr h), if_pos h]
  · rw [if_pos (not_le.mp h), if_neg h]

/-- An exit takes its balance from the allotment of the state. -/
theorem specExit_earliestExitEpoch : (specExit totalActiveBalance refEpoch state exitBalance).earliestExitEpoch =
    ((exitAllotment totalActiveBalance refEpoch state).take (getActivationExitChurnLimit totalActiveBalance)
      exitBalance).period := by
  rw [← computeExitEpoch_eq]
  unfold specExit computeExitEpochAndUpdateChurn
  dsimp only
  split_ifs <;> rfl

theorem specExit_exitBalanceToConsume :
    (specExit totalActiveBalance refEpoch state exitBalance).exitBalanceToConsume =
      ((exitAllotment totalActiveBalance refEpoch state).take (getActivationExitChurnLimit totalActiveBalance)
        exitBalance).left := by
  unfold specExit exitAllotment Allotment.take
  simp only [lt_max_iff, lt_irrefl, false_or]
  generalize (if state.earliestExitEpoch < computeActivationExitEpoch refEpoch then
    getActivationExitChurnLimit totalActiveBalance else state.exitBalanceToConsume) = left
  by_cases h : exitBalance ≤ left
  · rw [if_neg (not_lt.mpr h), if_pos h]
  · rw [if_pos (not_le.mp h), if_neg h]

theorem activationExitEpoch_le_take : computeActivationExitEpoch refEpoch ≤
    ((exitAllotment totalActiveBalance refEpoch state).take (getActivationExitChurnLimit totalActiveBalance)
      exitBalance).period := by
  have hopen : computeActivationExitEpoch refEpoch ≤ (exitAllotment totalActiveBalance refEpoch state).period :=
    le_max_right _ _
  exact hopen.trans (Allotment.period_le_take (getActivationExitChurnLimit_pos totalActiveBalance) _ _)

/-- After an exit the state is up to date: its own epoch is open to the next one. -/
theorem exitAllotment_specExit :
    exitAllotment totalActiveBalance refEpoch (specExit totalActiveBalance refEpoch state exitBalance) =
      (exitAllotment totalActiveBalance refEpoch state).take (getActivationExitChurnLimit totalActiveBalance) exitBalance := by
  have hepoch := specExit_earliestExitEpoch totalActiveBalance refEpoch state exitBalance
  have hopen : computeActivationExitEpoch refEpoch ≤ (specExit totalActiveBalance refEpoch state exitBalance).earliestExitEpoch := by
    rw [hepoch]
    exact activationExitEpoch_le_take totalActiveBalance refEpoch state exitBalance
  refine Allotment.ext ?_ ?_
  · exact (max_eq_left hopen).trans hepoch
  · exact (if_neg (not_lt.mpr hopen)).trans (specExit_exitBalanceToConsume totalActiveBalance refEpoch state exitBalance)

theorem exitAllotment_foldl (balances : List Gwei) :
    exitAllotment totalActiveBalance refEpoch (balances.foldl (specExit totalActiveBalance refEpoch) state) =
      (exitAllotment totalActiveBalance refEpoch state).take (getActivationExitChurnLimit totalActiveBalance) balances.sum := by
  rw [← Allotment.foldl_take (getActivationExitChurnLimit_pos totalActiveBalance)]
  induction balances generalizing state with
  | nil => rfl
  | cons exitBalance balances ih => rw [List.foldl_cons, ih, exitAllotment_specExit, List.foldl_cons]

/-- From the first exit on, the epoch of the state is not before the activation-exit epoch. -/
theorem activationExitEpoch_le_foldl {balances : List Gwei} (h : balances ≠ []) :
    computeActivationExitEpoch refEpoch ≤ (balances.foldl (specExit totalActiveBalance refEpoch) state).earliestExitEpoch := by
  induction balances using List.reverseRecOn with
  | nil => exact absurd rfl h
  | append_singleton balances exitBalance _ =>
    rw [List.foldl_append, List.foldl_cons, List.foldl_nil, specExit_earliestExitEpoch]
    exact activationExitEpoch_le_take totalActiveBalance refEpoch _ exitBalance

/-- The epochs agree as soon as the state's own epoch is brought up to the reference epoch. -/
theorem max_foldl_eq_computeExitEpoch (balances : List Gwei) :
    max (balances.foldl (specExit totalActiveBalance refEpoch) state).earliestExitEpoch
      (computeActivationExitEpoch refEpoch) =
    computeExitEpochAndUpdateChurn totalActiveBalance state balances.sum refEpoch := by
  rw [computeExitEpoch_eq, ← exitAllotment_foldl]
  rfl

theorem foldl_eq_computeExitEpoch {balances : List Gwei} (h : balances ≠ []) :
    (balances.foldl (specExit totalActiveBalance refEpoch) state).earliestExitEpoch =
      computeExitEpochAndUpdateChurn totalActiveBalance state balances.sum refEpoch := by
  rw [← max_foldl_eq_computeExitEpoch]
  exact (max_eq_left (activationExitEpoch_le_foldl totalActiveBalance refEpoch state h)).symm

/-- More balance to exit is never withdrawable earlier. -/
theorem getPredictedWithdrawableEpoch_mono (validators : List Validator) :
    Monotone (getPredictedWithdrawableEpoch validators state refEpoch) := by
  intro sum sum' hle
  have hperiod := Allotment.period_take_mono
    (getActivationExitChurnLimit_pos (getTotalActiveBalance validators refEpoch))
    (exitAllotment (getTotalActiveBalance validators refEpoch) refEpoch state) hle
  rw [← computeExitEpoch_eq, ← computeExitEpoch_eq] at hperiod
  exact Nat.add_le_add_right hperiod _

/-- Exiting a batch at once predicts the epoch that exiting its validators one by one
reaches. No exit at all leaves the state as it is, where the prediction already moves to
the activation-exit epoch. -/
theorem exitEpoch_batch (balances : List Gwei) :
    (max (balances.foldl (specExit totalActiveBalance refEpoch) state).earliestExitEpoch
        (computeActivationExitEpoch refEpoch) =
      computeExitEpochAndUpdateChurn totalActiveBalance state balances.sum refEpoch) ∧
    (balances ≠ [] → (balances.foldl (specExit totalActiveBalance refEpoch) state).earliestExitEpoch =
      computeExitEpochAndUpdateChurn totalActiveBalance state balances.sum refEpoch) ∧
    IsLeast {epoch | max state.earliestExitEpoch (computeActivationExitEpoch refEpoch) ≤ epoch ∧
        balances.sum ≤ cumulativeChurn totalActiveBalance refEpoch state epoch}
      (computeExitEpochAndUpdateChurn totalActiveBalance state balances.sum refEpoch) ∧
    Monotone (computeExitEpochAndUpdateChurn totalActiveBalance state · refEpoch) ∧
    0 < getActivationExitChurnLimit totalActiveBalance := by
  have hpos := getActivationExitChurnLimit_pos totalActiveBalance
  refine ⟨max_foldl_eq_computeExitEpoch totalActiveBalance refEpoch state balances,
    fun hne => foldl_eq_computeExitEpoch totalActiveBalance refEpoch state hne, ?_, ?_, hpos⟩
  · rw [computeExitEpoch_eq]
    exact Allotment.isLeast_period_take hpos (exitAllotment totalActiveBalance refEpoch state) balances.sum
  · intro sum sum' hle
    dsimp only
    rw [computeExitEpoch_eq, computeExitEpoch_eq]
    exact Allotment.period_take_mono hpos _ hle

/-- A state in which no exit was ever initiated -/
def stateWithoutExits : BeaconStateView where
  slot := 0
  validators := []
  balances := []
  exitBalanceToConsume := 0
  earliestExitEpoch := 0
  pendingPartialWithdrawals := []
  balances_length := rfl
  validatorIndex_lt := by simp

/-- The specification's state without an exit, against the prediction for nothing to exit -/
theorem exitEpoch_noExit :
    (([] : List Gwei).foldl (specExit EFFECTIVE_BALANCE_INCREMENT 0) stateWithoutExits).earliestExitEpoch ≠
      computeExitEpochAndUpdateChurn EFFECTIVE_BALANCE_INCREMENT stateWithoutExits ([] : List Gwei).sum 0 := by
  decide

end Ejector

end LidoOracle
