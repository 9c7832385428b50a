import LidoOracle.Types

/-! Predicates on a validator's state and the balance expected to flow in to
it. The full inbound balance splits into a part under the effective-balance
cap and an excess that the withdrawal sweep pays out. -/

namespace LidoOracle

def isActiveValidator (validator : Validator) (epoch : EpochNumber) : Bool :=
  validator.validator.activationEpoch ≤ epoch && epoch < validator.validator.exitEpoch

def isExitedValidator (validator : Validator) (epoch : EpochNumber) : Bool :=
  validator.validator.exitEpoch ≤ epoch

/-- Validator exited or is going to exit -/
def isOnExit (validator : Validator) : Bool :=
  validator.validator.exitEpoch != FAR_FUTURE_EPOCH

def hasCompoundingWithdrawalCredential (validator : ValidatorState) : Bool :=
  hasCredentialPrefix validator.withdrawalCredentials COMPOUNDING_WITHDRAWAL_PREFIX

def hasEth1WithdrawalCredential (validator : ValidatorState) : Bool :=
  hasCredentialPrefix validator.withdrawalCredentials ETH1_ADDRESS_WITHDRAWAL_PREFIX

def hasExecutionWithdrawalCredential (validator : ValidatorState) : Bool :=
  hasCompoundingWithdrawalCredential validator || hasEth1WithdrawalCredential validator

def isFullyWithdrawableValidator (validator : ValidatorState) (balance : Gwei)
    (epoch : EpochNumber) : Bool :=
  hasExecutionWithdrawalCredential validator && validator.withdrawableEpoch ≤ epoch && 0 < balance

def getMaxEffectiveBalance (validator : ValidatorState) : Gwei :=
  maxEffectiveBalanceOf validator.withdrawalCredentials

def isPartiallyWithdrawableValidator (validator : ValidatorState) (balance : Gwei) : Bool :=
  let maxEffectiveBalance := getMaxEffectiveBalance validator
  let hasMaxEffectiveBalance := validator.effectiveBalance == maxEffectiveBalance
  let hasExcessBalance := decide (maxEffectiveBalance < balance)
  hasExecutionWithdrawalCredential validator && hasMaxEffectiveBalance && hasExcessBalance

def getPredictableFullInboundBalance (validator : LidoValidator) : Gwei :=
  validator.balance + (validator.pendingTopups.map (·.amount)).sum +
    (validator.consolidatingAsTarget.map (·.amount)).sum

def getPredictableInboundBalance (validator : LidoValidator) : Gwei :=
  min (getPredictableFullInboundBalance validator) (getMaxEffectiveBalance validator.validator)

def getPredictableInboundSweep (validator : LidoValidator) : Gwei :=
  getPredictableFullInboundBalance validator -
    min (getPredictableFullInboundBalance validator) (getMaxEffectiveBalance validator.validator)

def gweiToWei (amount : ℤ) : ℤ := amount * GWEI_TO_WEI

/-- Capped part and sweep part complement each other. -/
theorem inboundBalance_add_sweep (v : LidoValidator) :
    getPredictableInboundBalance v + getPredictableInboundSweep v =
      getPredictableFullInboundBalance v :=
  Nat.add_sub_cancel' (Nat.min_le_left _ _)

theorem getPredictableInboundSweep_le (v : LidoValidator) :
    getPredictableInboundSweep v ≤ getPredictableFullInboundBalance v := Nat.sub_le _ _

end LidoOracle
