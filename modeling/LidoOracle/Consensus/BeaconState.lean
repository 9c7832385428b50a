import LidoOracle.Types

/-! The parts of a beacon state that predictions about exits and withdrawals
read. Every validator has a balance, and every pending partial withdrawal names
a validator of the state. -/

namespace LidoOracle

structure PendingPartialWithdrawal where
  validatorIndex : ValidatorIndex
  amount : Gwei
  deriving DecidableEq

structure BeaconStateView where
  slot : SlotNumber
  validators : List ValidatorState
  balances : List Gwei
  exitBalanceToConsume : Gwei
  earliestExitEpoch : EpochNumber
  pendingPartialWithdrawals : List PendingPartialWithdrawal
  balances_length : balances.length = validators.length
  validatorIndex_lt : ∀ withdrawal ∈ pendingPartialWithdrawals, withdrawal.validatorIndex < validators.length

namespace BeaconStateView

variable (state : BeaconStateView)

def indexedValidators : List Validator :=
  (state.validators.zip state.balances).zipIdx.map fun e => { index := e.2, balance := e.1.2, validator := e.1.1 }

/-- An index of the registry has a validator and a balance. -/
theorem exists_item {index : ValidatorIndex} (h : index < state.validators.length) :
    ∃ validator balance, state.validators[index]? = some validator ∧ state.balances[index]? = some balance :=
  ⟨_, _, List.getElem?_eq_getElem h, List.getElem?_eq_getElem (state.balances_length ▸ h)⟩

end BeaconStateView

end LidoOracle
