import LidoOracle.Lib.Python
import LidoOracle.ValidatorBalance

/-! What the oracle reads from the chain at one block, and the services that
group validators and exit requests by node operator. -/

namespace LidoOracle

/-- The part of a node operator digest that the oracle keeps -/
structure NodeOperatorDigest where
  id : NodeOperatorId
  isTargetLimitActive : ℕ
  targetValidatorsCount : ℕ
  totalExitedValidators : ℕ

/-- Modes above 2 count as `force`. -/
def NodeOperatorLimitMode.ofResponse (mode : ℕ) : NodeOperatorLimitMode :=
  match min mode 2 with
  | 0 => .disabled
  | 1 => .soft
  | _ => .force

def NodeOperator.fromResponse (data : NodeOperatorDigest) (stakingModule : StakingModule) :
    NodeOperator where
  id := data.id
  isTargetLimitActive := .ofResponse data.isTargetLimitActive
  targetValidatorsCount := data.targetValidatorsCount
  totalExitedValidators := data.totalExitedValidators
  stakingModule := stakingModule

structure ValidatorExitRequest where
  stakingModuleId : StakingModuleId
  nodeOperatorId : NodeOperatorId
  validatorIndex : ValidatorIndex

structure SubNodeOperator where
  nodeOperatorId : NodeOperatorId
  share : ℕ
  deriving DecidableEq

structure ExternalOperator where
  data : List UInt8
  deriving DecidableEq

structure OperatorGroup where
  name : String
  subNodeOperators : List SubNodeOperator
  externalOperators : List ExternalOperator
  deriving DecidableEq

/-- A curated staking module's contract, with the groups of its meta registry -/
structure CuratedStakingModuleContract where
  getType : List UInt8
  getNodeOperatorDepositInfoToUpdateCount : ℕ
  getOperatorWeights : List NodeOperatorId → List ℕ
  getAllGroups : List OperatorGroup

structure StakingState where
  stakingModules : List StakingModule
  nodeOperatorDigests : StakingModuleId → List NodeOperatorDigest
  curatedContract : ChecksumAddress → CuratedStakingModuleContract
  activeLidoValidators : List LidoValidator
  pendingLidoValidators : Dict HexStr (LidoKey × List PendingDeposit)
  /-- exit requests emitted within the lookback window -/
  validatorExitRequests : List ValidatorExitRequest
  maxBalanceExitRequestedPerReportInEth : ℕ

namespace StakingState

variable {χ : Type} (st : StakingState)

def getStakingModulesByAddress : Dict ChecksumAddress StakingModule :=
  Dict.ofList (st.stakingModules.map fun m => (m.stakingModuleAddress, m))

def getAllNodeOperatorDigests (module : StakingModule) : List NodeOperator :=
  (st.nodeOperatorDigests module.id).map fun no => NodeOperator.fromResponse no module

def getLidoNodeOperatorsByModules : Dict StakingModuleId (List NodeOperator) :=
  Dict.ofList (st.stakingModules.map fun m => (m.id, st.getAllNodeOperatorDigests m))

def getLidoNodeOperators : List NodeOperator := st.getLidoNodeOperatorsByModules.values.flatten

/-- File a validator under its operator; a validator of an unknown operator is skipped. -/
def fileValidator (stakingModuleAddress : Dict ChecksumAddress StakingModuleId)
    (noValidators : Dict NodeOperatorGlobalIndex (List LidoValidator)) (validator : LidoValidator) :
    Py χ (Dict NodeOperatorGlobalIndex (List LidoValidator)) := do
  let moduleId ← Py.getItem stakingModuleAddress validator.lidoId.moduleAddress
  return noValidators.modify (moduleId, validator.lidoId.operatorIndex) (· ++ [validator])

def getLidoValidatorsByNodeOperators : Py χ (Dict NodeOperatorGlobalIndex (List LidoValidator)) :=
  let noOperators := st.getLidoNodeOperators
  let noValidators := Dict.ofList (noOperators.map fun no => (no.globalIndex, []))
  let stakingModuleAddress := Dict.ofList
    (noOperators.map fun no => (no.stakingModule.stakingModuleAddress, no.stakingModule.id))
  st.activeLidoValidators.foldlM (fileValidator stakingModuleAddress) noValidators

/-- Validator indexes asked to exit in the lookback window, by operator -/
def getRecentlyRequestedToExitValidatorsByNodeOperator :
    Py χ (Dict NodeOperatorGlobalIndex (Finset ValidatorIndex)) :=
  let globalIndexes := Dict.ofList (st.getLidoNodeOperators.map fun no => (no.globalIndex, ∅))
  st.validatorExitRequests.foldlM (fun globalIndexes event =>
    Py.updateItem globalIndexes (event.stakingModuleId, event.nodeOperatorId)
      (insert event.validatorIndex)) globalIndexes

/-- Not exiting on the consensus layer, recently asked to, and not consolidating away -/
def isValidatorRecentlyRequestedButNotExiting
    (recentExitRequests : Dict NodeOperatorGlobalIndex (Finset ValidatorIndex))
    (gid : NodeOperatorGlobalIndex) (validator : LidoValidator) : Py χ Bool :=
  if isOnExit validator.toValidator then return false
  else do
    let requested ← Py.getItem recentExitRequests gid
    return validator.index ∈ requested && validator.consolidatingAsSource.isNone

def getRecentlyRequestedButNotExitingValidators : Py χ (List LidoValidator) := do
  let lidoValidatorsByOperator ← st.getLidoValidatorsByNodeOperators
  let recentExitRequests ← st.getRecentlyRequestedToExitValidatorsByNodeOperator
  let requested ← lidoValidatorsByOperator.entries.mapM fun e =>
    Py.filterM (isValidatorRecentlyRequestedButNotExiting recentExitRequests e.1) e.2
  return requested.flatten

end StakingState

end LidoOracle
