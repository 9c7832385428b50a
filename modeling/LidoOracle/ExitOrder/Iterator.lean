import LidoOracle.Lib.BigEndian
import LidoOracle.Lib.FloatingPoint
import LidoOracle.StakingState

/-! The validator exit iterator. It keeps one running record per staking
module and per node operator, hands out the next validator to exit, and takes
that validator's balance back off every record it was counted in. Stakes and
weights are exact rationals; the limit of a module's share is computed in doubles. -/

namespace LidoOracle

open FloatingPoint (double)

inductive IteratorException where
  | unexpectedExternalOperatorLength (length : ℕ)
  | nodeOperatorExpectedToBeInCMv1Error (gid : NodeOperatorGlobalIndex) (cmV1Id : StakingModuleId)
  | nodeOperatorAlreadyGroupedError (gid : NodeOperatorGlobalIndex)
  | weightsNotUpdatedError (stakingModuleId : StakingModuleId)
  | invalidCuratedModuleConfigError (cmV1Ids cmV2Ids : List StakingModuleId)
  deriving DecidableEq

def IteratorException.message : IteratorException → String
  | .unexpectedExternalOperatorLength length => s!"Expected 10 bytes, got {length}"
  | .nodeOperatorExpectedToBeInCMv1Error gid cmV1Id =>
    s!"Node operator {gid} is expected to be in CMv1, but it is not. CMv1 id: {cmV1Id}"
  | .nodeOperatorAlreadyGroupedError gid => s!"Node operator {gid} is already persists in a group."
  | .weightsNotUpdatedError stakingModuleId =>
    s!"Weights are not updated for Curated Module v2 (id: {stakingModuleId})."
  | .invalidCuratedModuleConfigError cmV1Ids cmV2Ids =>
    let errors :=
      (if cmV1Ids.length = 1 then [] else
        [s!"expected exactly one curated module named {CURATED_V1_MODULE_NAME}, found ids: {cmV1Ids}"])
      ++ (if cmV2Ids.length = 1 then [] else
        [s!"expected exactly one curated module v2 named {CURATED_V2_MODULE_NAME}, found ids: {cmV2Ids}"])
    "; ".intercalate errors

abbrev Iter := Py IteratorException

/-- A 32-byte type tag: ASCII text padded with zeros -/
def typeTag (text : String) : List UInt8 :=
  let bytes := text.toList.map fun c => UInt8.ofNat c.toNat
  bytes ++ List.replicate (32 - bytes.length) 0

def CURATED_V1_TYPE : List UInt8 := typeTag "curated-onchain-v1"
def CURATED_V2_TYPE : List UInt8 := typeTag "curated-onchain-v2"

/-- Bytes: operator type, staking module id, then the node operator id in eight bytes. -/
def ExternalOperator.getGid (op : ExternalOperator) : Iter NodeOperatorGlobalIndex :=
  match op.data with
  | _typeByte :: stakingModuleId :: nodeOperatorId =>
    if nodeOperatorId.length = 8 then
      .ok (stakingModuleId.toNat, BigEndian.fromBytes nodeOperatorId)
    else .error (.raised (.unexpectedExternalOperatorLength op.data.length))
  | _ => .error (.raised (.unexpectedExternalOperatorLength op.data.length))

def OperatorGroup.hasConnection (group : OperatorGroup) : Bool :=
  0 < group.subNodeOperators.length && 0 < group.externalOperators.length

structure StakingModuleStats where
  stakingModule : StakingModule
  predictableBalance : ℤ := 0
  totalStake : ℚ := 0
  totalWeight : ℚ := 0

structure NodeOperatorStats where
  nodeOperator : NodeOperator
  predictableValidators : ℤ := 0
  predictableBalance : ℤ := 0
  totalStake : ℚ := 0
  internalOperatorGroup : Option OperatorGroup := none
  externalOperatorGroup : Option OperatorGroup := none
  weight : ℚ := 10 * TOTAL_BASIS_POINTS
  forceExitTo : Option ℕ
  softExitTo : Option ℕ

structure ValidatorExitIterator where
  maxCurrentExitBalance : Gwei := 0
  exitLimitInGwei : Gwei := 0
  totalLidoPredictableBalance : ℤ := 0
  moduleStats : Dict StakingModuleId StakingModuleStats := Dict.empty
  nodeOperatorsStats : Dict NodeOperatorGlobalIndex NodeOperatorStats := Dict.empty
  exitableValidators : Dict NodeOperatorGlobalIndex (List LidoValidator) := Dict.empty
  cmV2Id : StakingModuleId := 0

namespace ValidatorExitIterator

def modifyModule (it : ValidatorExitIterator) (id : StakingModuleId)
    (f : StakingModuleStats → StakingModuleStats) : Iter ValidatorExitIterator := do
  let moduleStats ← Py.updateItem it.moduleStats id f
  return { it with moduleStats }

def modifyNodeOperator (it : ValidatorExitIterator) (gid : NodeOperatorGlobalIndex)
    (f : NodeOperatorStats → NodeOperatorStats) : Iter ValidatorExitIterator := do
  let nodeOperatorsStats ← Py.updateItem it.nodeOperatorsStats gid f
  return { it with nodeOperatorsStats }

/-! Iterator initialization -/

def prepareModuleStats (st : StakingState) : Dict StakingModuleId StakingModuleStats :=
  Dict.ofList (st.stakingModules.map fun m => (m.id, { stakingModule := m }))

def initNodeOperatorStats (no : NodeOperator) : NodeOperatorStats where
  nodeOperator := no
  forceExitTo := if no.isTargetLimitActive = .force then some no.targetValidatorsCount else none
  softExitTo := if no.isTargetLimitActive = .soft then some no.targetValidatorsCount else none

def prepareNodeOperatorStats (st : StakingState) : Dict NodeOperatorGlobalIndex NodeOperatorStats :=
  Dict.ofList (st.getLidoNodeOperators.map fun no => (no.globalIndex, initNodeOperatorStats no))

/-- Not on exit, not asked to exit recently, and not a consolidation source -/
def isValidatorExitable (indexes : Dict NodeOperatorGlobalIndex (Finset ValidatorIndex))
    (gid : NodeOperatorGlobalIndex) (validator : LidoValidator) : Iter Bool :=
  if isOnExit validator.toValidator then return false
  else do
    let requested ← Py.getItem indexes gid
    return validator.index ∉ requested && validator.consolidatingAsSource.isNone

def prepareValidatorStats (st : StakingState) :
    Iter (Dict NodeOperatorGlobalIndex (List LidoValidator)) := do
  let recentlyRequestedIndexes ← st.getRecentlyRequestedToExitValidatorsByNodeOperator
  let lidoValidators ← st.getLidoValidatorsByNodeOperators
  lidoValidators.entries.foldlM (fun exitable e => do
    let validators ← Py.filterM (isValidatorExitable recentlyRequestedIndexes e.1) e.2
    return exitable.set e.1 (Sorted.sortedBy (fun v => v.index) validators)) Dict.empty

/-- Count an inbound balance in Lido's total, in the module and in the operator. -/
def addPredictableBalance (it : ValidatorExitIterator) (gid : NodeOperatorGlobalIndex)
    (balance : Gwei) : Iter ValidatorExitIterator := do
  let it := { it with totalLidoPredictableBalance := it.totalLidoPredictableBalance + balance }
  let it ← it.modifyModule gid.1 fun sm =>
    { sm with totalStake := sm.totalStake + balance,
              predictableBalance := sm.predictableBalance + balance }
  it.modifyNodeOperator gid fun no =>
    { no with predictableBalance := no.predictableBalance + balance,
              totalStake := no.totalStake + balance }

def addPredictableValidators (it : ValidatorExitIterator) (gid : NodeOperatorGlobalIndex)
    (count : ℕ) : Iter ValidatorExitIterator :=
  it.modifyNodeOperator gid fun no =>
    { no with predictableValidators := no.predictableValidators + count }

def calculateCurrentClBalance (it : ValidatorExitIterator) : Iter ValidatorExitIterator :=
  it.exitableValidators.entries.foldlM (fun it e => do
    let it ← it.addPredictableValidators e.1 e.2.length
    e.2.foldlM (fun it v => it.addPredictableBalance e.1 (getPredictableInboundBalance v)) it) it

/-- The deposits of a pending validator, capped by the credentials of the first one -/
def pendingPredictableBalance (deposits : List PendingDeposit) : Iter Gwei := do
  let first ← Py.listItem deposits 0
  return min (deposits.map (·.amount)).sum
    (if hasCredentialPrefix first.withdrawalCredentials ETH1_ADDRESS_WITHDRAWAL_PREFIX
      then MAX_EFFECTIVE_BALANCE else MAX_EFFECTIVE_BALANCE_ELECTRA)

def addPendingValidator (smByAddress : Dict ChecksumAddress StakingModule)
    (it : ValidatorExitIterator) (lidoKey : LidoKey) (deposits : List PendingDeposit) :
    Iter ValidatorExitIterator := do
  let sm ← Py.getItem smByAddress lidoKey.moduleAddress
  let predictableBalance ← pendingPredictableBalance deposits
  let gid := (sm.id, lidoKey.operatorIndex)
  let it ← it.addPredictableBalance gid predictableBalance
  it.addPredictableValidators gid 1

def calculatePendingValidatorClBalance (st : StakingState) (it : ValidatorExitIterator) :
    Iter ValidatorExitIterator :=
  st.pendingLidoValidators.values.foldlM
    (fun it p => addPendingValidator st.getStakingModulesByAddress it p.1 p.2) it

def isCuratedModule (st : StakingState) (type : List UInt8) (name : String)
    (module : StakingModuleStats) : Bool :=
  (st.curatedContract module.stakingModule.stakingModuleAddress).getType == type &&
    module.stakingModule.name == name

/-- The one CMv1 module and the one CMv2 module of the staking router -/
def fetchCuratedModules (st : StakingState) (it : ValidatorExitIterator) :
    Iter (StakingModule × StakingModule) :=
  let modules := it.moduleStats.values
  let cmV1Modules := modules.filter (isCuratedModule st CURATED_V1_TYPE CURATED_V1_MODULE_NAME)
  let cmV2Modules := modules.filter (isCuratedModule st CURATED_V2_TYPE CURATED_V2_MODULE_NAME)
  match cmV1Modules, cmV2Modules with
  | [cmV1], [cmV2] => .ok (cmV1.stakingModule, cmV2.stakingModule)
  | cmV1Ids, cmV2Ids => .error (.raised (.invalidCuratedModuleConfigError
      (cmV1Ids.map (·.stakingModule.id)) (cmV2Ids.map (·.stakingModule.id))))

def setupWeights (st : StakingState) (cmV2 : StakingModule) (it : ValidatorExitIterator) :
    Iter ValidatorExitIterator := do
  let contract := st.curatedContract cmV2.stakingModuleAddress
  let noIds := (it.nodeOperatorsStats.values.filter
    fun no => no.nodeOperator.stakingModule.id = cmV2.id).map (·.nodeOperator.id)
  if contract.getNodeOperatorDepositInfoToUpdateCount ≠ 0 then
    throw (.raised (.weightsNotUpdatedError cmV2.id))
  let weights := contract.getOperatorWeights noIds
  noIds.zipIdx.foldlM (fun it (noId, index) => do
    let weight ← Py.listItem weights index
    it.modifyNodeOperator (cmV2.id, noId) fun no => { no with weight := weight }) it

/-- An operator may be linked to a group only once. -/
def checkNotGrouped (it : ValidatorExitIterator) (gid : NodeOperatorGlobalIndex) :
    Iter NodeOperatorStats := do
  let no ← Py.getItem it.nodeOperatorsStats gid
  if no.internalOperatorGroup.isSome || no.externalOperatorGroup.isSome then
    throw (.raised (.nodeOperatorAlreadyGroupedError gid))
  return no

def linkExternalOperator (group : OperatorGroup) (cmV1Id : StakingModuleId)
    (acc : ValidatorExitIterator × List NodeOperatorGlobalIndex × ℤ) (op : ExternalOperator) :
    Iter (ValidatorExitIterator × List NodeOperatorGlobalIndex × ℤ) := do
  let (it, externalGids, externalBalance) := acc
  let gid ← op.getGid
  if gid.1 ≠ cmV1Id then
    throw (.raised (.nodeOperatorExpectedToBeInCMv1Error gid cmV1Id))
  let no ← it.checkNotGrouped gid
  let it ← it.modifyNodeOperator gid fun no => { no with externalOperatorGroup := some group }
  return (it, externalGids ++ [gid], externalBalance + no.predictableBalance)

def linkInternalOperator (group : OperatorGroup) (cmV2Id : StakingModuleId)
    (acc : ValidatorExitIterator × ℚ × ℤ) (op : SubNodeOperator) :
    Iter (ValidatorExitIterator × ℚ × ℤ) := do
  let (it, internalWeight, internalBalance) := acc
  let gid := (cmV2Id, op.nodeOperatorId)
  let no ← it.checkNotGrouped gid
  let it ← it.modifyNodeOperator gid fun no => { no with internalOperatorGroup := some group }
  return (it, internalWeight + no.weight, internalBalance + no.predictableBalance)

/-- An internal operator is charged for its weight's share of the external balance. -/
def spreadExternalBalance (cmV2Id : StakingModuleId) (externalBalance : ℤ) (internalWeight : ℚ)
    (it : ValidatorExitIterator) (op : SubNodeOperator) : Iter ValidatorExitIterator := do
  let gid := (cmV2Id, op.nodeOperatorId)
  let no ← Py.getItem it.nodeOperatorsStats gid
  let share ← Py.trueDiv (externalBalance * no.weight) internalWeight
  it.modifyNodeOperator gid fun no => { no with totalStake := no.totalStake + share }

/-- External operators take even parts of the internal balance and weight. -/
def spreadInternalBalance (internalBalance : ℤ) (internalWeight : ℚ) (externalCount : ℕ)
    (it : ValidatorExitIterator) (gid : NodeOperatorGlobalIndex) : Iter ValidatorExitIterator := do
  let share ← Py.trueDiv internalBalance externalCount
  let it ← it.modifyNodeOperator gid fun no => { no with totalStake := no.totalStake + share }
  let weight ← Py.trueDiv internalWeight externalCount
  it.modifyNodeOperator gid fun no => { no with weight := weight }

def processGroup (cmV1Id cmV2Id : StakingModuleId) (it : ValidatorExitIterator)
    (group : OperatorGroup) : Iter ValidatorExitIterator := do
  let (it, externalGids, externalBalance) ←
    group.externalOperators.foldlM (linkExternalOperator group cmV1Id) (it, [], 0)
  let (it, internalWeight, internalBalance) ←
    group.subNodeOperators.foldlM (linkInternalOperator group cmV2Id) (it, 0, 0)
  -- without a connection there is no stake to share between the two modules
  if !group.hasConnection then return it
  let it ← group.subNodeOperators.foldlM
    (spreadExternalBalance cmV2Id externalBalance internalWeight) it
  let it ← externalGids.foldlM
    (spreadInternalBalance internalBalance internalWeight externalGids.length) it
  let it ← it.modifyModule cmV1Id fun sm => { sm with totalStake := sm.totalStake + internalBalance }
  it.modifyModule cmV2Id fun sm => { sm with totalStake := sm.totalStake + externalBalance }

def setupMetaConnections (st : StakingState) (cmV1 cmV2 : StakingModule)
    (it : ValidatorExitIterator) : Iter ValidatorExitIterator :=
  (st.curatedContract cmV2.stakingModuleAddress).getAllGroups.foldlM
    (processGroup cmV1.id cmV2.id) it

def finalizeCmV1AndCmV2Stats (st : StakingState) (it : ValidatorExitIterator) :
    Iter ValidatorExitIterator := do
  let (cmV1, cmV2) ← fetchCuratedModules st it
  let it ← setupWeights st cmV2 it
  let it ← setupMetaConnections st cmV1 cmV2 it
  return { it with cmV2Id := cmV2.id }

def calculateSmWeights (it : ValidatorExitIterator) : Iter ValidatorExitIterator :=
  it.nodeOperatorsStats.entries.foldlM (fun it e =>
    it.modifyModule e.1.1 fun sm => { sm with totalWeight := sm.totalWeight + e.2.weight }) it

def calculateLidoStats (st : StakingState) (it : ValidatorExitIterator) :
    Iter ValidatorExitIterator := do
  let it ← it.calculateCurrentClBalance
  let it ← calculatePendingValidatorClBalance st it
  let it ← finalizeCmV1AndCmV2Stats st it
  it.calculateSmWeights

/-- The statistics of the current staking state for given exitable validators -/
def calculateFrom (st : StakingState)
    (exitable : Dict NodeOperatorGlobalIndex (List LidoValidator)) : Iter ValidatorExitIterator :=
  calculateLidoStats st
    { moduleStats := prepareModuleStats st,
      nodeOperatorsStats := prepareNodeOperatorStats st,
      exitableValidators := exitable }

/-- `iter(iterator)`: every call starts over from the staking state. -/
def iter (st : StakingState) : Iter ValidatorExitIterator := do
  let exitable ← prepareValidatorStats st
  let it ← calculateFrom st exitable
  return { it with exitLimitInGwei := st.maxBalanceExitRequestedPerReportInEth * 10 ^ 9 }

/-! Ejection -/

/-- An internal operator's exit leaves CMv1 and evenly its external operators. -/
def decreaseExternalStake (exitBalance : Gwei) (group : OperatorGroup)
    (it : ValidatorExitIterator) : Iter ValidatorExitIterator := do
  let first ← Py.listItem group.externalOperators 0
  let firstGid ← first.getGid
  let it ← it.modifyModule firstGid.1 fun sm => { sm with totalStake := sm.totalStake - exitBalance }
  group.externalOperators.foldlM (fun it op => do
    let gid ← op.getGid
    let share ← Py.trueDiv exitBalance group.externalOperators.length
    it.modifyNodeOperator gid fun no => { no with totalStake := no.totalStake - share }) it

/-- An external operator's exit leaves CMv2 and its internal operators by weight. -/
def decreaseInternalStake (exitBalance : Gwei) (group : OperatorGroup)
    (it : ValidatorExitIterator) : Iter ValidatorExitIterator := do
  let cmV2Id := it.cmV2Id
  let it ← it.modifyModule cmV2Id fun sm => { sm with totalStake := sm.totalStake - exitBalance }
  let weights ← group.subNodeOperators.mapM fun op => do
    let no ← Py.getItem it.nodeOperatorsStats (cmV2Id, op.nodeOperatorId)
    return no.weight
  group.subNodeOperators.foldlM (fun it op => do
    let no ← Py.getItem it.nodeOperatorsStats (cmV2Id, op.nodeOperatorId)
    let share ← Py.trueDiv (exitBalance * no.weight) weights.sum
    it.modifyNodeOperator (cmV2Id, op.nodeOperatorId) fun no =>
      { no with totalStake := no.totalStake - share }) it

/-- Run `f` on the operator's group if there is one and it is connected. -/
def ifConnected (group : Option OperatorGroup)
    (f : OperatorGroup → ValidatorExitIterator → Iter ValidatorExitIterator)
    (it : ValidatorExitIterator) : Iter ValidatorExitIterator :=
  match group with
  | some group => if group.hasConnection then f group it else return it
  | none => return it

/-- Take an ejected balance off the stake of the module and the operator, and off
whatever the operator's group had charged for it on the other side. -/
def decreaseAffectedStake (it : ValidatorExitIterator) (gid : NodeOperatorGlobalIndex)
    (exitBalance : Gwei) : Iter ValidatorExitIterator := do
  let it ← it.modifyModule gid.1 fun sm => { sm with totalStake := sm.totalStake - exitBalance }
  let it ← it.modifyNodeOperator gid fun no => { no with totalStake := no.totalStake - exitBalance }
  let no ← Py.getItem it.nodeOperatorsStats gid
  let it ← ifConnected no.internalOperatorGroup (decreaseExternalStake exitBalance) it
  let no ← Py.getItem it.nodeOperatorsStats gid
  ifConnected no.externalOperatorGroup (decreaseInternalStake exitBalance) it

def ejectValidator (it : ValidatorExitIterator) (gid : NodeOperatorGlobalIndex) :
    Iter (LidoValidator × ValidatorExitIterator) := do
  let validators ← Py.getItem it.exitableValidators gid
  match validators with
  | [] => throw .indexError
  | lidoValidator :: rest =>
    let it := { it with exitableValidators := it.exitableValidators.modify gid fun _ => rest }
    let exitBalance := getPredictableInboundBalance lidoValidator
    let it := { it with
      totalLidoPredictableBalance := it.totalLidoPredictableBalance - exitBalance }
    let it ← it.modifyModule gid.1 fun sm =>
      { sm with predictableBalance := sm.predictableBalance - exitBalance }
    let it ← it.modifyNodeOperator gid fun no =>
      { no with predictableValidators := no.predictableValidators - 1,
                predictableBalance := no.predictableBalance - exitBalance }
    let it ← it.decreaseAffectedStake gid exitBalance
    return (lidoValidator, it)

/-! Exit order -/

def getExpectedValidatorsDiff (current : ℤ) (expected : Option ℕ) : ℤ :=
  match expected with
  | some target => if current > target then current - target else 0
  | none => 0

def noForcePredicate (no : NodeOperatorStats) : ℤ :=
  getExpectedValidatorsDiff no.predictableValidators no.forceExitTo

def noSoftPredicate (no : NodeOperatorStats) : ℤ :=
  getExpectedValidatorsDiff no.predictableValidators no.softExitTo

def maxShareRateCoefficientPredicate (it : ValidatorExitIterator) (no : NodeOperatorStats) :
    Iter ℚ := do
  let sm ← Py.getItem it.moduleStats no.nodeOperator.stakingModule.id
  if sm.predictableBalance = 0 then return -2
  let maxShareRate := double (sm.stakingModule.priorityExitShareThreshold / TOTAL_BASIS_POINTS)
  let maxModulePredictableBalance := Py.int (double (maxShareRate * double it.totalLidoPredictableBalance))
  if sm.predictableBalance > maxModulePredictableBalance then
    return (sm.predictableBalance - maxModulePredictableBalance : ℤ)
  let reciprocal ← Py.trueDiv (-1) sm.predictableBalance
  return double reciprocal

/-- Deviation of the operator's stake from its weight's share of the module, in whole Gwei -/
def noTargetBalanceDeviationPredicate (it : ValidatorExitIterator) (no : NodeOperatorStats) :
    Iter ℤ := do
  let sm ← Py.getItem it.moduleStats no.nodeOperator.stakingModule.id
  let targetNoStake ← Py.trueDiv (sm.totalStake * no.weight) sm.totalWeight
  return Py.int (no.totalStake - targetNoStake)

def lowestValidatorIndexPredicate (it : ValidatorExitIterator) (no : NodeOperatorStats) :
    Iter ValidatorIndex := do
  let validators ← Py.getItem it.exitableValidators no.nodeOperator.globalIndex
  return match validators with
    | [] => 0
    | v :: _ => v.index

/-- Sort key of an operator, compared lexicographically -/
abbrev NoKey := ℤ ×ₗ ℤ ×ₗ ℚ ×ₗ ℤ ×ₗ ℕ

def noPredicate (it : ValidatorExitIterator) (no : NodeOperatorStats) : Iter NoKey := do
  let shareRate ← it.maxShareRateCoefficientPredicate no
  let deviation ← it.noTargetBalanceDeviationPredicate no
  let lowestIndex ← it.lowestValidatorIndexPredicate no
  return toLex (-noForcePredicate no, toLex (-noSoftPredicate no,
    toLex (-shareRate, toLex (-deviation, lowestIndex))))

/-- The loop of `__next__` over the operators in exit order; no validator means `StopIteration`. -/
def nextFrom (it : ValidatorExitIterator) :
    List NodeOperatorStats →
      Iter (Option (NodeOperatorGlobalIndex × LidoValidator) × ValidatorExitIterator)
  | [] => return (none, it)
  | no :: rest => do
    let gid := no.nodeOperator.globalIndex
    let exitable ← Py.getItem it.exitableValidators gid
    if exitable.isEmpty then it.nextFrom rest
    else do
      let (v, it) ← it.ejectValidator gid
      let it := { it with
        maxCurrentExitBalance := it.maxCurrentExitBalance + getMaxEffectiveBalance v.validator }
      if it.maxCurrentExitBalance > it.exitLimitInGwei then return (none, it)
      return (some (gid, v), it)

def next (it : ValidatorExitIterator) :
    Iter (Option (NodeOperatorGlobalIndex × LidoValidator) × ValidatorExitIterator) := do
  let operators ← Py.sortedByM it.noPredicate it.nodeOperatorsStats.values
  it.nextFrom operators

def noRemainingForcedPredicate (it : ValidatorExitIterator) (no : NodeOperatorStats) :
    Iter (ℤ ×ₗ ℕ) := do
  let lowestIndex ← it.lowestValidatorIndexPredicate no
  return toLex (-noForcePredicate no, lowestIndex)

/-- What one pass over the sorted operators did -/
inductive ForcedStep where
  /-- nobody is left to force out, or the report is full -/
  | done (it : ValidatorExitIterator)
  | ejected (gid : NodeOperatorGlobalIndex) (v : LidoValidator) (it : ValidatorExitIterator)

def forcedStepFrom (it : ValidatorExitIterator) : List NodeOperatorStats → Iter ForcedStep
  | [] => return .done it
  | no :: rest =>
    if noForcePredicate no = 0 then return .done it
    else do
      let gid := no.nodeOperator.globalIndex
      let exitable ← Py.getItem it.exitableValidators gid
      if exitable.isEmpty then it.forcedStepFrom rest
      else do
        let (v, it) ← it.ejectValidator gid
        let it := { it with
          maxCurrentExitBalance := it.maxCurrentExitBalance + getMaxEffectiveBalance v.validator }
        if it.maxCurrentExitBalance > it.exitLimitInGwei then return .done it
        return .ejected gid v it

def forcedStep (it : ValidatorExitIterator) : Iter ForcedStep := do
  let operators ← Py.sortedByM it.noRemainingForcedPredicate it.nodeOperatorsStats.values
  it.forcedStepFrom operators

/-- Validators that can still be ejected: each pass of a loop below ejects one of them. -/
def exitableCount (it : ValidatorExitIterator) : ℕ :=
  (it.exitableValidators.values.map List.length).sum

/-- The `while True` loop; `none` would mean that the passes granted did not suffice. -/
def forcedLoop : ℕ → ValidatorExitIterator →
    Iter (Option (List (NodeOperatorGlobalIndex × LidoValidator) × ValidatorExitIterator))
  | 0, _ => return none
  | passes + 1, it => do
    match ← it.forcedStep with
    | .done it => return some ([], it)
    | .ejected gid v it => do
      let rest ← forcedLoop passes it
      return rest.map fun r => ((gid, v) :: r.1, r.2)

def getRemainingForcedValidators (it : ValidatorExitIterator) :
    Iter (Option (List (NodeOperatorGlobalIndex × LidoValidator) × ValidatorExitIterator)) :=
  forcedLoop (it.exitableCount + 1) it

end ValidatorExitIterator

end LidoOracle
