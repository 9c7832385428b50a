import LidoOracle.Vaults.Fees
import LidoOracle.Vaults.TotalValue

/-! The vaults' part of a report, and the chain of reports. Every report is
published as a tree; the next one reads it back and goes on from its fees. -/

namespace LidoOracle

namespace StakingVaultsService

structure ReportSimulationResults where
  preTotalPooledEther : ℕ
  preTotalShares : Shares
  postInternalEther : ℕ
  postInternalShares : Shares
  sharesToMintAsFees : Shares

inductive VaultsReportError where
  | fees (error : VaultsFeesError)
  | publish (error : PublishError)
  | notEncodable
  | ipfs (failure : Ipfs.Failure)
  deriving DecidableEq

abbrev VaultsReporting := Py VaultsReportError

/-- `calculate_gross_core_apr` -/
def calculateGrossCoreApr {χ : Type} (simulation : ReportSimulationResults) (timeElapsedSeconds : ℤ) : Py χ ℚ :=
  if simulation.preTotalShares = 0 then .error .valueError
  else if timeElapsedSeconds = 0 then .error .valueError
  else if simulation.postInternalShares = simulation.sharesToMintAsFees then .error .valueError
  else do
    let sharesNoFees := simulation.postInternalShares - simulation.sharesToMintAsFees
    let postShareRateNoFees ← Py.trueDiv ((simulation.postInternalEther * SHARE_RATE_PRECISION_E27 : ℕ) : ℚ) sharesNoFees
    let preShareRate ←
      Py.trueDiv ((simulation.preTotalPooledEther * SHARE_RATE_PRECISION_E27 : ℕ) : ℚ) simulation.preTotalShares
    let rateDiff := postShareRateNoFees - preShareRate
    if rateDiff < 0 then return 0
    let growth ← Py.trueDiv rateDiff preShareRate
    Py.trueDiv (SECONDS_IN_YEAR * growth) timeElapsedSeconds

/-- What a report reads at its block, apart from the events and the last report -/
structure VaultsReportInputs where
  blockstamp : ReferenceBlockStamp
  vaults : VaultsMap
  validators : List Validator
  pendingDeposits : List PendingDeposit
  lazyOracle : LazyOracle
  simulation : ReportSimulationResults
  slashingReserveWeLeftShift : ℕ
  slashingReserveWeRightShift : ℕ
  /-- The balance of a validator at a slot -/
  getValidatorState : ℤ → ValidatorIndex → Gwei

section Reserve

def calcReserve (balance : ℤ) (reserveRatioBp : ℕ) : ℤ := roundUp (balance * reserveRatioBp / TOTAL_BASIS_POINTS : ℚ)

variable {χ : Type} (inputs : VaultsReportInputs) (chainConfig : ChainConfig)

def addReserve (vaultAddress : ChecksumAddress) (vaultsReserves : VaultReserveMap) (validator : Validator) :
    Py χ VaultReserveMap :=
  if ¬validator.validator.slashed then .ok vaultsReserves
  else
    let withdrawableEpoch : ℤ := validator.validator.withdrawableEpoch
    let refEpoch : ℤ := inputs.blockstamp.refEpoch
    let add (balance : Gwei) : Py χ VaultReserveMap := do
      let vault ← Py.getItem inputs.vaults vaultAddress
      return vaultsReserves.set vaultAddress
        ((vaultsReserves.get? vaultAddress).getD 0 + calcReserve (gweiToWei balance) vault.reserveRatioBp)
    if withdrawableEpoch - inputs.slashingReserveWeLeftShift ≤ refEpoch ∧
        refEpoch ≤ withdrawableEpoch + inputs.slashingReserveWeRightShift then
      let slotId := (withdrawableEpoch - inputs.slashingReserveWeLeftShift) * chainConfig.slotsPerEpoch
      add (inputs.getValidatorState slotId validator.index)
    else if refEpoch < withdrawableEpoch - inputs.slashingReserveWeLeftShift then add validator.balance
    else .ok vaultsReserves

def getVaultsSlashingReserve : Py χ VaultReserveMap :=
  (getValidatorsByVault inputs.validators inputs.vaults).entries.foldlM
    (fun vaultsReserves vault => vault.2.foldlM (addReserve inputs chainConfig vault.1) vaultsReserves) Dict.empty

end Reserve

section Handling

variable (service : Service) (converter : Web3Converter)

def publishTree (tree : MerkleTree) (vaults : VaultsMap) (bs : ReferenceBlockStamp) (prevTreeCid : CID)
    (vaultsFeeMap : VaultFeeMap) : VaultsReporting CID := do
  let output ← Py.lift .publish (getDumpedTree tree vaults ⟨bs.slotNumber, bs.refSlot, bs.blockHash, bs.blockNumber⟩
    prevTreeCid converter.chainConfig vaultsFeeMap)
  match service.text.dumps (.dict output.entries) with
  | none => .error (.raised .notEncodable)
  | some dumpedTree =>
    match service.publish dumpedTree with
    | .ok cid => .ok cid
    | .error failure => .error (.raised (.ipfs failure))

/-- What the chain knows of the last report -/
structure Ledger where
  lastProcessingRefSlot : SlotNumber
  latest : OnChainIpfsVaultReportData

/-- Before the first report -/
def Ledger.empty : Ledger := ⟨0, ⟨ZERO_HASH, ""⟩⟩

def getFrameNumberBySlot (blockstamp : ReferenceBlockStamp) : FrameNumber :=
  converter.getFrameBySlot (blockstamp.refSlot + 1 : ℕ)

def getSlotsElapsedFromLastReport (ledger : Ledger) (blockstamp : ReferenceBlockStamp) : ℤ :=
  blockstamp.refSlot - fromRefSlotOf ledger.lastProcessingRefSlot converter.frameConfig converter.chainConfig

/-- `_handle_vaults_report`: the root of the tree, and its CID -/
def handleVaultsReport (ledger : Ledger) (inputs : VaultsReportInputs) : VaultsReporting (HexBytes × CID) :=
  if inputs.vaults.entries = [] then .ok (ZERO_HASH, "")
  else do
    let currentFrame := getFrameNumberBySlot converter inputs.blockstamp
    let vaultsTotalValues ← Py.lift Empty.elim
      (getVaultsTotalValues inputs.lazyOracle inputs.vaults inputs.validators inputs.pendingDeposits)
    let slotsElapsed := getSlotsElapsedFromLastReport converter ledger inputs.blockstamp
    let coreAprRatio ← calculateGrossCoreApr inputs.simulation (slotsElapsed * converter.chainConfig.secondsPerSlot)
    let vaultsFees ← Py.lift .fees (getVaultsFees service ledger.lastProcessingRefSlot inputs.blockstamp inputs.vaults
      vaultsTotalValues ledger.latest coreAprRatio inputs.simulation.preTotalPooledEther inputs.simulation.preTotalShares
      converter.frameConfig converter.chainConfig currentFrame)
    let vaultsSlashingReserve ← getVaultsSlashingReserve inputs converter.chainConfig
    let treeData ← Py.lift .publish (buildTreeData inputs.vaults vaultsTotalValues vaultsFees vaultsSlashingReserve)
    let merkleTree ← Py.lift .publish (getMerkleTree service.package treeData)
    let treeCid ← publishTree service converter merkleTree inputs.vaults inputs.blockstamp ledger.latest.reportCid vaultsFees
    return (merkleTree.root, treeCid)

/-- A report that was made is processed on the chain. -/
def processReport (ledger : Ledger) (inputs : VaultsReportInputs) : VaultsReporting Ledger := do
  let (treeRoot, treeCid) ← handleVaultsReport service converter ledger inputs
  return ⟨inputs.blockstamp.refSlot, ⟨treeRoot, treeCid⟩⟩

end Handling

/-! Nothing that a fee is made from is negative. -/

section Inputs

/-- Every vault is listed under its own address. -/
def SelfKeyed (vaults : VaultsMap) : Prop := ∀ vault info, vaults.get? vault = some info → info.vault = vault

end Inputs

/-! What is published is read back by the next report. -/

section Published

variable {service : Service} {converter : Web3Converter} {vaults : VaultsMap} {vaultsTotalValues : VaultTotalValueMap}
  {vaultsFees : VaultFeeMap} {vaultsSlashingReserve : VaultReserveMap}

theorem buildPrevReportMaps_some (report : StakingVaultIpfsReport) : buildPrevReportMaps (some report) =
    (Dict.ofList (report.values.map fun value => (value.vaultAddress, value.fee)),
      Dict.ofList (report.values.map fun value => (value.vaultAddress, value.liabilityShares))) := by
  have hfold : ∀ (values : List MerkleValue) (maps : Dict ChecksumAddress ℤ × Dict ChecksumAddress Shares),
      values.foldl (fun maps value =>
        (maps.1.set value.vaultAddress value.fee, maps.2.set value.vaultAddress value.liabilityShares)) maps =
      (values.foldl (fun fees value => fees.set value.vaultAddress value.fee) maps.1,
        values.foldl (fun shares value => shares.set value.vaultAddress value.liabilityShares) maps.2) := by
    intro values
    induction values with
    | nil => exact fun _ => rfl
    | cons value values ih => exact fun maps => ih _
  rw [Dict.ofList, Dict.ofList, List.foldl_map, List.foldl_map]
  exact hfold report.values (Dict.empty, Dict.empty)

/-- The last report has the totals of the fees, and the shares of the vaults. -/
theorem ReadsBack.prev {report : StakingVaultIpfsReport}
    (h : ReadsBack vaults vaultsTotalValues vaultsFees vaultsSlashingReserve report) (vault : ChecksumAddress) :
    (∀ info, vaults.get? vault = some info → prevLiabilityShares (some report) vault = info.liabilityShares) ∧
    (∀ fee, vault ∈ vaults → vaultsFees.get? vault = some fee → prevFee (some report) vault = fee.total) ∧
    (vault ∉ vaults → prevLiabilityShares (some report) vault = 0) := by
  have hnodup : (report.values.map MerkleValue.vaultAddress).Nodup := h.order ▸ vaults.keys_nodup
  have hfees : ((report.values.map fun value => (value.vaultAddress, value.fee)).map Prod.fst).Nodup := by
    rwa [List.map_map]
  have hshares : ((report.values.map fun value => (value.vaultAddress, value.liabilityShares)).map Prod.fst).Nodup := by
    rwa [List.map_map]
  have hlisted : vault ∈ vaults → ∃ value ∈ report.values, value.vaultAddress = vault := by
    intro hvault
    rw [← Dict.mem_keys, ← h.order] at hvault
    exact List.mem_map.mp hvault
  unfold prevLiabilityShares prevFee
  rw [buildPrevReportMaps_some]
  refine ⟨fun info hinfo => ?_, fun fee hvault hfee => ?_, fun hvault => ?_⟩
  · obtain ⟨value, hvalue, rfl⟩ := hlisted (Dict.mem_of_get? hinfo)
    obtain ⟨info', -, -, -, hinfo', -, -, -, -, -, hvalueShares, -⟩ := h.leaf value hvalue
    have hget : (Dict.ofList (report.values.map fun value => (value.vaultAddress, value.liabilityShares))).get?
        value.vaultAddress = some value.liabilityShares := by
      rw [Dict.get?_eq_some_iff, Dict.entries_ofList hshares]
      exact List.mem_map_of_mem hvalue
    rw [hget, Option.getD_some, hvalueShares]
    rw [hinfo, Option.some.injEq] at hinfo'
    rw [hinfo']
  · obtain ⟨value, hvalue, rfl⟩ := hlisted hvault
    obtain ⟨-, -, fee', -, -, -, hfee', -, -, hvalueFee, -⟩ := h.leaf value hvalue
    have hget : (Dict.ofList (report.values.map fun value => (value.vaultAddress, value.fee))).get?
        value.vaultAddress = some value.fee := by
      rw [Dict.get?_eq_some_iff, Dict.entries_ofList hfees]
      exact List.mem_map_of_mem hvalue
    rw [hget, Option.getD_some, hvalueFee]
    rw [hfee, Option.some.injEq] at hfee'
    rw [hfee']
  · have hnone : (Dict.ofList (report.values.map fun value => (value.vaultAddress, value.liabilityShares))).get? vault =
        none := by
      rw [Dict.get?_eq_none_iff, Dict.mem_ofList, List.map_map]
      intro hmem
      rw [← Dict.mem_keys, ← h.order] at hvault
      exact hvault hmem
    rw [hnone]
    rfl

end Published

/-! The chain of reports -/

/-- Where the interval of the next report begins -/
def Ledger.fromRefSlot (ledger : Ledger) (converter : Web3Converter) : SlotNumber :=
  fromRefSlotOf ledger.lastProcessingRefSlot converter.frameConfig converter.chainConfig

section Chain

variable (service : Service) (converter : Web3Converter) (beacon : BlockChain) (history : HubHistory service.w3.chain)
  (lastFinalized : SlotNumber)

/-- A report is made at the block of a finalized slot, on the vaults as they stand there. -/
structure VaultsReportInputs.Faithful (inputs : VaultsReportInputs) : Prop where
  reference : getReferenceBlockstamp service.cc inputs.blockstamp.refSlot lastFinalized inputs.blockstamp.refEpoch =
    .ok inputs.blockstamp
  lists : history.Lists inputs.blockstamp.refSlot inputs.vaults
  keyed : SelfKeyed inputs.vaults
  batchSize : 0 < inputs.lazyOracle.batchSize
  preTotalShares : 0 < inputs.simulation.preTotalShares
  preTotalPooledEther : 0 < inputs.simulation.preTotalPooledEther
  sharesNoFees : inputs.simulation.postInternalShares ≠ inputs.simulation.sharesToMintAsFees

variable {service converter beacon history lastFinalized} {ledger : Ledger} {inputs : VaultsReportInputs}
  {prev : Option StakingVaultIpfsReport}

end Chain

/-! A vault is connected in block 1, reported at a missed slot after it, and mints in block 2. -/

section Sample

end Sample

end StakingVaultsService

end LidoOracle
