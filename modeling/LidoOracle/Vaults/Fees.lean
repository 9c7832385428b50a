import LidoOracle.Consensus.NonMissedSlot
import LidoOracle.Ipfs.Fallback
import LidoOracle.Vaults.HubEvents
import LidoOracle.Vaults.IpfsReport

/-! The fees of all vaults in a report. They go on from the fees of the report
before it, which is fetched and checked, over the events since the block it was
made for; a vault must have owed at that block what that report says. -/

namespace LidoOracle

/-! The block of a slot, and the window between two slots -/

/-- Every block of the beacon chain carries an execution block, and every execution block is carried by one. -/
structure BlockChain.Executes (beacon : BlockChain) (chain : ExecutionChain) : Prop where
  carries : ∀ s block, beacon.blockAt s = some block → block.blockNumber ≤ chain.head ∧ chain.slot block.blockNumber = s
  carried : ∀ n ≤ chain.head, ∃ block, beacon.blockAt (chain.slot n) = some block ∧ block.blockNumber = n

section Chain

variable {beacon : BlockChain} {chain : ExecutionChain} {slot : ℕ} {block : Block}

/-- Blocks up to the latest one of a slot are those that sit at the slot or before it. -/
theorem BlockChain.Executes.le_iff (h : BlockChain.Executes beacon chain) (hlatest : beacon.LatestBefore (slot + 1) block)
    {n : ℕ} (hn : n ≤ chain.head) : n ≤ block.blockNumber ↔ chain.slot n ≤ slot := by
  obtain ⟨hhead, hslot⟩ := h.carries _ _ hlatest.present
  constructor
  · intro hle
    have hslots := ExecutionChain.slot_add_le hle hhead
    rw [hslot] at hslots
    exact (Nat.le_of_add_right_le hslots).trans (Nat.lt_succ_iff.mp hlatest.before)
  · intro hle
    by_contra hlt
    obtain ⟨later, hlater, -⟩ := h.carried n hn
    have hbefore := hlatest.latest (chain.slot n) (Nat.lt_succ_iff.mpr hle) (by rw [hlater]; rfl)
    have hslots := chain.slot_lt (not_le.mp hlt) hn
    rw [hslot] at hslots
    exact absurd hslots (not_lt.mpr hbefore)

end Chain

namespace StakingVaultsService

structure OnChainIpfsVaultReportData where
  treeRoot : List UInt8
  reportCid : CID

inductive VaultsFeesError where
  | ipfs (failure : Ipfs.Failure)
  | parse (error : ParseError)
  | publish (error : PublishError)
  | slot (error : SlotError)
  | events (error : EventsError)
  | rpc (error : RpcError)
  | fee (error : FeeError)
  | invalidTreeRoot (expected actual : String)
  | negativeReportInterval (currentRefSlotTimestamp prevRefSlotTimestamp : ℤ)
  | wrongLiabilityShares (vaultAddress : ChecksumAddress) (actual expected : Shares)
  deriving DecidableEq

abbrev VaultsFees := Py VaultsFeesError

/-- What the service reads from, and where it publishes -/
structure Service where
  cc : ConsensusClient
  w3 : ExecutionClient
  blockBatchSizeLimit : ℤ
  vaultHub : VaultHubContract
  package : TreePackage
  text : Json.Text
  fetch : CID → FrameNumber → Except Ipfs.Failure (List UInt8)
  publish : List UInt8 → Except Ipfs.Failure CID

/-- `value.to_integral_value(ROUND_UP)`: away from zero -/
def roundUp (value : ℚ) : ℤ := if 0 ≤ value then ⌈value⌉ else ⌊value⌋

def getReportTimestamp (refSlot : SlotNumber) (chainConfig : ChainConfig) : ℤ :=
  chainConfig.genesisTime + refSlot * chainConfig.secondsPerSlot

namespace Service

variable (service : Service)

def getVaultReport (treeCid : CID) (currentFrame : FrameNumber) : VaultsFees StakingVaultIpfsReport :=
  match service.fetch treeCid currentFrame with
  | .ok bb => Py.lift .parse (parseMerkleTreeData service.package service.text bb)
  | .error failure => .error (.raised (.ipfs failure))

def getIpfsReport (ipfsReportCid : CID) (currentFrame : FrameNumber) : VaultsFees StakingVaultIpfsReport :=
  if ipfsReportCid = "" then .error .valueError else service.getVaultReport ipfsReportCid currentFrame

def getPrevVaultIpfsReport (latestOnchainIpfsReportData : OnChainIpfsVaultReportData) (currentFrame : FrameNumber) :
    VaultsFees (Option StakingVaultIpfsReport) :=
  if latestOnchainIpfsReportData.reportCid = "" then .ok none
  else do
    let prevIpfsReport ← service.getIpfsReport latestOnchainIpfsReportData.reportCid currentFrame
    let treeRootHex := treeEncoder latestOnchainIpfsReportData.treeRoot
    let valid ← Py.lift .publish (isTreeRootValid service.package treeRootHex prevIpfsReport)
    if ¬valid then throw (.raised (.invalidTreeRoot treeRootHex (prevIpfsReport.tree.headD "")))
    return some prevIpfsReport

end Service

/-- Fees and liability shares of the last report -/
def buildPrevReportMaps (prevIpfsReport : Option StakingVaultIpfsReport) :
    Dict ChecksumAddress ℤ × Dict ChecksumAddress Shares :=
  match prevIpfsReport with
  | none => (Dict.empty, Dict.empty)
  | some report => report.values.foldl (fun maps vault =>
      (maps.1.set vault.vaultAddress vault.fee, maps.2.set vault.vaultAddress vault.liabilityShares))
      (Dict.empty, Dict.empty)

/-- The slot that events and time are counted from -/
def fromRefSlotOf (lastProcessingRefSlot : SlotNumber) (frameConfig : FrameConfig) (chainConfig : ChainConfig) :
    SlotNumber :=
  if lastProcessingRefSlot = 0 then
    let potentialPrevRefSlot : ℤ :=
      ((frameConfig.initialEpoch : ℤ) - frameConfig.epochsPerFrame) * chainConfig.slotsPerEpoch - 1
    (max potentialPrevRefSlot 0).toNat
  else lastProcessingRefSlot

/-- What the loop over the vaults reads -/
structure Interval where
  prevFeeMap : Dict ChecksumAddress ℤ
  prevLiabilitySharesMap : Dict ChecksumAddress Shares
  events : VaultEvents
  connectedVaultsSet : List ChecksumAddress
  blockTimestamps : Dict BlockNumber ℤ
  prevRefSlotTimestamp : ℤ
  currentRefSlotTimestamp : ℤ

section Loop

variable (interval : Interval) (vaultsTotalValues : VaultTotalValueMap) (coreAprRatio : ℚ) (preTotalPooledEther : ℕ)
  (preTotalShares : Shares)

/-- The body of the loop over the vaults. A vault that was connected starts a new lifecycle from zero. -/
def vaultFee (vault : ChecksumAddress × VaultInfo) : VaultsFees VaultFee := do
  let connected := vault.1 ∈ interval.connectedVaultsSet
  let prevLiabilityShares := if connected then 0 else (interval.prevLiabilitySharesMap.get? vault.1).getD 0
  let prevFee := if connected then 0 else (interval.prevFeeMap.get? vault.1).getD 0
  let vaultEvents := (interval.events.get? vault.1).getD []
  let vaultsTotalValue := (vaultsTotalValues.get? vault.1).getD 0
  let (vaultInfrastructureFee, vaultReservationLiquidityFee, vaultLiquidityFee, vaultLiabilityShares) ← Py.lift .fee
    (calculateVaultFeeComponents preTotalPooledEther preTotalShares coreAprRatio vault.1 interval.prevRefSlotTimestamp
      interval.blockTimestamps vault.2 vaultsTotalValue vaultEvents
      (interval.currentRefSlotTimestamp - interval.prevRefSlotTimestamp) interval.currentRefSlotTimestamp)
  if prevLiabilityShares ≠ vaultLiabilityShares then
    throw (.raised (.wrongLiabilityShares vault.1 vaultLiabilityShares prevLiabilityShares))
  return {
    prevFee := prevFee
    infraFee := roundUp vaultInfrastructureFee
    reservationFee := roundUp vaultReservationLiquidityFee
    liquidityFee := roundUp vaultLiquidityFee }

/-- `out[vault_address] = VaultFee(…)` -/
def addVaultFee (out : VaultFeeMap) (vault : ChecksumAddress × VaultInfo) : VaultsFees VaultFeeMap := do
  let fee ← vaultFee interval vaultsTotalValues coreAprRatio preTotalPooledEther preTotalShares vault
  return out.set vault.1 fee

end Loop

def eventBlockNumbers (events : VaultEvents) : Finset BlockNumber :=
  (events.values.flatten.map VaultEventType.blockNumber).toFinset

def getVaultsFees (service : Service) (lastProcessingRefSlot : SlotNumber) (blockstamp : ReferenceBlockStamp)
    (vaults : VaultsMap) (vaultsTotalValues : VaultTotalValueMap)
    (latestOnchainIpfsReportData : OnChainIpfsVaultReportData) (coreAprRatio : ℚ) (preTotalPooledEther : ℕ)
    (preTotalShares : Shares) (frameConfig : FrameConfig) (chainConfig : ChainConfig) (currentFrame : FrameNumber) :
    VaultsFees VaultFeeMap := do
  let prevIpfsReport ← service.getPrevVaultIpfsReport latestOnchainIpfsReportData currentFrame
  let fromRefSlot := fromRefSlotOf lastProcessingRefSlot frameConfig chainConfig
  let prevReport ← Py.lift .slot (getBlockstamp service.cc fromRefSlot blockstamp.slotNumber)
  -- Do not include events from last block of last frame
  let (events, connectedVaultsSet) ← Py.lift .events
    (getVaultEventsForFees service.vaultHub (prevReport.blockNumber + 1) blockstamp.blockNumber)
  let currentRefSlotTimestamp := getReportTimestamp blockstamp.refSlot chainConfig
  let prevRefSlotTimestamp := getReportTimestamp fromRefSlot chainConfig
  if currentRefSlotTimestamp - prevRefSlotTimestamp < 0 then
    throw (.raised (.negativeReportInterval currentRefSlotTimestamp prevRefSlotTimestamp))
  let (prevFeeMap, prevLiabilitySharesMap) := buildPrevReportMaps prevIpfsReport
  let blockTimestamps ← Py.lift .rpc (service.w3.getBlockTimestamps service.blockBatchSizeLimit
    (eventBlockNumbers events) chainConfig.secondsPerSlot)
  let interval : Interval := {
    prevFeeMap, prevLiabilitySharesMap, events, connectedVaultsSet, blockTimestamps, prevRefSlotTimestamp,
    currentRefSlotTimestamp }
  vaults.entries.foldlM (addVaultFee interval vaultsTotalValues coreAprRatio preTotalPooledEther preTotalShares)
    Dict.empty

theorem inRange_eq_window {beacon : BlockChain} {chain : ExecutionChain} {first last : ℕ} {prevBlock block : Block}
    (h : BlockChain.Executes beacon chain) (history : HubHistory chain)
    (hprev : beacon.LatestBefore (first + 1) prevBlock) (hlatest : beacon.LatestBefore (last + 1) block) :
    inRange (history.changes.map Prod.fst) (prevBlock.blockNumber + 1) block.blockNumber =
      (history.windowOf first last).map Prod.fst := by
  unfold inRange HubHistory.windowOf Timeline.window
  rw [List.filter_map]
  refine congrArg (List.map Prod.fst) (List.filter_congr fun change hchange => decide_eq_decide.mpr ?_)
  have hhead := history.onChain change hchange
  rw [Nat.succ_le_iff, ← not_le, h.le_iff hprev hhead, h.le_iff hlatest hhead, not_le]
  rfl

/-! One vault over a window -/

section Window

variable {chain : ExecutionChain} {history : HubHistory chain} {first last : ℕ} {vault : ChecksumAddress}

end Window

section Fee

variable (preTotalPooledEther : ℕ) (preTotalShares : Shares) (coreAprRatio : ℚ)

variable {chain : ExecutionChain} (history : HubHistory chain) (vault : ChecksumAddress) (first last : SlotNumber)

variable {preTotalPooledEther preTotalShares coreAprRatio history vault first last}

end Fee

/-! All vaults of a report -/

section Report

/-- A slot that resolves is finalized. -/
theorem le_of_getPrevNonMissedSlot {cc : ConsensusClient} {slot lastFinalized : SlotNumber} {details : BlockDetails}
    (h : cc.getPrevNonMissedSlot slot lastFinalized = .ok details) : slot ≤ lastFinalized := by
  by_contra hlt
  unfold ConsensusClient.getPrevNonMissedSlot ConsensusClient.getNonMissedSlotHeader at h
  rw [if_pos (not_le.mp hlt)] at h
  cases h

/-- The nodes serve one chain up to a finalized slot, and the events of the hub on it. -/
structure Service.Follows (service : Service) (beacon : BlockChain) (history : HubHistory service.w3.chain)
    (chainConfig : ChainConfig) (lastFinalized : SlotNumber) : Prop where
  serves : service.cc.Serves beacon lastFinalized
  executes : beacon.Executes service.w3.chain
  returns : service.vaultHub.Returns (history.changes.map Prod.fst)
  genesisTime : chainConfig.genesisTime = service.w3.chain.genesisTime
  secondsPerSlot : chainConfig.secondsPerSlot = service.w3.chain.secondsPerSlot

/-- What the hub lists at a slot: the vaults as they stand. A vault that it does not list owes nothing. -/
structure HubHistory.Lists {chain : ExecutionChain} (history : HubHistory chain) (slot : SlotNumber) (vaults : VaultsMap) :
    Prop where
  listed : ∀ vault info, vaults.get? vault = some info →
    info.liabilityShares = (history.stateAt slot vault).liabilityShares ∧
      info.liquidityFeeBp = (history.stateAt slot vault).liquidityFee
  unlisted : ∀ vault, vault ∉ vaults → (history.stateAt slot vault).liabilityShares = 0

/-- The shares that the last report has for a vault -/
def prevLiabilityShares (prevIpfsReport : Option StakingVaultIpfsReport) (vault : ChecksumAddress) : Shares :=
  ((buildPrevReportMaps prevIpfsReport).2.get? vault).getD 0

/-- The fee that the last report has for a vault -/
def prevFee (prevIpfsReport : Option StakingVaultIpfsReport) (vault : ChecksumAddress) : ℤ :=
  ((buildPrevReportMaps prevIpfsReport).1.get? vault).getD 0

variable {service : Service} {beacon : BlockChain} {history : HubHistory service.w3.chain} {chainConfig : ChainConfig}
  {lastFinalized first last : SlotNumber} {refEpoch : EpochNumber} {blockstamp : ReferenceBlockStamp}

/-- The blocks of both ends of an interval -/
theorem Service.Follows.blocks (h : service.Follows beacon history chainConfig lastFinalized)
    (hreference : getReferenceBlockstamp service.cc last lastFinalized refEpoch = .ok blockstamp)
    (hstart : ∃ s ≤ first, (beacon.blockAt s).isSome) (hsome : beacon.SomeBlock (first + 1) last) :
    ∃ prevReport, getBlockstamp service.cc first blockstamp.slotNumber = .ok prevReport ∧ blockstamp.refSlot = last ∧
      first ≤ last ∧ prevReport.blockNumber + 1 ≤ blockstamp.blockNumber ∧
      inRange (history.changes.map Prod.fst) (prevReport.blockNumber + 1) blockstamp.blockNumber =
        (history.windowOf first last).map Prod.fst := by
  obtain ⟨details, hdetails, hstamp⟩ := Except.bind_eq_ok.mp hreference
  obtain ⟨block, hblock, rfl⟩ := h.serves.latest_of_ok hdetails
  rw [Except.pure_eq_ok] at hstamp
  subst hstamp
  obtain ⟨s, hfirst, hlast, hs⟩ := hsome
  have hafter : first + 1 ≤ block.slot := hfirst.trans (hblock.latest s (Nat.lt_succ_iff.mpr hlast) hs)
  have hfinal : block.slot ≤ lastFinalized :=
    (Nat.lt_succ_iff.mp hblock.before).trans (le_of_getPrevNonMissedSlot hdetails)
  have hserves : service.cc.Serves beacon block.slot := {
    header := fun s hs => h.serves.header s (hs.trans hfinal)
    missed := fun s hs => h.serves.missed s (hs.trans hfinal)
    details := fun s hs => h.serves.details s (hs.trans hfinal)
    blockRoot := fun s hs => h.serves.blockRoot s (hs.trans hfinal) }
  have hsearch : beacon.SomeBlock first block.slot :=
    ⟨block.slot, (Nat.le_succ first).trans hafter, le_rfl, by rw [hblock.present]; rfl⟩
  rcases ConsensusClient.getPrevNonMissedSlot_of_someBlock hserves hsearch with ⟨prevBlock, hprev, hfound⟩ | ⟨hnone, -⟩
  · have hle := h.executes.le_iff hprev (h.executes.carries _ _ hblock.present).1
    rw [(h.executes.carries _ _ hblock.present).2] at hle
    refine ⟨buildBlockstamp prevBlock.toBlockDetails, ?_, rfl, ?_, ?_, inRange_eq_window h.executes history hprev hblock⟩
    · have hslot : (buildReferenceBlockstamp block.toBlockDetails last refEpoch).slotNumber = block.slot := rfl
      rw [getBlockstamp, hslot, hfound]
      rfl
    · exact (Nat.le_succ first).trans (hfirst.trans hlast)
    · exact not_le.mp (mt hle.mp (not_le.mpr hafter))
  · obtain ⟨s, hs, hisSome⟩ := hstart
    rw [hnone s hs] at hisSome
    cases hisSome

end Report

end StakingVaultsService

end LidoOracle
