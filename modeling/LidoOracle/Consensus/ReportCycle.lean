import LidoOracle.Consensus.NonMissedSlot
import LidoOracle.Consensus.ReportData
import LidoOracle.Lib.Interaction

/-! The cycle of a member of the committee, up to the submission of the report
data. The chain goes on while a cycle runs: every read of the latest block finds
another state, and the transactions of the other members come in between. -/

namespace LidoOracle

inductive ReportError where
  | isNotMember
  | slot (error : SlotError)
  | incompatibleOracleVersion
  | contractVersionMismatch
  | reportNotBuilt
  deriving DecidableEq, Repr

abbrev Reporting := Py ReportError

def ConsensusError.toReportError : ConsensusError → ReportError
  | .isNotMember => .isNotMember

structure CurrentFrame where
  refSlot : SlotNumber
  reportProcessingDeadlineSlot : SlotNumber

/-- What the oracle reads of `getConsensusStateForMember`, for the whole cycle -/
structure MemberState extends ConsensusState where
  isFastLane : Bool
  currentFrameMemberReport : HexBytes

/-- The answers of the contracts at a block. The calls that have nothing revert before the initial epoch. -/
structure ReportView where
  slotNumber : SlotNumber
  converter : Web3Converter
  fastLaneLengthSlots : ℕ
  members : List ChecksumAddress
  currentFrame : Option CurrentFrame
  memberState : ChecksumAddress → Option MemberState
  hasSubmitRole : ChecksumAddress → Bool
  lastProcessingRefSlot : SlotNumber
  contractVersion : ℕ
  consensusVersion : ℕ

inductive Transaction (Report : Type) where
  | submitReport (refSlot : SlotNumber) (reportHash : HexBytes) (consensusVersion : ℕ)
  | submitReportData (report : Report) (contractVersion : ℕ)

structure FrameMemberInfo extends MemberInfo where
  isFastLane : Bool
  fastLaneLengthSlot : ℕ
  currentFrameRefSlot : SlotNumber
  deadlineSlot : SlotNumber
  currentFrameMemberReport : HexBytes

namespace ReportView

variable (view : ReportView)

/-- Before the initial epoch the frame is the first one; its reference slot ends the frame before it. -/
def getInitialOrCurrentFrame : CurrentFrame :=
  view.currentFrame.getD
    { refSlot := (view.converter.getFrameLastSlot (-1)).toNat,
      reportProcessingDeadlineSlot := (view.converter.getFrameLastSlot 0).toNat }

/-- What the block says about the submission of the data -/
def toChainView (isMainDataSubmitted : Bool) : ChainView where
  slotNumber := view.slotNumber
  converter := view.converter
  members := view.members
  consensusState address := (view.memberState address).map (·.toConsensusState)
  hasSubmitRole := view.hasSubmitRole
  isMainDataSubmitted := isMainDataSubmitted

/-- The account is `none` in dry mode. -/
def getMemberInfo (account : Option ChecksumAddress) (isMainDataSubmitted : Bool) : Consensus FrameMemberInfo := do
  let currentFrame := view.getInitialOrCurrentFrame
  let memberInfo ← LidoOracle.getMemberInfo account (view.toChainView isMainDataSubmitted)
  let memberState := account.bind view.memberState
  return { memberInfo with
    isFastLane := (memberState.map (·.isFastLane)).getD true,
    fastLaneLengthSlot := view.fastLaneLengthSlots,
    currentFrameRefSlot := currentFrame.refSlot,
    deadlineSlot := currentFrame.reportProcessingDeadlineSlot,
    currentFrameMemberReport := (memberState.map (·.currentFrameMemberReport)).getD ZERO_HASH }

end ReportView

/-! What the oracle of the staking modules fills in -/

namespace SMPerformanceOracle

def isMainDataSubmitted (view : ReportView) : Bool :=
  view.lastProcessingRefSlot == view.getInitialOrCurrentFrame.refSlot

def isContractReportable (view : ReportView) : Bool := !isMainDataSubmitted view

end SMPerformanceOracle

abbrev Cycle (Report α : Type) := Program ReportView (Transaction Report) (PyError ReportError) α

/-- The daemon of a member, with the methods that its oracle module fills in, its consensus node, and what it reads at
blocks that are finalized -/
structure ConsensusModule (Report : Type) where
  account : Option ChecksumAddress
  cc : ConsensusClient
  converterAt : BlockStamp → Web3Converter
  contractVersionAt : ReferenceBlockStamp → ℕ
  consensusVersionAt : ReferenceBlockStamp → ℕ
  submitDataDelayInSlots : ℤ
  compatibleContractVersion : ℕ
  compatibleConsensusVersion : ℕ
  encodeDataHash : Report → HexBytes
  buildReport : ReferenceBlockStamp → Reporting Report
  isMainDataSubmitted : ReportView → Bool
  isContractReportable : ReportView → Bool
  isReportingAllowed : ReferenceBlockStamp → Reporting Bool

namespace ConsensusModule

variable {Report : Type} (m : ConsensusModule Report)

/-- The block as the model of the submission reads it -/
def chainView (view : ReportView) : ChainView := view.toChainView (m.isMainDataSubmitted view)

def getLatestData : Cycle Report (ReportView × FrameMemberInfo) := do
  let latestBlockstamp ← Program.latest
  let memberInfo ← Program.ofExcept (Py.lift ConsensusError.toReportError
    (latestBlockstamp.getMemberInfo m.account (m.isMainDataSubmitted latestBlockstamp)))
  return (latestBlockstamp, memberInfo)

/-- Nothing is sent in dry mode. -/
def checkAndSendTransaction (transaction : Transaction Report) : Cycle Report Unit :=
  if m.account.isSome then Program.perform transaction else pure ()

def getBlockstampForReport (lastFinalizedBlockstamp : BlockStamp) : Cycle Report (Option ReferenceBlockStamp) := do
  let (latestBlockstamp, memberInfo) ← m.getLatestData
  if ¬m.isContractReportable latestBlockstamp then return none
  else if lastFinalizedBlockstamp.slotNumber < memberInfo.currentFrameRefSlot then return none
  else if latestBlockstamp.slotNumber ≥ memberInfo.deadlineSlot then return none
  else
    let converter := m.converterAt lastFinalizedBlockstamp
    let bs ← Program.ofExcept (Py.lift ReportError.slot (getReferenceBlockstamp m.cc memberInfo.currentFrameRefSlot
      lastFinalizedBlockstamp.slotNumber (converter.getEpochBySlot memberInfo.currentFrameRefSlot).toNat))
    return some bs

def checkCompatibility (blockstamp : ReferenceBlockStamp) : Cycle Report Bool := do
  let contractVersion := m.contractVersionAt blockstamp
  let consensusVersion := m.consensusVersionAt blockstamp
  if ¬(contractVersion ≤ m.compatibleContractVersion ∧ consensusVersion ≤ m.compatibleConsensusVersion) then
    Program.raised (.raised .incompatibleOracleVersion)
  else
    let contractVersionLatest := (← Program.latest).contractVersion
    let consensusVersionLatest := (← Program.latest).consensusVersion
    if contractVersion ≠ contractVersionLatest ∨ consensusVersion ≠ consensusVersionLatest then
      Program.raised (.raised .contractVersionMismatch)
    else
      return decide (contractVersion = m.compatibleContractVersion ∧ consensusVersion = m.compatibleConsensusVersion)

def sendReportHash (blockstamp : ReferenceBlockStamp) (reportHash : HexBytes) (consensusVersion : ℕ) :
    Cycle Report Unit :=
  m.checkAndSendTransaction (.submitReport blockstamp.refSlot reportHash consensusVersion)

def processReportHash (blockstamp : ReferenceBlockStamp) (reportHash : HexBytes) : Cycle Report Unit := do
  let (latestBlockstamp, memberInfo) ← m.getLatestData
  if ¬memberInfo.isReportMember then return
  else if memberInfo.currentFrameMemberReport = reportHash then return
  else if ¬memberInfo.isFastLane ∧
      latestBlockstamp.slotNumber < memberInfo.currentFrameRefSlot + memberInfo.fastLaneLengthSlot then return
  else if ¬memberInfo.isFastLane ∧ memberInfo.currentFrameConsensusReport = reportHash then return
  else m.sendReportHash blockstamp reportHash m.compatibleConsensusVersion

def submitReport (report : Report) (contractVersion : ℕ) : Cycle Report Unit :=
  m.checkAndSendTransaction (.submitReportData report contractVersion)

/-- The rounds of sleep that are left, from the latest block that was read -/
def sleepAndSubmit (reportData : Report) : (slotsToSleep : ℕ) → ReportView → Cycle Report Unit
  | 0, latestBlockstamp =>
    if m.isMainDataSubmitted latestBlockstamp then return
    else m.submitReport reportData m.compatibleContractVersion
  | slotsToSleep + 1, _ => do
    let (latestBlockstamp, _) ← m.getLatestData
    if m.isMainDataSubmitted latestBlockstamp then return
    else sleepAndSubmit reportData slotsToSleep latestBlockstamp

/-- The wait before a submission, by the order of the members -/
def slotDelay (view : ReportView) : Consensus ℤ :=
  getSlotDelayBeforeDataSubmit m.submitDataDelayInSlots m.account (m.chainView view)

def processReportData (reportData : Report) (reportHash : HexBytes) : Cycle Report Unit := do
  let (latestBlockstamp, memberInfo) ← m.getLatestData
  if memberInfo.currentFrameConsensusReport = ZERO_HASH then return
  else if memberInfo.currentFrameConsensusReport ≠ reportHash then return
  else if m.isMainDataSubmitted latestBlockstamp then return
  else
    let slotsToSleep ← Program.ofExcept (Py.lift ConsensusError.toReportError (m.slotDelay latestBlockstamp))
    m.sleepAndSubmit reportData slotsToSleep.toNat latestBlockstamp

def processReport (blockstamp : ReferenceBlockStamp) : Cycle Report Unit := do
  let reportData ← Program.ofExcept (m.buildReport blockstamp)
  let reportHash := m.encodeDataHash reportData
  if ¬(← Program.ofExcept (m.isReportingAllowed blockstamp)) then return
  else
    m.processReportHash blockstamp reportHash
    m.processReportData reportData reportHash

/-- `execute_module` of the oracles, as far as they share it -/
def executeModule (lastFinalizedBlockstamp : BlockStamp) : Cycle Report Unit := do
  match ← m.getBlockstampForReport lastFinalizedBlockstamp with
  | none => return
  | some reportBlockstamp =>
    if ¬(← m.checkCompatibility reportBlockstamp) then return
    else m.processReport reportBlockstamp

/-! What a cycle may send -/

section Meets

open Program

variable {m} {P : Transaction Report → Prop}

@[simp] theorem meets_getLatestData {Q : ReportView × FrameMemberInfo → Prop} : m.getLatestData.Meets P Q ↔
    ∀ view info, view.getMemberInfo m.account (m.isMainDataSubmitted view) = .ok info → Q (view, info) := by
  simp only [getLatestData, meets_bind, latest, meets_ofExcept, Meets]
  refine forall_congr' fun view => ?_
  rcases view.getMemberInfo m.account (m.isMainDataSubmitted view) with error | info <;> simp [Py.lift]

theorem meets_checkAndSendTransaction {transaction : Transaction Report} (h : P transaction) :
    (m.checkAndSendTransaction transaction).Meets P fun _ => True := by
  unfold checkAndSendTransaction
  split
  · exact ⟨h, trivial⟩
  · trivial

theorem meets_processReportHash {blockstamp : ReferenceBlockStamp} {reportHash : HexBytes}
    (h : ∀ version, P (.submitReport blockstamp.refSlot reportHash version)) :
    (m.processReportHash blockstamp reportHash).Meets P fun _ => True := by
  simp only [processReportHash, meets_bind, meets_getLatestData]
  intro view info _
  split_ifs
  · trivial
  · trivial
  · trivial
  · exact meets_checkAndSendTransaction (h _)
  · trivial

theorem meets_sleepAndSubmit {reportData : Report} (h : ∀ version, P (.submitReportData reportData version))
    (slotsToSleep : ℕ) (view : ReportView) :
    (m.sleepAndSubmit reportData slotsToSleep view).Meets P fun _ => True := by
  induction slotsToSleep generalizing view with
  | zero =>
    unfold sleepAndSubmit
    split_ifs
    · trivial
    · exact meets_checkAndSendTransaction (h _)
  | succ slotsToSleep ih =>
    simp only [sleepAndSubmit, meets_bind, meets_getLatestData]
    intro latest info _
    split_ifs
    · trivial
    · exact ih latest

theorem meets_processReportData {reportData : Report} {reportHash : HexBytes}
    (h : ∀ version, P (.submitReportData reportData version)) :
    (m.processReportData reportData reportHash).Meets P fun _ => True := by
  simp only [processReportData, meets_bind, meets_getLatestData]
  intro view info _
  split_ifs
  · trivial
  · trivial
  · trivial
  · simp only [meets_bind, meets_ofExcept]
    exact fun delay _ => meets_sleepAndSubmit h delay.toNat view

/-- A cycle sends the report that it built, and its hash for the slot of the block it built it on. -/
theorem meets_processReport {blockstamp : ReferenceBlockStamp}
    (h : ∀ report, m.buildReport blockstamp = .ok report → ∀ version, P (.submitReportData report version) ∧
      P (.submitReport blockstamp.refSlot (m.encodeDataHash report) version)) :
    (m.processReport blockstamp).Meets P fun _ => True := by
  simp only [processReport, meets_bind, meets_ofExcept]
  intro report hreport allowed _
  split_ifs
  · rw [meets_bind]
    exact (meets_processReportHash fun version => (h report hreport version).2).mono
      fun _ _ => meets_processReportData fun version => (h report hreport version).1
  · trivial

theorem meets_getBlockstampForReport {lastFinalized : BlockStamp} {Q : Option ReferenceBlockStamp → Prop}
    (hnone : Q none) (hsome : ∀ refSlot stamp, getReferenceBlockstamp m.cc refSlot lastFinalized.slotNumber
      ((m.converterAt lastFinalized).getEpochBySlot refSlot).toNat = .ok stamp → Q (some stamp)) :
    (m.getBlockstampForReport lastFinalized).Meets P Q := by
  simp only [getBlockstampForReport, meets_bind, meets_getLatestData]
  intro view info _
  split_ifs
  · exact hnone
  · exact hnone
  · simp only [meets_bind, meets_ofExcept]
    intro stamp hstamp
    rcases hread : getReferenceBlockstamp m.cc info.currentFrameRefSlot lastFinalized.slotNumber
      ((m.converterAt lastFinalized).getEpochBySlot info.currentFrameRefSlot).toNat with error | found
    · simp [hread, Py.lift] at hstamp
    · rw [hread, Py.lift, Except.ok.injEq] at hstamp
      subst hstamp
      exact hsome _ _ hread
  · exact hnone

theorem meets_checkCompatibility {blockstamp : ReferenceBlockStamp} :
    (m.checkCompatibility blockstamp).Meets P fun _ => True := by
  unfold checkCompatibility
  dsimp only
  split_ifs
  · simp only [latest_bind_eq, meets_read]
    intro view view'
    split_ifs
    · trivial
    · trivial
  · trivial

/-- Whatever a cycle reads, it reports on the block of one reference slot. -/
theorem meets_executeModule {lastFinalized : BlockStamp}
    (h : ∀ refSlot stamp, getReferenceBlockstamp m.cc refSlot lastFinalized.slotNumber
      ((m.converterAt lastFinalized).getEpochBySlot refSlot).toNat = .ok stamp →
      ∀ report, m.buildReport stamp = .ok report → ∀ version, P (.submitReportData report version) ∧
        P (.submitReport stamp.refSlot (m.encodeDataHash report) version)) :
    (m.executeModule lastFinalized).Meets P fun _ => True := by
  rw [executeModule, meets_bind]
  refine meets_getBlockstampForReport trivial fun refSlot stamp hstamp => ?_
  simp only [meets_bind]
  refine meets_checkCompatibility.mono fun compatible _ => ?_
  split_ifs
  · exact meets_processReport (h refSlot stamp hstamp)
  · trivial

end Meets

/-! The submission of the data is the one that is described by the reads of the latest data. -/

section Follow

open Program

variable {m} {views : ℕ → ReportView} {reportData : Report} {reportHash : HexBytes}

variable (m) in
/-- What the call raises and sends. The data goes out after the last read. -/
def sends (reportData : Report) : Consensus (ReportDataOutcome × ℕ) →
    Except (PyError ReportError) Unit × List (Transaction Report × ℕ)
  | .error error => (.error (error.map ConsensusError.toReportError), [])
  | .ok (.reportSubmitted, last) =>
    (.ok (), if m.account.isSome then [(.submitReportData reportData m.compatibleContractVersion, last + 1)] else [])
  | .ok _ => (.ok (), [])

theorem follow_getLatestData_ok {memberInfo : MemberInfo} {k : ℕ}
    (hinfo : LidoOracle.getMemberInfo m.account (m.chainView (views k)) = .ok memberInfo)
    (f : ReportView × FrameMemberInfo → Cycle Report Unit) :
    ∃ info : FrameMemberInfo, info.toMemberInfo = memberInfo ∧
      (m.getLatestData >>= f).follow views k = (f (views k, info)).follow views (k + 1) := by
  have hread : ∃ info : FrameMemberInfo, info.toMemberInfo = memberInfo ∧
      (views k).getMemberInfo m.account (m.isMainDataSubmitted (views k)) = .ok info := by
    unfold chainView at hinfo
    rw [ReportView.getMemberInfo, hinfo]
    exact ⟨_, rfl, rfl⟩
  obtain ⟨info, hsame, hread⟩ := hread
  refine ⟨info, hsame, ?_⟩
  change ((Program.ofExcept _ >>= fun info => pure (views k, info)) >>= f).follow views (k + 1) = _
  rw [hread]
  rfl

theorem follow_getLatestData_error {error : PyError ConsensusError} {k : ℕ}
    (hinfo : LidoOracle.getMemberInfo m.account (m.chainView (views k)) = .error error)
    (f : ReportView × FrameMemberInfo → Cycle Report Unit) :
    (m.getLatestData >>= f).follow views k = (.error (error.map ConsensusError.toReportError), []) := by
  have hread : (views k).getMemberInfo m.account (m.isMainDataSubmitted (views k)) = .error error := by
    unfold chainView at hinfo
    rw [ReportView.getMemberInfo, hinfo]
    rfl
  change ((Program.ofExcept _ >>= fun info => pure (views k, info)) >>= f).follow views (k + 1) = _
  rw [hread]
  rfl

theorem follow_submitReport (read : ℕ) :
    (m.submitReport reportData m.compatibleContractVersion).follow views (read + 1) =
      m.sends reportData (.ok (.reportSubmitted, read)) := by
  unfold submitReport checkAndSendTransaction sends
  split_ifs <;> rfl

theorem follow_sleepAndSubmit (slotsToSleep read : ℕ) :
    (m.sleepAndSubmit reportData slotsToSleep (views read)).follow views (read + 1) = m.sends reportData
      (LidoOracle.sleepAndSubmit m.account (fun k => m.chainView (views k)) slotsToSleep read) := by
  induction slotsToSleep generalizing read with
  | zero =>
    change (if m.isMainDataSubmitted (views read) then _ else _ : Cycle Report Unit).follow views (read + 1) =
      m.sends reportData (if m.isMainDataSubmitted (views read) then _ else _)
    split_ifs
    · rfl
    · exact follow_submitReport read
  | succ slotsToSleep ih =>
    rw [sleepAndSubmit, LidoOracle.sleepAndSubmit]
    rcases hinfo : LidoOracle.getMemberInfo m.account (m.chainView (views (read + 1))) with error | memberInfo
    · exact follow_getLatestData_error hinfo _
    · obtain ⟨info, -, hfollow⟩ := follow_getLatestData_ok hinfo _
      rw [hfollow]
      change (if m.isMainDataSubmitted (views (read + 1)) then _ else _ : Cycle Report Unit).follow views _ =
        m.sends reportData (if m.isMainDataSubmitted (views (read + 1)) then _ else _)
      split_ifs
      · rfl
      · exact ih (read + 1)

theorem follow_processReportData : (m.processReportData reportData reportHash).follow views 0 = m.sends reportData
    (LidoOracle.processReportData m.account (fun k => m.chainView (views k))
      (getSlotDelayBeforeDataSubmit m.submitDataDelayInSlots m.account) reportHash) := by
  rw [processReportData, LidoOracle.processReportData]
  rcases hinfo : LidoOracle.getMemberInfo m.account (m.chainView (views 0)) with error | memberInfo
  · exact follow_getLatestData_error hinfo _
  · obtain ⟨info, rfl, hfollow⟩ := follow_getLatestData_ok hinfo _
    rw [hfollow, Except.ok_bind]
    have hsubmitted : (m.chainView (views 0)).isMainDataSubmitted = m.isMainDataSubmitted (views 0) := rfl
    simp only [hsubmitted]
    split_ifs
    · rfl
    · rfl
    · rfl
    · rcases hdelay : getSlotDelayBeforeDataSubmit m.submitDataDelayInSlots m.account (m.chainView (views 0)) with
        error | delay
      · rw [slotDelay, hdelay]
        rfl
      · rw [slotDelay, hdelay, Except.ok_bind, Py.lift, ofExcept_ok_bind]
        exact follow_sleepAndSubmit delay.toNat 0

end Follow

end ConsensusModule

end LidoOracle
