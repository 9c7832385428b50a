import LidoOracle.Consensus.SlotDelay

/-! Submitting the report data. The consensus is looked at before the wait, and
the chain goes on while the oracle sleeps: each read finds whatever state it has
reached. -/

namespace LidoOracle

/-- Where `_process_report_data` ends -/
inductive ReportDataOutcome where
  | quorumIsNotReady
  | hashDiffers
  | mainDataAlreadySubmitted
  | reportSubmitted
  deriving DecidableEq, Repr

section Process

variable (account : Option ChecksumAddress) (latest : ℕ → ChainView)

/-- The rounds of sleep that are left after the read number `read`, with the outcome and the last read -/
def sleepAndSubmit : (slotsToSleep read : ℕ) → Consensus (ReportDataOutcome × ℕ)
  | 0, read =>
    if (latest read).isMainDataSubmitted then .ok (.mainDataAlreadySubmitted, read) else .ok (.reportSubmitted, read)
  | slotsToSleep + 1, read => do
    let _memberInfo ← getMemberInfo account (latest (read + 1))
    if (latest (read + 1)).isMainDataSubmitted then return (.mainDataAlreadySubmitted, read + 1)
    sleepAndSubmit slotsToSleep (read + 1)

/-- `_process_report_data`, where `latest k` is the chain as the read number `k` of the latest data finds it -/
def processReportData (slotDelayBeforeDataSubmit : ChainView → Consensus ℤ) (reportHash : HexBytes) :
    Consensus (ReportDataOutcome × ℕ) := do
  let memberInfo ← getMemberInfo account (latest 0)
  if memberInfo.currentFrameConsensusReport = ZERO_HASH then return (.quorumIsNotReady, 0)
  if memberInfo.currentFrameConsensusReport ≠ reportHash then return (.hashDiffers, 0)
  if (latest 0).isMainDataSubmitted then return (.mainDataAlreadySubmitted, 0)
  let slotsToSleep ← slotDelayBeforeDataSubmit (latest 0)
  sleepAndSubmit account latest slotsToSleep.toNat 0

/-- The member info on the block shows the hash as the consensus of the current frame. -/
def ShowsConsensus (view : ChainView) (reportHash : HexBytes) : Prop :=
  ∃ memberInfo, getMemberInfo account view = .ok memberInfo ∧ memberInfo.currentFrameConsensusReport = reportHash

/-- The data is submitted only where the last read shows the consensus, and no main data. -/
def SubmitsForConsensus (slotDelayBeforeDataSubmit : ChainView → Consensus ℤ) (reportHash : HexBytes) : Prop :=
  ∀ read, processReportData account latest slotDelayBeforeDataSubmit reportHash = .ok (.reportSubmitted, read) →
    ShowsConsensus account (latest read) reportHash ∧ (latest read).isMainDataSubmitted = false

/-- The read stops the wait: the main data is there, or the account is no member any more. -/
def StopsWait (view : ChainView) : Prop :=
  view.isMainDataSubmitted = true ∨ ∃ error, getMemberInfo account view = .error error

/-- The checks on the first read stop the call, there is nothing to wait for, the wait is stopped, or the
consensus is there at the end of it. -/
def ConsensusKept (slotDelayBeforeDataSubmit : ChainView → Consensus ℤ) (reportHash : HexBytes) : Prop :=
  reportHash = ZERO_HASH ∨ ¬ShowsConsensus account (latest 0) reportHash ∨ StopsWait account (latest 0) ∨
    ∀ delay, slotDelayBeforeDataSubmit (latest 0) = .ok delay → delay ≤ 0 ∨
      (∃ k, 0 < k ∧ k ≤ delay.toNat ∧ StopsWait account (latest k)) ∨
      ShowsConsensus account (latest delay.toNat) reportHash

end Process

section Wait

variable {account : Option ChecksumAddress} {latest : ℕ → ChainView} {slotDelay : ChainView → Consensus ℤ}
  {reportHash : HexBytes}

theorem not_stopsWait_iff {view : ChainView} : ¬StopsWait account view ↔
    view.isMainDataSubmitted = false ∧ ∃ memberInfo, getMemberInfo account view = .ok memberInfo := by
  unfold StopsWait
  rcases getMemberInfo account view with error | memberInfo <;> simp

/-- The data goes out after the whole wait, if no read stops it. -/
theorem sleepAndSubmit_submitted_iff {slotsToSleep read last : ℕ} :
    sleepAndSubmit account latest slotsToSleep read = .ok (.reportSubmitted, last) ↔
      last = read + slotsToSleep ∧ (latest last).isMainDataSubmitted = false ∧
        ∀ k, read < k → k ≤ last → ¬StopsWait account (latest k) := by
  induction slotsToSleep generalizing read with
  | zero =>
    unfold sleepAndSubmit
    rcases hsubmitted : (latest read).isMainDataSubmitted
    · simp only [Bool.false_eq_true, if_false, Except.ok.injEq, Prod.mk.injEq, true_and, Nat.add_zero]
      refine ⟨fun hlast => ⟨hlast.symm, by rw [← hlast, hsubmitted], fun k hlt hle => by omega⟩, fun h => h.1.symm⟩
    · simp only [if_true, Except.ok.injEq, Prod.mk.injEq, reduceCtorEq, false_and, false_iff]
      rintro ⟨hlast, hfalse, -⟩
      rw [hlast, Nat.add_zero, hsubmitted] at hfalse
      cases hfalse
  | succ slotsToSleep ih =>
    by_cases hstops : StopsWait account (latest (read + 1))
    · refine ⟨fun h => ?_, fun ⟨hlast, _, hall⟩ => absurd hstops (hall (read + 1) (by omega) (by omega))⟩
      rcases hstops with hsubmitted | ⟨error, herror⟩
      · rcases hinfo : getMemberInfo account (latest (read + 1)) with error | memberInfo <;>
          simp [sleepAndSubmit, hinfo, hsubmitted, pure, Except.pure] at h
      · simp [sleepAndSubmit, herror] at h
    · obtain ⟨hsubmitted, memberInfo, hinfo⟩ := not_stopsWait_iff.mp hstops
      have hstep : sleepAndSubmit account latest (slotsToSleep + 1) read =
          sleepAndSubmit account latest slotsToSleep (read + 1) := by
        simp [sleepAndSubmit, hinfo, hsubmitted]
      rw [hstep, ih, Nat.add_right_comm]
      refine and_congr_right fun hlast => and_congr_right fun _ => ⟨fun hall k hlt hle => ?_, fun hall k hlt hle => ?_⟩
      · rcases Nat.lt_or_eq_of_le (Nat.succ_le_of_lt hlt) with hlt' | rfl
        · exact hall k hlt' hle
        · exact hstops
      · exact hall k (by omega) hle

/-- What it takes for the data to be submitted -/
theorem processReportData_submitted_iff {last : ℕ} :
    processReportData account latest slotDelay reportHash = .ok (.reportSubmitted, last) ↔
      reportHash ≠ ZERO_HASH ∧ ShowsConsensus account (latest 0) reportHash ∧ ¬StopsWait account (latest 0) ∧
      ∃ delay, slotDelay (latest 0) = .ok delay ∧
        sleepAndSubmit account latest delay.toNat 0 = .ok (.reportSubmitted, last) := by
  rcases hinfo : getMemberInfo account (latest 0) with error | memberInfo
  · simp [processReportData, ShowsConsensus, hinfo]
  · unfold processReportData ShowsConsensus StopsWait
    by_cases hsame : memberInfo.currentFrameConsensusReport = reportHash
    · subst hsame
      rcases hsubmitted : (latest 0).isMainDataSubmitted
      · by_cases hzero : memberInfo.currentFrameConsensusReport = ZERO_HASH
        · simp [hinfo, hzero, pure, Except.pure]
        · simp [hinfo, hzero, Except.bind_eq_ok]
      · by_cases hzero : memberInfo.currentFrameConsensusReport = ZERO_HASH <;>
          simp [hinfo, hzero, pure, Except.pure]
    · by_cases hzero : memberInfo.currentFrameConsensusReport = ZERO_HASH
      · have hother : ZERO_HASH ≠ reportHash := fun h => hsame (hzero.trans h)
        simp [hinfo, hzero, hother, pure, Except.pure]
      · simp [hinfo, hzero, hsame, pure, Except.pure]

/-- The condition under which the consensus is there when the data goes out -/
theorem submitsForConsensus_iff (account : Option ChecksumAddress) (latest : ℕ → ChainView)
    (slotDelay : ChainView → Consensus ℤ) (reportHash : HexBytes) :
    SubmitsForConsensus account latest slotDelay reportHash ↔
      ConsensusKept account latest slotDelay reportHash := by
  unfold SubmitsForConsensus ConsensusKept
  refine ⟨fun h => ?_, fun hkept last hrun => ?_⟩
  · by_cases hguards : reportHash = ZERO_HASH ∨ ¬ShowsConsensus account (latest 0) reportHash ∨
        StopsWait account (latest 0)
    · tauto
    · obtain ⟨hzero, hshows, hgoes⟩ : reportHash ≠ ZERO_HASH ∧ ShowsConsensus account (latest 0) reportHash ∧
        ¬StopsWait account (latest 0) := by tauto
      refine .inr (.inr (.inr fun delay hdelay => ?_))
      by_cases hstops : ∃ k, 0 < k ∧ k ≤ delay.toNat ∧ StopsWait account (latest k)
      · exact .inr (.inl hstops)
      · have hall : ∀ k ≤ delay.toNat, ¬StopsWait account (latest k) := by
          intro k hle hstop
          rcases Nat.eq_zero_or_pos k with rfl | hpos
          · exact hgoes hstop
          · exact hstops ⟨k, hpos, hle, hstop⟩
        have hsleep : sleepAndSubmit account latest delay.toNat 0 = .ok (.reportSubmitted, delay.toNat) :=
          sleepAndSubmit_submitted_iff.mpr ⟨(Nat.zero_add _).symm, (not_stopsWait_iff.mp (hall _ le_rfl)).1,
            fun k _ hle => hall k hle⟩
        exact .inr (.inr (h _ (processReportData_submitted_iff.mpr ⟨hzero, hshows, hgoes, delay, hdelay, hsleep⟩)).1)
  · obtain ⟨hzero, hshows, hgoes, delay, hdelay, hsleep⟩ := processReportData_submitted_iff.mp hrun
    obtain ⟨hlast, hsubmitted, hall⟩ := sleepAndSubmit_submitted_iff.mp hsleep
    rw [Nat.zero_add] at hlast
    subst hlast
    refine ⟨?_, hsubmitted⟩
    rcases hkept with hkept | hkept | hkept | hkept
    · exact absurd hkept hzero
    · exact absurd hshows hkept
    · exact absurd hkept hgoes
    · rcases hkept delay hdelay with hle | ⟨k, hpos, hle, hstops⟩ | hconsensus
      · rwa [Int.toNat_of_nonpos hle]
      · exact absurd hstops (hall k hpos hle)
      · exact hconsensus

end Wait

/-- The chain of one member, whose consensus hash ends in `hash` -/
def soleMemberAt (hash : UInt8) : ChainView where
  slotNumber := 20
  converter := ⟨ChainConfig.oneSlotEpochs, ⟨10, 100, by decide⟩⟩
  members := ["0xA"]
  consensusState _ := some ⟨List.replicate 31 0 ++ [hash], true⟩
  hasSubmitRole _ := false
  isMainDataSubmitted := false

/-- Another hash takes the place of the first one during the wait, and the data is submitted all the same. -/
theorem submits_replacedConsensus :
    let latest : ℕ → ChainView := fun read => if read = 0 then soleMemberAt 1 else soleMemberAt 2
    let reportHash : HexBytes := List.replicate 31 0 ++ [1]
    processReportData (some "0xA") latest (getSlotDelayBeforeDataSubmit 2 (some "0xA")) reportHash =
        .ok (.reportSubmitted, 2) ∧
      ¬SubmitsForConsensus (some "0xA") latest (getSlotDelayBeforeDataSubmit 2 (some "0xA")) reportHash := by
  intro latest reportHash
  have hrun : processReportData (some "0xA") latest (getSlotDelayBeforeDataSubmit 2 (some "0xA")) reportHash =
      .ok (.reportSubmitted, 2) := by decide +kernel
  refine ⟨hrun, fun h => ?_⟩
  obtain ⟨⟨memberInfo, hinfo, hhash⟩, -⟩ := h 2 hrun
  obtain rfl := Except.ok.inj hinfo
  exact absurd hhash (by decide)

end LidoOracle
