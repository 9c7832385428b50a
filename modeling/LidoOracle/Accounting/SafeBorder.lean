import LidoOracle.Consensus.NonMissedSlot
import LidoOracle.Consensus.Web3Converter
import LidoOracle.Lib.BinarySearch

/-! The border that slashings set to the finalization of withdrawal requests. The
epoch of a slashing is known from the withdrawable epoch, unless the exit queue
has moved the two epochs together; then the flags at the ends of past frames are
searched for the first frame with a slashing. -/

namespace LidoOracle

inductive SafeBorderError where
  | wrongExitPeriod
  | slot (error : SlotError)
  deriving DecidableEq, Repr

abbrev Bordering := Py SafeBorderError

def filterSlashedValidators (validators : List Validator) : List Validator :=
  validators.filter fun v => v.validator.slashed

def filterNonWithdrawableValidators (slashedValidators : List Validator) (epoch : EpochNumber) : List Validator :=
  slashedValidators.filter fun v => epoch < v.validator.withdrawableEpoch

/-- The service, with what it reads from the contracts at its own block -/
structure SafeBorder where
  converter : Web3Converter
  blockstamp : ReferenceBlockStamp
  cc : ConsensusClient
  getActiveLidoValidators : BlockStamp → List Validator
  requestTimestampMargin : ℕ
  lastFinalizedRequestId : ℕ
  withdrawalTimestamp : ℕ → ℤ

namespace SafeBorder

/-- `None` where the slashing cannot be told from the exit -/
def predictEarliestSlashedEpoch (validator : Validator) : Bordering (Option ℤ) := do
  let exitEpoch : ℤ := validator.validator.exitEpoch
  let withdrawableEpoch : ℤ := validator.validator.withdrawableEpoch
  let exitedPeriod := withdrawableEpoch - exitEpoch
  if exitedPeriod < MIN_VALIDATOR_WITHDRAWABILITY_DELAY then throw (.raised .wrongExitPeriod)
  if exitedPeriod = MIN_VALIDATOR_WITHDRAWABILITY_DELAY then return none
  return some (withdrawableEpoch - EPOCHS_PER_SLASHINGS_VECTOR)

variable (border : SafeBorder)

def finalizationDefaultShift : ℤ :=
  ⌈(border.requestTimestampMargin : ℚ) /
    (border.converter.chainConfig.slotsPerEpoch * border.converter.chainConfig.secondsPerSlot : ℕ)⌉

def getDefaultRequestsBorderEpoch : ℤ := border.blockstamp.refEpoch - border.finalizationDefaultShift

def roundEpochByFrame (epoch : ℤ) : ℤ :=
  border.converter.getFrameByEpoch epoch * border.converter.frameConfig.epochsPerFrame +
    border.converter.frameConfig.initialEpoch

/-- Request 0 stands for none. -/
def getLastFinalizedWithdrawalRequestEpoch : ℤ :=
  if border.lastFinalizedRequestId = 0 then 0
  else border.converter.getEpochByTimestamp (border.withdrawalTimestamp border.lastFinalizedRequestId)

/-- Whether one of the validators is slashed at the end of a frame -/
def slashingsInFrame (slashedPubkeys : List HexStr) (frame : FrameNumber) : Bordering Bool := do
  let lastSlotInFrame := border.converter.getFrameLastSlot frame
  let lastSlotInFrameBlockstamp ← Py.lift SafeBorderError.slot
    (getBlockstamp border.cc lastSlotInFrame.toNat border.blockstamp.refSlot)
  let lidoValidators := border.getActiveLidoValidators lastSlotInFrameBlockstamp
  let slashedValidators := filterSlashedValidators
    (lidoValidators.filter fun v => v.validator.pubkey ∈ slashedPubkeys)
  return decide (slashedValidators.length > 0)

/-- The first epoch of the frame that was found, and the frames that were probed for it -/
def findEarliestSlashedEpochRoundedToFrame (validators : List Validator) : Bordering (ℤ × List FrameNumber) := do
  let lastFinalizedRequestIdEpoch := border.getLastFinalizedWithdrawalRequestEpoch
  let earliestActivationEpoch ← Py.minOf (validators.map fun v => (v.validator.activationEpoch : ℤ))
  let startEpoch := max lastFinalizedRequestIdEpoch earliestActivationEpoch
  let withdrawableEpoch ← Py.minOf (validators.map fun v => (v.validator.withdrawableEpoch : ℤ))
  let maxPossibleEarliestSlashedEpoch := withdrawableEpoch - EPOCHS_PER_SLASHINGS_VECTOR
  let endEpoch := min (border.blockstamp.refEpoch : ℤ) maxPossibleEarliestSlashedEpoch
  let startFrame := border.converter.getFrameByEpoch startEpoch
  let endFrame := border.converter.getFrameByEpoch endEpoch
  let slashedPubkeys := validators.map fun v => v.validator.pubkey
  let (startFrame, probes) ← BinarySearch.firstTrue (border.slashingsInFrame slashedPubkeys) startFrame endFrame
  let slotNumber := border.converter.getFrameFirstSlot startFrame
  return (border.converter.getEpochBySlot slotNumber, probes)

/-- The loop over the validators: the least predicted epoch, or the search as soon as one has none -/
def earliestPredicted (validators : List Validator) : List Validator → Option ℤ → Bordering (Option ℤ)
  | [], earliestPredictedEpoch => return earliestPredictedEpoch
  | validator :: rest, earliestPredictedEpoch => do
    let predictedEpoch ← predictEarliestSlashedEpoch validator
    match Py.truthy predictedEpoch with
    | none => do
      let (epoch, _) ← border.findEarliestSlashedEpochRoundedToFrame validators
      return some epoch
    | some predictedEpoch =>
      match Py.truthy earliestPredictedEpoch with
      | none => earliestPredicted validators rest (some predictedEpoch)
      | some earliest =>
        if earliest > predictedEpoch then earliestPredicted validators rest (some predictedEpoch)
        else earliestPredicted validators rest earliestPredictedEpoch

/-- The slashed Lido validators that are not withdrawable at the reference epoch -/
def incompleteSlashings : List Validator :=
  filterNonWithdrawableValidators
    (filterSlashedValidators (border.getActiveLidoValidators border.blockstamp.toBlockStamp))
    border.blockstamp.refEpoch

def getEarliestSlashedEpochAmongIncompleteSlashings : Bordering (Option ℤ) :=
  let validatorsSlashedNonWithdrawable := border.incompleteSlashings
  if validatorsSlashedNonWithdrawable = [] then return none
  else border.earliestPredicted validatorsSlashedNonWithdrawable validatorsSlashedNonWithdrawable none

def getAssociatedSlashingsBorderEpoch : Bordering ℤ := do
  let earliestSlashedEpoch ← border.getEarliestSlashedEpochAmongIncompleteSlashings
  match Py.truthy earliestSlashedEpoch with
  | some earliestSlashedEpoch =>
    return border.roundEpochByFrame earliestSlashedEpoch - border.finalizationDefaultShift
  | none => return border.getDefaultRequestsBorderEpoch

/-! The slashings behind the flags -/

/-- The epoch of a validator's slashing, which happened in slot `slashedAt` of its key -/
def slashedEpoch (slashedAt : HexStr → SlotNumber) (validator : Validator) : ℤ :=
  border.converter.getEpochBySlot (slashedAt validator.validator.pubkey)

/-- A history of the chain: slashings stand in blocks, the flag is permanent, and the epochs of a slashed validator
are set by its slashing. -/
structure SlashingHistory (chain : BlockChain) (slashedAt : HexStr → SlotNumber) (validators : List Validator) :
    Prop where
  refEpoch_eq : (border.blockstamp.refEpoch : ℤ) = border.converter.getEpochBySlot border.blockstamp.refSlot
  serves : border.cc.Serves chain border.blockstamp.refSlot
  genesis : (chain.blockAt 0).isSome
  included : ∀ v ∈ validators, slashedAt v.validator.pubkey ≤ border.blockstamp.refSlot ∧
    (chain.blockAt (slashedAt v.validator.pubkey)).isSome
  permanent : ∀ block, chain.blockAt block.slot = some block → block.slot ≤ border.blockstamp.refSlot →
    ∀ v ∈ validators,
      (∃ u ∈ border.getActiveLidoValidators (buildBlockstamp block.toBlockDetails),
        u.validator.pubkey = v.validator.pubkey ∧ u.validator.slashed = true) ↔
      slashedAt v.validator.pubkey ≤ block.slot
  activation : ∀ v ∈ validators, (v.validator.activationEpoch : ℤ) ≤ border.slashedEpoch slashedAt v
  withdrawable : ∀ v ∈ validators,
    border.slashedEpoch slashedAt v + EPOCHS_PER_SLASHINGS_VECTOR ≤ v.validator.withdrawableEpoch
  delay : ∀ v ∈ validators,
    v.validator.exitEpoch + MIN_VALIDATOR_WITHDRAWABILITY_DELAY ≤ v.validator.withdrawableEpoch
  exact : ∀ v ∈ validators,
    v.validator.exitEpoch + MIN_VALIDATOR_WITHDRAWABILITY_DELAY < v.validator.withdrawableEpoch →
    (v.validator.withdrawableEpoch : ℤ) = border.slashedEpoch slashedAt v + EPOCHS_PER_SLASHINGS_VECTOR

/-- The frame of the earliest slashing -/
def SlashingFrame (slashedAt : HexStr → SlotNumber) (validators : List Validator) (frame : FrameNumber) : Prop :=
  ∃ epoch : ℤ, IsLeast {e | ∃ v ∈ validators, border.slashedEpoch slashedAt v = e} epoch ∧
    border.converter.getFrameByEpoch epoch = frame

/-- The frame of the later of the last finalized request and the earliest activation -/
def StartFrame (validators : List Validator) (frame : FrameNumber) : Prop :=
  ∃ activation : ℤ, IsLeast {e | ∃ v ∈ validators, (v.validator.activationEpoch : ℤ) = e} activation ∧
    border.converter.getFrameByEpoch (max border.getLastFinalizedWithdrawalRequestEpoch activation) = frame

/-- The frame of the earlier of the reference epoch and the last epoch that the earliest slashing can have had -/
def StopFrame (validators : List Validator) (frame : FrameNumber) : Prop :=
  ∃ withdrawable : ℤ, IsLeast {e | ∃ v ∈ validators, (v.validator.withdrawableEpoch : ℤ) = e} withdrawable ∧
    border.converter.getFrameByEpoch
      (min (border.blockstamp.refEpoch : ℤ) (withdrawable - EPOCHS_PER_SLASHINGS_VECTOR)) = frame

/-- Between the end of a frame and the reference slot there is a block, from which the node finds the blockstamp for
the end of the frame. -/
def Resolves (chain : BlockChain) (frame : FrameNumber) : Prop :=
  chain.SomeBlock (border.converter.getFrameLastSlot frame).toNat border.blockstamp.refSlot

/-! One probe -/

variable {border} {chain : BlockChain} {slashedAt : HexStr → SlotNumber} {validators : List Validator}
  {slashing start stop : FrameNumber}

theorem pos_slashedValidators {pubkeys : List HexStr} {lidoValidators : List Validator} :
    0 < (filterSlashedValidators (lidoValidators.filter fun v => v.validator.pubkey ∈ pubkeys)).length ↔
      ∃ u ∈ lidoValidators, u.validator.pubkey ∈ pubkeys ∧ u.validator.slashed = true := by
  rw [filterSlashedValidators, List.length_pos_iff_exists_mem]
  simp only [List.mem_filter, decide_eq_true_eq]
  exact ⟨fun ⟨u, hu⟩ => ⟨u, hu.1.1, hu.1.2, hu.2⟩, fun ⟨u, hu⟩ => ⟨u, ⟨hu.1, hu.2.1⟩, hu.2.2⟩⟩

/-- A slot resolves to the latest block up to it. -/
theorem SlashingHistory.getBlockstamp_eq (h : border.SlashingHistory chain slashedAt validators) {slot : ℕ}
    (hsome : chain.SomeBlock slot border.blockstamp.refSlot) :
    ∃ block, chain.LatestBefore (slot + 1) block ∧
      getBlockstamp border.cc slot border.blockstamp.refSlot = .ok (buildBlockstamp block.toBlockDetails) := by
  rcases ConsensusClient.getPrevNonMissedSlot_of_someBlock h.serves hsome with ⟨block, hlatest, hok⟩ | ⟨hnone, -⟩
  · refine ⟨block, hlatest, ?_⟩
    rw [getBlockstamp, hok]
    rfl
  · have hgenesis := h.genesis
    rw [hnone 0 (Nat.zero_le _)] at hgenesis
    cases hgenesis

/-- The flags at a slot tell whether some slashing happened up to it. -/
theorem SlashingHistory.flags (h : border.SlashingHistory chain slashedAt validators) {slot : ℕ} {block : Block}
    (hslot : slot ≤ border.blockstamp.refSlot) (hlatest : chain.LatestBefore (slot + 1) block) :
    (∃ u ∈ border.getActiveLidoValidators (buildBlockstamp block.toBlockDetails),
      u.validator.pubkey ∈ validators.map (fun v => v.validator.pubkey) ∧ u.validator.slashed = true) ↔
      ∃ v ∈ validators, slashedAt v.validator.pubkey ≤ slot := by
  have hbefore : block.slot ≤ slot := Nat.le_of_lt_succ hlatest.before
  have hpermanent := h.permanent block hlatest.present (hbefore.trans hslot)
  refine ⟨fun hflag => ?_, fun hslashed => ?_⟩
  · obtain ⟨u, hu, hpubkey, hslashed⟩ := hflag
    obtain ⟨v, hv, hvu⟩ := List.mem_map.mp hpubkey
    exact ⟨v, hv, ((hpermanent v hv).mp ⟨u, hu, hvu.symm, hslashed⟩).trans hbefore⟩
  · obtain ⟨v, hv, hle⟩ := hslashed
    have hin : slashedAt v.validator.pubkey ≤ block.slot :=
      hlatest.latest _ (Nat.lt_succ_of_le hle) (h.included v hv).2
    obtain ⟨u, hu, hpubkey, hflag⟩ := (hpermanent v hv).mpr hin
    exact ⟨u, hu, List.mem_map.mpr ⟨v, hv, hpubkey.symm⟩, hflag⟩

/-- Some slashing happened up to the end of a frame exactly from the frame of the earliest one on. -/
theorem SlashingFrame.le_iff (hslashing : border.SlashingFrame slashedAt validators slashing) (frame : FrameNumber) :
    (∃ v ∈ validators, (slashedAt v.validator.pubkey : ℤ) ≤ border.converter.getFrameLastSlot frame) ↔
      slashing ≤ frame := by
  simp only [Web3Converter.le_getFrameLastSlot_iff]
  obtain ⟨epoch, ⟨⟨v, hv, rfl⟩, hleast⟩, rfl⟩ := hslashing
  refine ⟨fun hsome => ?_, fun hle => ⟨v, hv, hle⟩⟩
  obtain ⟨u, hu, hle⟩ := hsome
  exact (Web3Converter.getFrameByEpoch_mono (hleast ⟨u, hu, rfl⟩)).trans hle

theorem slashingsInFrame_eq (h : border.SlashingHistory chain slashedAt validators)
    (hslashing : border.SlashingFrame slashedAt validators slashing) {frame : FrameNumber}
    (hfrom : 0 ≤ border.converter.getFrameLastSlot frame)
    (hto : border.converter.getFrameLastSlot frame ≤ border.blockstamp.refSlot) :
    (border.Resolves chain frame →
      border.slashingsInFrame (validators.map fun v => v.validator.pubkey) frame = .ok (decide (slashing ≤ frame))) ∧
    (¬border.Resolves chain frame →
      border.slashingsInFrame (validators.map fun v => v.validator.pubkey) frame =
        .error (.raised (.slot .noSlotsAvailable))) := by
  obtain ⟨slot, hslot⟩ := Int.eq_ofNat_of_zero_le hfrom
  have hle : slot ≤ border.blockstamp.refSlot := by
    rw [hslot] at hto
    exact Int.ofNat_le.mp hto
  have hnat : (border.converter.getFrameLastSlot frame).toNat = slot := by rw [hslot, Int.toNat_natCast]
  unfold Resolves
  rw [slashingsInFrame, hnat]
  refine ⟨fun hsome => ?_, fun hnone => ?_⟩
  · obtain ⟨block, hlatest, hstamp⟩ := h.getBlockstamp_eq hsome
    have hflags := h.flags hle hlatest
    rw [hstamp]
    refine congrArg Except.ok (decide_eq_decide.mpr ?_)
    rw [gt_iff_lt, pos_slashedValidators, hflags, ← hslashing.le_iff frame, hslot]
    simp only [Int.ofNat_le]
  · have hnoSlots := ConsensusClient.getPrevNonMissedSlot_none h.serves hle hnone
    rw [getBlockstamp, hnoSlots]
    rfl

/-! The search over the frames -/

/-- The search ends no earlier than the earliest slashing. -/
theorem SlashingHistory.slashing_le_stop (h : border.SlashingHistory chain slashedAt validators)
    (hslashing : border.SlashingFrame slashedAt validators slashing) (hstop : border.StopFrame validators stop) :
    slashing ≤ stop := by
  obtain ⟨epoch, ⟨⟨v, hv, rfl⟩, hleast⟩, rfl⟩ := hslashing
  obtain ⟨withdrawable, ⟨⟨u, hu, rfl⟩, -⟩, rfl⟩ := hstop
  refine Web3Converter.getFrameByEpoch_mono (le_min ?_ ?_)
  · rw [h.refEpoch_eq]
    exact Web3Converter.getEpochBySlot_mono (Int.ofNat_le.mpr (h.included v hv).1)
  · have hearliest := hleast ⟨u, hu, rfl⟩
    have hwithdrawable := h.withdrawable u hu
    omega

/-- The frames of the search end between the first slot of the chain and the reference slot. -/
theorem SlashingHistory.frame_within (h : border.SlashingHistory chain slashedAt validators)
    (hstart : border.StartFrame validators start) (hstop : border.StopFrame validators stop) {frame : FrameNumber}
    (hfrom : start ≤ frame) (hto : frame < stop) :
    0 ≤ border.converter.getFrameLastSlot frame ∧
      border.converter.getFrameLastSlot frame ≤ border.blockstamp.refSlot := by
  obtain ⟨activation, ⟨⟨v, hv, hactivation⟩, -⟩, rfl⟩ := hstart
  obtain ⟨withdrawable, -, rfl⟩ := hstop
  refine ⟨Web3Converter.le_getFrameLastSlot_iff.mpr (le_trans (Web3Converter.getFrameByEpoch_mono ?_) hfrom), ?_⟩
  · have hzero : border.converter.getEpochBySlot 0 = 0 := Int.zero_fdiv _
    rw [hzero, ← hactivation]
    exact le_max_of_le_right (Int.natCast_nonneg _)
  · refine le_of_not_ge fun hge => ?_
    have hframe := Web3Converter.le_getFrameLastSlot_iff.mp hge
    rw [Web3Converter.getFrameBySlot, ← h.refEpoch_eq] at hframe
    exact absurd (hto.trans_le (Web3Converter.getFrameByEpoch_mono (min_le_left _ _))) (not_lt.mpr hframe)

theorem findEarliestSlashedEpoch_eq (hstart : border.StartFrame validators start)
    (hstop : border.StopFrame validators stop) :
    border.findEarliestSlashedEpochRoundedToFrame validators =
      (BinarySearch.firstTrue (border.slashingsInFrame (validators.map fun v => v.validator.pubkey)) start stop >>=
        fun found => .ok (border.converter.frameFirstEpoch found.1, found.2)) := by
  obtain ⟨activation, hactivation, rfl⟩ := hstart
  obtain ⟨withdrawable, hwithdrawable, rfl⟩ := hstop
  have hminActivation : (Py.minOf (validators.map fun v => (v.validator.activationEpoch : ℤ)) : Bordering ℤ) =
      .ok activation := Py.minOf_eq (by simpa only [List.mem_map] using hactivation)
  have hminWithdrawable : (Py.minOf (validators.map fun v => (v.validator.withdrawableEpoch : ℤ)) : Bordering ℤ) =
      .ok withdrawable := Py.minOf_eq (by simpa only [List.mem_map] using hwithdrawable)
  rw [findEarliestSlashedEpochRoundedToFrame, hminActivation, Except.ok_bind, hminWithdrawable, Except.ok_bind]
  simp only [Web3Converter.getEpochBySlot_frameFirstSlot]
  rfl

variable (border chain) in
/-- Every frame that the search comes by resolves. -/
def SearchResolves (slashing start stop : FrameNumber) : Prop :=
  ∀ frame ∈ BinarySearch.visits slashing start stop, border.Resolves chain frame

section Search

variable (h : border.SlashingHistory chain slashedAt validators)
  (hslashing : border.SlashingFrame slashedAt validators slashing) (hstart : border.StartFrame validators start)
  (hstop : border.StopFrame validators stop)
include h hslashing hstart hstop

/-- The search finds the frame of the earliest slashing, or starts after it, and looks at the ends of past frames
only. -/
theorem findEarliestSlashedEpoch_ok (hresolves : border.SearchResolves chain slashing start stop) :
    ∃ probes, border.findEarliestSlashedEpochRoundedToFrame validators =
        .ok (border.converter.frameFirstEpoch (max slashing start), probes) ∧
      ∀ frame ∈ probes, border.converter.getFrameLastSlot frame ≤ border.blockstamp.refSlot := by
  have hwithin : ∀ frame ∈ BinarySearch.visits slashing start stop, 0 ≤ border.converter.getFrameLastSlot frame ∧
      border.converter.getFrameLastSlot frame ≤ border.blockstamp.refSlot := fun frame hframe =>
    h.frame_within hstart hstop (BinarySearch.mem_visits hframe).1 (BinarySearch.mem_visits hframe).2
  have hsearch := BinarySearch.firstTrue_threshold fun frame hframe =>
    (slashingsInFrame_eq h hslashing (hwithin frame hframe).1 (hwithin frame hframe).2).1 (hresolves frame hframe)
  rw [min_eq_left (h.slashing_le_stop hslashing hstop), max_comm] at hsearch
  refine ⟨BinarySearch.visits slashing start stop, ?_, fun frame hframe => (hwithin frame hframe).2⟩
  rw [findEarliestSlashedEpoch_eq hstart hstop, hsearch]
  rfl

/-- Where a frame does not resolve, the search ends there. -/
theorem findEarliestSlashedEpoch_error (hresolves : ¬border.SearchResolves chain slashing start stop) :
    border.findEarliestSlashedEpochRoundedToFrame validators = .error (.raised (.slot .noSlotsAvailable)) := by
  unfold SearchResolves at hresolves
  push Not at hresolves
  obtain ⟨missed, hvisited, hmissed⟩ := hresolves
  have hprobe : ∀ frame ∈ BinarySearch.visits slashing start stop, _ ∧ _ := fun frame hframe =>
    have hwithin := h.frame_within hstart hstop (BinarySearch.mem_visits hframe).1 (BinarySearch.mem_visits hframe).2
    slashingsInFrame_eq h hslashing hwithin.1 hwithin.2
  have htest : ∀ frame ∈ BinarySearch.visits slashing start stop,
      border.slashingsInFrame (validators.map fun v => v.validator.pubkey) frame = .ok (decide (slashing ≤ frame)) ∨
      border.slashingsInFrame (validators.map fun v => v.validator.pubkey) frame =
        .error (.raised (.slot .noSlotsAvailable)) := by
    intro frame hframe
    by_cases hframeResolves : border.Resolves chain frame
    · exact Or.inl ((hprobe frame hframe).1 hframeResolves)
    · exact Or.inr ((hprobe frame hframe).2 hframeResolves)
  have herror := BinarySearch.firstTrue_error htest ⟨missed, hvisited, (hprobe missed hvisited).2 hmissed⟩
  rw [findEarliestSlashedEpoch_eq hstart hstop, herror]
  rfl

end Search

/-! The loop over the validators -/

/-- The exit queue hides the slashing of the validator, or its epoch is 0, which counts as none. -/
def Unpredicted (validator : Validator) : Prop :=
  validator.validator.exitEpoch + MIN_VALIDATOR_WITHDRAWABILITY_DELAY = validator.validator.withdrawableEpoch ∨
    validator.validator.withdrawableEpoch = EPOCHS_PER_SLASHINGS_VECTOR

theorem SlashingHistory.predict_eq (h : border.SlashingHistory chain slashedAt validators) {v : Validator}
    (hv : v ∈ validators) :
    ∃ predicted, predictEarliestSlashedEpoch v = .ok predicted ∧
      (Unpredicted v → Py.truthy predicted = none) ∧
      (¬Unpredicted v → Py.truthy predicted = some (border.slashedEpoch slashedAt v) ∧
        border.slashedEpoch slashedAt v ≠ 0) := by
  obtain ⟨exitEpoch, hexit⟩ : ∃ n : ℕ, v.validator.exitEpoch = n := ⟨_, rfl⟩
  obtain ⟨withdrawableEpoch, hwithdrawable⟩ : ∃ n : ℕ, v.validator.withdrawableEpoch = n := ⟨_, rfl⟩
  have hdelay : exitEpoch + MIN_VALIDATOR_WITHDRAWABILITY_DELAY ≤ withdrawableEpoch :=
    hexit ▸ hwithdrawable ▸ h.delay v hv
  have hexact : exitEpoch + MIN_VALIDATOR_WITHDRAWABILITY_DELAY < withdrawableEpoch →
      (withdrawableEpoch : ℤ) = border.slashedEpoch slashedAt v + EPOCHS_PER_SLASHINGS_VECTOR :=
    hexit ▸ hwithdrawable ▸ h.exact v hv
  have hunpredicted : Unpredicted v ↔ exitEpoch + MIN_VALIDATOR_WITHDRAWABILITY_DELAY = withdrawableEpoch ∨
      withdrawableEpoch = EPOCHS_PER_SLASHINGS_VECTOR := by
    rw [Unpredicted, hexit, hwithdrawable]
  have hperiod : ¬((withdrawableEpoch : ℤ) - exitEpoch < MIN_VALIDATOR_WITHDRAWABILITY_DELAY) := by omega
  rw [predictEarliestSlashedEpoch, hexit, hwithdrawable, hunpredicted]
  simp only [if_neg hperiod]
  by_cases hhidden : exitEpoch + MIN_VALIDATOR_WITHDRAWABILITY_DELAY = withdrawableEpoch
  · exact ⟨none, if_pos (by omega), fun _ => rfl, fun hpredicted => absurd (Or.inl hhidden) hpredicted⟩
  · have hepoch := hexact (lt_of_le_of_ne hdelay hhidden)
    have hslashed : (withdrawableEpoch : ℤ) - EPOCHS_PER_SLASHINGS_VECTOR = border.slashedEpoch slashedAt v :=
      sub_eq_of_eq_add hepoch
    refine ⟨some (border.slashedEpoch slashedAt v), ?_, fun hnone => ?_, fun hpredicted => ?_⟩
    · rw [← hslashed]
      exact if_neg (by omega)
    · have hzero : border.slashedEpoch slashedAt v = 0 := by
        rw [← hslashed, hnone.resolve_left hhidden, sub_self]
      rw [hzero]
      rfl
    · have hne : border.slashedEpoch slashedAt v ≠ 0 := fun hzero => hpredicted (Or.inr (by omega))
      exact ⟨Option.filter_eq_some_iff.mpr ⟨rfl, decide_eq_true hne⟩, hne⟩

section Loop

variable {v : Validator} {rest : List Validator} {predicted : Option ℤ}

theorem earliestPredicted_unpredicted (hpredict : predictEarliestSlashedEpoch v = .ok predicted)
    (hnone : Py.truthy predicted = none) (earliest : Option ℤ) :
    border.earliestPredicted validators (v :: rest) earliest =
      (border.findEarliestSlashedEpochRoundedToFrame validators >>= fun found => .ok (some found.1)) := by
  rw [earliestPredicted, hpredict, Except.ok_bind, hnone]
  rfl

theorem earliestPredicted_first {epoch : ℤ} (hpredict : predictEarliestSlashedEpoch v = .ok predicted)
    (hsome : Py.truthy predicted = some epoch) :
    border.earliestPredicted validators (v :: rest) none = border.earliestPredicted validators rest (some epoch) := by
  rw [earliestPredicted, hpredict, Except.ok_bind, hsome]
  rfl

theorem earliestPredicted_next {epoch earliest : ℤ} (hpredict : predictEarliestSlashedEpoch v = .ok predicted)
    (hsome : Py.truthy predicted = some epoch) (hearliest : earliest ≠ 0) :
    border.earliestPredicted validators (v :: rest) (some earliest) =
      border.earliestPredicted validators rest (some (min earliest epoch)) := by
  have htruthy : Py.truthy (some earliest) = some earliest :=
    Option.filter_eq_some_iff.mpr ⟨rfl, decide_eq_true hearliest⟩
  rw [earliestPredicted, hpredict, Except.ok_bind, hsome, htruthy]
  dsimp only
  split_ifs with hlt
  · rw [min_eq_right hlt.le]
  · rw [min_eq_left (not_lt.mp hlt)]

end Loop

/-- One slashing without a prediction sends the loop to the search. -/
theorem earliestPredicted_search (h : border.SlashingHistory chain slashedAt validators) {rest : List Validator}
    (hrest : ∀ v ∈ rest, v ∈ validators) (hsearch : ∃ v ∈ rest, Unpredicted v) {earliest : Option ℤ}
    (hearliest : earliest ≠ some 0) :
    border.earliestPredicted validators rest earliest =
      (border.findEarliestSlashedEpochRoundedToFrame validators >>= fun found => .ok (some found.1)) := by
  induction rest generalizing earliest with
  | nil =>
    obtain ⟨v, hv, -⟩ := hsearch
    exact absurd hv List.not_mem_nil
  | cons v rest ih =>
    rw [List.forall_mem_cons] at hrest
    obtain ⟨predicted, hpredict, hnone, hsome⟩ := h.predict_eq hrest.1
    by_cases hv : Unpredicted v
    · exact earliestPredicted_unpredicted hpredict (hnone hv) earliest
    · obtain ⟨hepoch, hne⟩ := hsome hv
      have hsearch' : ∃ u ∈ rest, Unpredicted u := by
        obtain ⟨u, hu, hunpredicted⟩ := hsearch
        rcases List.mem_cons.mp hu with rfl | hu
        · exact absurd hunpredicted hv
        · exact ⟨u, hu, hunpredicted⟩
      cases earliest with
      | none => rw [earliestPredicted_first hpredict hepoch, ih hrest.2 hsearch' (by simpa using hne)]
      | some earliest =>
        have hne' : earliest ≠ 0 := fun hzero => hearliest (congrArg some hzero)
        rw [earliestPredicted_next hpredict hepoch hne', ih hrest.2 hsearch']
        intro hzero
        rcases min_choice earliest (border.slashedEpoch slashedAt v) with hmin | hmin
        · exact hne' (hmin.symm.trans (Option.some.inj hzero))
        · exact hne (hmin.symm.trans (Option.some.inj hzero))

/-- Where every slashing is predicted, the loop ends with the earliest one. -/
theorem earliestPredicted_least (h : border.SlashingHistory chain slashedAt validators) {rest : List Validator}
    (hrest : ∀ v ∈ rest, v ∈ validators) (hpredicted : ∀ v ∈ rest, ¬Unpredicted v) {earliest : ℤ}
    (hearliest : earliest ≠ 0) :
    ∃ least, border.earliestPredicted validators rest (some earliest) = .ok (some least) ∧ least ≠ 0 ∧
      IsLeast {e | e = earliest ∨ ∃ v ∈ rest, border.slashedEpoch slashedAt v = e} least := by
  induction rest generalizing earliest with
  | nil =>
    refine ⟨earliest, rfl, hearliest, Or.inl rfl, fun e he => ?_⟩
    rcases he with rfl | ⟨v, hv, -⟩
    · exact le_refl e
    · exact absurd hv List.not_mem_nil
  | cons v rest ih =>
    rw [List.forall_mem_cons] at hrest hpredicted
    obtain ⟨predicted, hpredict, -, hsome⟩ := h.predict_eq hrest.1
    obtain ⟨hepoch, hne⟩ := hsome hpredicted.1
    have hmin : min earliest (border.slashedEpoch slashedAt v) ≠ 0 := by
      rcases min_choice earliest (border.slashedEpoch slashedAt v) with hmin | hmin
      · rwa [hmin]
      · rwa [hmin]
    obtain ⟨least, hrun, hnonzero, hmem, hleast⟩ := ih hrest.2 hpredicted.2 hmin
    refine ⟨least, (earliestPredicted_next hpredict hepoch hearliest).trans hrun, hnonzero, ?_, fun e he => ?_⟩
    · rcases hmem with rfl | ⟨u, hu, rfl⟩
      · rcases min_choice earliest (border.slashedEpoch slashedAt v) with hmin | hmin
        · exact Or.inl hmin
        · exact Or.inr ⟨v, List.mem_cons_self, hmin.symm⟩
      · exact Or.inr ⟨u, List.mem_cons_of_mem v hu, rfl⟩
    · have hleastMin := hleast (Or.inl rfl)
      rcases he with rfl | ⟨u, hu, rfl⟩
      · exact hleastMin.trans (min_le_left _ _)
      · rcases List.mem_cons.mp hu with rfl | hu
        · exact hleastMin.trans (min_le_right _ _)
        · exact hleast (Or.inr ⟨u, hu, rfl⟩)

theorem earliestPredicted_none (h : border.SlashingHistory chain slashedAt validators) {rest : List Validator}
    (hne : rest ≠ []) (hrest : ∀ v ∈ rest, v ∈ validators) (hpredicted : ∀ v ∈ rest, ¬Unpredicted v) :
    ∃ least, border.earliestPredicted validators rest none = .ok (some least) ∧ least ≠ 0 ∧
      IsLeast {e | ∃ v ∈ rest, border.slashedEpoch slashedAt v = e} least := by
  cases rest with
  | nil => exact absurd rfl hne
  | cons v rest =>
    rw [List.forall_mem_cons] at hrest hpredicted
    obtain ⟨predicted, hpredict, -, hsome⟩ := h.predict_eq hrest.1
    obtain ⟨hepoch, hnonzero⟩ := hsome hpredicted.1
    obtain ⟨least, hrun, hleastNonzero, hleast⟩ := earliestPredicted_least h hrest.2 hpredicted.2 hnonzero
    refine ⟨least, (earliestPredicted_first hpredict hepoch).trans hrun, hleastNonzero, ?_⟩
    simpa only [List.exists_mem_cons_iff, eq_comm] using hleast

/-! The border -/

theorem finalizationDefaultShift_nonneg : 0 ≤ border.finalizationDefaultShift :=
  Int.ceil_nonneg (div_nonneg (Nat.cast_nonneg _) (Nat.cast_nonneg _))

/-- The border that an epoch of a slashing sets is not after the frame of that epoch. -/
theorem frame_border_le (epoch : ℤ) :
    border.converter.getFrameByEpoch (border.roundEpochByFrame epoch - border.finalizationDefaultShift) ≤
      border.converter.getFrameByEpoch epoch := by
  have hround : border.roundEpochByFrame epoch =
      border.converter.frameFirstEpoch (border.converter.getFrameByEpoch epoch) := add_comm _ _
  calc border.converter.getFrameByEpoch (border.roundEpochByFrame epoch - border.finalizationDefaultShift)
      ≤ border.converter.getFrameByEpoch (border.roundEpochByFrame epoch) :=
        Web3Converter.getFrameByEpoch_mono (sub_le_self _ finalizationDefaultShift_nonneg)
    _ = border.converter.getFrameByEpoch epoch := by rw [hround, Web3Converter.getFrameByEpoch_firstEpoch]

theorem getAssociatedSlashingsBorderEpoch_of_earliest {epoch : ℤ} (hne : epoch ≠ 0)
    (h : border.getEarliestSlashedEpochAmongIncompleteSlashings = .ok (some epoch)) :
    border.getAssociatedSlashingsBorderEpoch =
      .ok (border.roundEpochByFrame epoch - border.finalizationDefaultShift) := by
  have htruthy : Py.truthy (some epoch) = some epoch := Option.filter_eq_some_iff.mpr ⟨rfl, decide_eq_true hne⟩
  rw [getAssociatedSlashingsBorderEpoch, h, Except.ok_bind, htruthy]
  rfl

/-- Epoch 0 counts as no slashing. -/
theorem getAssociatedSlashingsBorderEpoch_of_zero
    (h : border.getEarliestSlashedEpochAmongIncompleteSlashings = .ok (some 0)) :
    border.getAssociatedSlashingsBorderEpoch = .ok border.getDefaultRequestsBorderEpoch := by
  rw [getAssociatedSlashingsBorderEpoch, h]
  rfl


theorem SlashingFrame.ne_nil (hslashing : border.SlashingFrame slashedAt validators slashing) : validators ≠ [] := by
  obtain ⟨epoch, ⟨⟨v, hv, -⟩, -⟩, -⟩ := hslashing
  exact List.ne_nil_of_mem hv

theorem getEarliestSlashedEpoch_eq (hne : border.incompleteSlashings ≠ []) :
    border.getEarliestSlashedEpochAmongIncompleteSlashings =
      border.earliestPredicted border.incompleteSlashings border.incompleteSlashings none := if_neg hne

section Border

variable (h : border.SlashingHistory chain slashedAt border.incompleteSlashings)
  (hslashing : border.SlashingFrame slashedAt border.incompleteSlashings slashing)
include h hslashing

/-- Where every slashing is predicted, the earliest one sets the border. -/
theorem border_of_predicted (hpredicted : ∀ v ∈ border.incompleteSlashings, ¬Unpredicted v) :
    ∃ borderEpoch, border.getAssociatedSlashingsBorderEpoch = .ok borderEpoch ∧
      border.converter.getFrameByEpoch borderEpoch ≤ slashing := by
  have hne := hslashing.ne_nil
  obtain ⟨epoch, hepoch, rfl⟩ := hslashing
  obtain ⟨least, hrun, hnonzero, hleast⟩ := earliestPredicted_none h hne (fun v hv => hv) hpredicted
  rw [hleast.unique hepoch] at hrun hnonzero
  have hearliest := (getEarliestSlashedEpoch_eq hne).trans hrun
  exact ⟨_, getAssociatedSlashingsBorderEpoch_of_earliest hnonzero hearliest, frame_border_le epoch⟩

/-- Where some slashing is not predicted, the frame that is found sets the border, unless its first epoch is 0. -/
theorem border_of_search (hunpredicted : ∃ v ∈ border.incompleteSlashings, Unpredicted v) {found : FrameNumber}
    {probes : List FrameNumber} (hfound : border.findEarliestSlashedEpochRoundedToFrame border.incompleteSlashings =
      .ok (border.converter.frameFirstEpoch found, probes)) :
    ∃ borderEpoch, border.getAssociatedSlashingsBorderEpoch = .ok borderEpoch ∧
      (border.converter.frameFirstEpoch found ≠ 0 → border.converter.getFrameByEpoch borderEpoch ≤ found) := by
  have hearliest : border.getEarliestSlashedEpochAmongIncompleteSlashings =
      .ok (some (border.converter.frameFirstEpoch found)) := by
    rw [getEarliestSlashedEpoch_eq hslashing.ne_nil, earliestPredicted_search h (fun v hv => hv) hunpredicted (by simp),
      hfound]
    rfl
  by_cases hzero : border.converter.frameFirstEpoch found = 0
  · rw [hzero] at hearliest
    exact ⟨_, getAssociatedSlashingsBorderEpoch_of_zero hearliest, fun hne => absurd hzero hne⟩
  · refine ⟨_, getAssociatedSlashingsBorderEpoch_of_earliest hzero hearliest, fun _ => ?_⟩
    have hframe := @frame_border_le border (border.converter.frameFirstEpoch found)
    rwa [Web3Converter.getFrameByEpoch_firstEpoch] at hframe

end Border

/-- The search for the earliest slashing and the border that it sets. A frame with no block between its end and the
reference slot ends the search with an exception. -/
theorem earliestSlashing_exact (border : SafeBorder) (chain : BlockChain) (slashedAt : HexStr → SlotNumber)
    (validators : List Validator) (slashing start stop : FrameNumber)
    (h : border.SlashingHistory chain slashedAt validators)
    (hslashing : border.SlashingFrame slashedAt validators slashing) (hstart : border.StartFrame validators start)
    (hstop : border.StopFrame validators stop) :
    (border.SearchResolves chain slashing start stop →
      ∃ probes, border.findEarliestSlashedEpochRoundedToFrame validators =
          .ok (border.converter.frameFirstEpoch (max slashing start), probes) ∧
        ∀ frame ∈ probes, border.converter.getFrameLastSlot frame ≤ border.blockstamp.refSlot) ∧
    (¬border.SearchResolves chain slashing start stop →
      border.findEarliestSlashedEpochRoundedToFrame validators = .error (.raised (.slot .noSlotsAvailable))) ∧
    (validators = border.incompleteSlashings →
      ((∃ v ∈ validators, Unpredicted v) → border.SearchResolves chain slashing start stop) →
      ∃ borderEpoch, border.getAssociatedSlashingsBorderEpoch = .ok borderEpoch ∧
        (((∃ v ∈ validators, Unpredicted v) → border.converter.frameFirstEpoch slashing ≠ 0) → start ≤ slashing →
          border.converter.getFrameByEpoch borderEpoch ≤ slashing)) := by
  refine ⟨findEarliestSlashedEpoch_ok h hslashing hstart hstop, findEarliestSlashedEpoch_error h hslashing hstart hstop,
    fun hall hresolves => ?_⟩
  subst hall
  by_cases hunpredicted : ∃ v ∈ border.incompleteSlashings, Unpredicted v
  · obtain ⟨probes, hfound, -⟩ := findEarliestSlashedEpoch_ok h hslashing hstart hstop (hresolves hunpredicted)
    obtain ⟨borderEpoch, hborder, hle⟩ := border_of_search h hslashing hunpredicted hfound
    refine ⟨borderEpoch, hborder, fun hnonzero hfrom => ?_⟩
    rw [max_eq_left hfrom] at hle
    exact hle (hnonzero hunpredicted)
  · push Not at hunpredicted
    obtain ⟨borderEpoch, hborder, hle⟩ := border_of_predicted h hslashing hunpredicted
    exact ⟨borderEpoch, hborder, fun _ _ => hle⟩

/-- A validator in an exit queue so long that its exit and withdrawable epochs moved together -/
def queuedValidator (slashed : Bool) : Validator :=
  ⟨1, 0, ⟨"0x01", "0x02", 0, slashed, 0, 0, 8744, 9000, Nat.zero_le _⟩⟩

/-- The validator is slashed in a slot of the chain, which has blocks at slots 0, 16 and 23. -/
def ofSlashing (refSlot slashedSlot : ℕ) : SafeBorder where
  converter := ⟨.oneSlotEpochs, ⟨10, 10, Nat.zero_lt_succ 9⟩⟩
  blockstamp := buildReferenceBlockstamp block23.toBlockDetails refSlot refSlot
  cc := gapClient
  getActiveLidoValidators stamp := [queuedValidator (decide (slashedSlot ≤ stamp.slotNumber))]
  requestTimestampMargin := 12
  lastFinalizedRequestId := 0
  withdrawalTimestamp _ := 0

section Sample

variable {refSlot slashedSlot : ℕ}

theorem ofSlashing_getEpochBySlot (slot : ℤ) : (ofSlashing refSlot slashedSlot).converter.getEpochBySlot slot = slot :=
  Int.fdiv_one slot

theorem ofSlashing_history (href : slashedSlot ≤ refSlot) (hblock : (gapChain.blockAt slashedSlot).isSome)
    (hslashed : slashedSlot ≤ 23) :
    (ofSlashing refSlot slashedSlot).SlashingHistory gapChain (fun _ => slashedSlot) [queuedValidator true] where
  refEpoch_eq := (ofSlashing_getEpochBySlot _).symm
  serves := gapClient_serves refSlot
  genesis := rfl
  included := List.forall_mem_singleton.mpr ⟨href, hblock⟩
  permanent block _ _ := List.forall_mem_singleton.mpr <| by
    have hactive : (ofSlashing refSlot slashedSlot).getActiveLidoValidators (buildBlockstamp block.toBlockDetails) =
        [queuedValidator (decide (slashedSlot ≤ block.slot))] := rfl
    rw [hactive]
    simp [queuedValidator]
  activation := List.forall_mem_singleton.mpr <| by
    rw [slashedEpoch, ofSlashing_getEpochBySlot]
    exact Int.natCast_nonneg _
  withdrawable := List.forall_mem_singleton.mpr <| by
    rw [slashedEpoch, ofSlashing_getEpochBySlot]
    have hdelay : (slashedSlot : ℤ) + 8192 ≤ 9000 := by omega
    exact hdelay
  delay := List.forall_mem_singleton.mpr (by decide)
  exact := List.forall_mem_singleton.mpr fun hlt => absurd hlt (by decide)

theorem ofSlashing_slashingFrame : (ofSlashing refSlot slashedSlot).SlashingFrame (fun _ => slashedSlot)
    [queuedValidator true] ((slashedSlot - 10 : ℤ).fdiv 10) := by
  refine ⟨slashedSlot, ⟨⟨_, List.mem_cons_self, ofSlashing_getEpochBySlot _⟩, ?_⟩, rfl⟩
  rintro e ⟨v, hv, rfl⟩
  exact (ofSlashing_getEpochBySlot _).ge

theorem ofSlashing_startFrame : (ofSlashing refSlot slashedSlot).StartFrame [queuedValidator true] (-1) := by
  refine ⟨0, ⟨⟨_, List.mem_cons_self, rfl⟩, ?_⟩, rfl⟩
  rintro e ⟨v, hv, rfl⟩
  exact Int.natCast_nonneg _

theorem ofSlashing_stopFrame (href : refSlot ≤ 808) :
    (ofSlashing refSlot slashedSlot).StopFrame [queuedValidator true] ((refSlot - 10 : ℤ).fdiv 10) := by
  refine ⟨9000, ⟨⟨_, List.mem_cons_self, rfl⟩, ?_⟩, ?_⟩
  · rintro e ⟨v, hv, rfl⟩
    rw [List.mem_singleton.mp hv]
    exact le_refl _
  · have hmin : min (refSlot : ℤ) 808 = refSlot := min_eq_left (by omega)
    exact congrArg (fun epoch : ℤ => (epoch - 10).fdiv 10) hmin

end Sample

theorem ofSlashing_missed : (ofSlashing 39 23).findEarliestSlashedEpochRoundedToFrame [queuedValidator true] =
    .error (.raised (.slot .noSlotsAvailable)) := by
  refine findEarliestSlashedEpoch_error (ofSlashing_history (by decide) rfl (le_refl _)) ofSlashing_slashingFrame
    ofSlashing_startFrame (ofSlashing_stopFrame (by decide)) fun hresolves => ?_
  have hvisits : BinarySearch.visits 1 (-1) 2 = [0, 1] := by
    rw [BinarySearch.visits_step (by decide), if_neg (by decide), BinarySearch.visits_step (by decide),
      if_pos (by decide), BinarySearch.visits_of_le (by decide)]
    rfl
  obtain ⟨s, hfrom, -, hsome⟩ := hresolves 1 (hvisits ▸ List.mem_cons_of_mem 0 List.mem_cons_self)
  obtain ⟨block, hblock⟩ := Option.isSome_iff_exists.mp hsome
  have hfrom' : 29 ≤ s := hfrom
  rcases gapChain_cases hblock with ⟨rfl, -⟩ | ⟨rfl, -⟩ | ⟨rfl, -⟩
  · exact absurd hfrom' (by decide)
  · exact absurd hfrom' (by decide)
  · exact absurd hfrom' (by decide)

theorem ofSlashing_resolves : (ofSlashing 23 0).SearchResolves gapChain (-1) (-1) 1 := by
  have hvisits : BinarySearch.visits (-1) (-1) 1 = [0, -1] := by
    rw [BinarySearch.visits_step (by decide), if_pos (by decide), BinarySearch.visits_step (by decide),
      if_pos (by decide), BinarySearch.visits_of_le (by decide)]
    rfl
  unfold SearchResolves
  rw [hvisits, List.forall_mem_cons, List.forall_mem_singleton]
  exact ⟨⟨23, by decide, le_refl _, rfl⟩, ⟨16, by decide, by decide, rfl⟩⟩

theorem ofSlashing_zero : (ofSlashing 23 0).getAssociatedSlashingsBorderEpoch = .ok 22 := by
  have hset : (ofSlashing 23 0).incompleteSlashings = [queuedValidator true] := rfl
  have hhistory := @ofSlashing_history 23 0 (by decide) rfl (by decide)
  obtain ⟨probes, hfound, -⟩ := findEarliestSlashedEpoch_ok hhistory ofSlashing_slashingFrame ofSlashing_startFrame
    (ofSlashing_stopFrame (by decide)) ofSlashing_resolves
  have hearliest : (ofSlashing 23 0).getEarliestSlashedEpochAmongIncompleteSlashings = .ok (some 0) := by
    rw [getEarliestSlashedEpoch_eq (hset ▸ List.cons_ne_nil _ _), hset, earliestPredicted_search hhistory
      (fun v hv => hv) ⟨_, List.mem_cons_self, Or.inl rfl⟩ (by simp), hfound]
    rfl
  have hshift : (ofSlashing 23 0).finalizationDefaultShift = 1 := by
    norm_num [finalizationDefaultShift, ofSlashing, ChainConfig.oneSlotEpochs, ChainConfig.sample]
  rw [getAssociatedSlashingsBorderEpoch_of_zero hearliest, getDefaultRequestsBorderEpoch, hshift]
  rfl

/-- With no block from slot 29 to slot 39 the search raises. With a frame that starts at epoch 0, the border is the
default one. -/
theorem earliestSlashing_exact_counterexample :
    (¬∀ (border : SafeBorder) (chain : BlockChain) (slashedAt : HexStr → SlotNumber) (slashing start : FrameNumber),
      border.SlashingHistory chain slashedAt border.incompleteSlashings →
      border.SlashingFrame slashedAt border.incompleteSlashings slashing →
      border.StartFrame border.incompleteSlashings start →
      ∃ probes, border.findEarliestSlashedEpochRoundedToFrame border.incompleteSlashings =
        .ok (border.converter.frameFirstEpoch (max slashing start), probes)) ∧
    ¬∀ (border : SafeBorder) (chain : BlockChain) (slashedAt : HexStr → SlotNumber) (slashing start : FrameNumber),
      border.SlashingHistory chain slashedAt border.incompleteSlashings →
      border.SlashingFrame slashedAt border.incompleteSlashings slashing →
      border.StartFrame border.incompleteSlashings start →
      ∀ borderEpoch, border.getAssociatedSlashingsBorderEpoch = .ok borderEpoch →
        border.converter.getFrameByEpoch borderEpoch ≤ slashing ∨ slashing < start := by
  refine ⟨fun hexact => ?_, fun hbounded => ?_⟩
  · have hset : (ofSlashing 39 23).incompleteSlashings = [queuedValidator true] := rfl
    have hfound := hexact (ofSlashing 39 23) gapChain (fun _ => 23) 1 (-1)
    rw [hset] at hfound
    obtain ⟨probes, hok⟩ := hfound (ofSlashing_history (by decide) rfl (le_refl _)) ofSlashing_slashingFrame
      ofSlashing_startFrame
    rw [ofSlashing_missed] at hok
    cases hok
  · have hset : (ofSlashing 23 0).incompleteSlashings = [queuedValidator true] := rfl
    have hborder := hbounded (ofSlashing 23 0) gapChain (fun _ => 0) (-1) (-1)
    rw [hset] at hborder
    have hframe := hborder (ofSlashing_history (by decide) rfl (by decide)) ofSlashing_slashingFrame
      ofSlashing_startFrame 22 ofSlashing_zero
    revert hframe
    decide

/-- The frame -1 starts at epoch 0. -/
theorem earliestSlashing_exact_queued :
    ∃ probes, (ofSlashing 23 0).findEarliestSlashedEpochRoundedToFrame [queuedValidator true] =
        .ok ((ofSlashing 23 0).converter.frameFirstEpoch (max (-1) (-1)), probes) ∧
      ∀ frame ∈ probes, (ofSlashing 23 0).converter.getFrameLastSlot frame ≤ (ofSlashing 23 0).blockstamp.refSlot :=
  (earliestSlashing_exact (ofSlashing 23 0) gapChain (fun _ => 0) [queuedValidator true] (-1) (-1) 1
    (ofSlashing_history (by decide) rfl (by decide)) ofSlashing_slashingFrame ofSlashing_startFrame
    (ofSlashing_stopFrame (by decide))).1 ofSlashing_resolves

end SafeBorder

end LidoOracle
