import LidoOracle.Consensus.Web3Converter
import LidoOracle.StakingModules.State

/-! The epochs that a staking module report covers, and those that are asked
of the performance collector beforehand. A report continues where the last
processed one ended; the first one covers the frame before the initial epoch. -/

namespace LidoOracle

namespace StakingModules

def UINT64_MAX : ℕ := 2 ^ 64 - 1

structure BlockStamp where
  slotNumber : SlotNumber

/-- The slot of the block differs from the reference slot when that one was missed. -/
structure ReferenceBlockStamp extends BlockStamp where
  refSlot : SlotNumber
  refEpoch : EpochNumber

inductive ReportRangeError where
  | initialEpochNotSet
  | invalidFrameConfiguration
  | lastRefSlotAhead (lastProcessingRefSlot slotNumber : SlotNumber)
  | invalidPredictedRange (lEpoch rEpoch : ℤ)
  | invalidReportRange (lEpoch rEpoch : ℤ)
  deriving DecidableEq, Repr

abbrev RangeOf := Py ReportRangeError

/-- What an oracle reads from its contracts at a block -/
structure ContractView where
  converter : Web3Converter
  initialRefSlot : SlotNumber
  lastProcessingRefSlot : SlotNumber

namespace ContractView

def getLEpoch (view : ContractView) (blockstamp : BlockStamp) : RangeOf ℤ := do
  let farFutureInitialEpoch := view.converter.getEpochByTimestamp UINT64_MAX
  if (view.converter.frameConfig.initialEpoch : ℤ) = farFutureInitialEpoch then throw (.raised .initialEpochNotSet)
  let firstLeftSlot : ℤ := view.initialRefSlot - view.converter.slotsPerFrame
  if view.lastProcessingRefSlot = 0 ∧ firstLeftSlot < 0 then throw (.raised .invalidFrameConfiguration)
  let lRefSlot : ℤ := if view.lastProcessingRefSlot = 0 then firstLeftSlot else view.lastProcessingRefSlot
  if view.lastProcessingRefSlot > blockstamp.slotNumber then
    throw (.raised (.lastRefSlotAhead view.lastProcessingRefSlot blockstamp.slotNumber))
  return view.converter.getEpochBySlot (lRefSlot + 1)

def predictREpoch (view : ContractView) (blockstamp : BlockStamp) : ℤ :=
  let currentFrame := view.converter.getFrameBySlot blockstamp.slotNumber
  view.converter.getEpochBySlot (view.converter.getFrameLastSlot currentFrame)

def getPredictedRange (view : ContractView) (blockstamp : BlockStamp) : RangeOf (ℤ × ℤ) := do
  let lEpoch ← view.getLEpoch blockstamp
  let rEpoch := view.predictREpoch blockstamp
  if lEpoch > rEpoch then throw (.raised (.invalidPredictedRange lEpoch rEpoch))
  return (lEpoch, rEpoch)

def getReportRange (view : ContractView) (blockstamp : ReferenceBlockStamp) : RangeOf (ℤ × ℤ) := do
  let lEpoch ← view.getLEpoch blockstamp.toBlockStamp
  let rEpoch : ℤ := blockstamp.refEpoch
  if lEpoch > rEpoch then throw (.raised (.invalidReportRange lEpoch rEpoch))
  return (lEpoch, rEpoch)

end ContractView

/-! Runs of reports under one frame configuration -/

/-- A frame configuration that `_get_l_epoch` accepts; the initial reference slot is the last slot before the
initial epoch. -/
structure AcceptedConfig where
  converter : Web3Converter
  initialRefSlot : SlotNumber
  isSet : (converter.frameConfig.initialEpoch : ℤ) ≠ converter.getEpochByTimestamp UINT64_MAX
  initialRefSlot_eq : (initialRefSlot : ℤ) = converter.getEpochFirstSlot converter.frameConfig.initialEpoch - 1
  firstLeftSlot : 0 ≤ (initialRefSlot : ℤ) - converter.slotsPerFrame

def AcceptedConfig.view (config : AcceptedConfig) (lastProcessingRefSlot : SlotNumber) : ContractView :=
  ⟨config.converter, config.initialRefSlot, lastProcessingRefSlot⟩

/-- A processed report, with the last reference slot processed before it -/
structure Report where
  lastProcessingRefSlot : SlotNumber
  blockstamp : ReferenceBlockStamp
  range : ℤ × ℤ

/-- Successful reports one after the other, each for the last slot of some frame; the last processed slot -/
inductive ReportsRun (config : AcceptedConfig) : List Report → SlotNumber → Prop where
  | nil : ReportsRun config [] 0
  | report {reports : List Report} {last : SlotNumber} {blockstamp : ReferenceBlockStamp} {range : ℤ × ℤ}
      (hrun : ReportsRun config reports last)
      (hframe : ∃ frame, (blockstamp.refSlot : ℤ) = config.converter.getFrameLastSlot frame)
      (hepoch : (blockstamp.refEpoch : ℤ) = config.converter.getEpochBySlot blockstamp.refSlot)
      (hrange : (config.view last).getReportRange blockstamp = .ok range) :
      ReportsRun config (reports ++ [⟨last, blockstamp, range⟩]) blockstamp.refSlot

/-- The epochs of a frame, from its first and its last slot -/
def frameEpochs (converter : Web3Converter) (frame : FrameNumber) : ℤ × ℤ :=
  (converter.getEpochBySlot (converter.getFrameFirstSlot frame),
    converter.getEpochBySlot (converter.getFrameLastSlot frame))

/-- A range of `count` whole frames, from `frame` on: the state for it exists, and its frames are these. -/
structure WholeFrames (converter : Web3Converter) (range : ℤ × ℤ) (frame : FrameNumber) (count : ℕ) : Prop where
  pos : 0 < count
  length : range.2 - range.1 + 1 = count * converter.frameConfig.epochsPerFrame
  state : ∃ state, State.init range.1.toNat range.2.toNat converter.frameConfig.epochsPerFrame = .ok state ∧
    state.frames.map (fun f => ((f.1 : ℤ), (f.2 : ℤ))) =
      (List.range count).map fun i : ℕ => frameEpochs converter (frame + (i : ℤ))

section Frames

variable {converter : Web3Converter}

theorem frameEpochs_eq (frame : ℤ) : frameEpochs converter frame =
    (converter.frameFirstEpoch frame, converter.frameFirstEpoch (frame + 1) - 1) :=
  Prod.ext (Web3Converter.getEpochBySlot_frameFirstSlot frame) (Web3Converter.getEpochBySlot_frameLastSlot frame)

theorem frameOf_range' {start count : ℕ} (hpos : 0 < count) :
    State.frameOf (List.range' start count) = .ok (start, start + count - 1) := by
  have hfirst : (List.range' start count)[0]? = some start := by
    rw [List.getElem?_range' (by omega)]
    rfl
  have hlast : (List.range' start count)[count - 1]? = some (start + count - 1) := by
    rw [List.getElem?_range' (by omega), Option.some.injEq]
    omega
  unfold State.frameOf
  rw [Py.listItem_eq_ok.mpr hfirst, Except.ok_bind, List.length_range', Py.listItem_eq_ok.mpr hlast, Except.ok_bind]
  rfl

/-- The frames of a state, when its epochs are a multiple of the frame length -/
theorem init_range {start count epochsPerFrame : ℕ} (hpos : 0 < count) (hframe : 0 < epochsPerFrame) :
    ∃ state, State.init start (start + count * epochsPerFrame - 1) epochsPerFrame = .ok state ∧
      state.frames = (List.range count).map fun i =>
        (start + i * epochsPerFrame, start + i * epochsPerFrame + epochsPerFrame - 1) := by
  have hmul : 0 < count * epochsPerFrame := Nat.mul_pos hpos hframe
  have hsequence : (Performance.sequence start (start + count * epochsPerFrame - 1) : Py FramesError _) =
      .ok (List.range' start (count * epochsPerFrame)) := by
    rw [Performance.sequence_of_le (by omega)]
    exact congrArg (fun n => Except.ok (List.range' start n)) (by omega)
  have hsorted : Sorted.sortedBy id (List.range' start (count * epochsPerFrame)) =
      List.range' start (count * epochsPerFrame) :=
    List.Pairwise.insertionSort_eq (List.Pairwise.imp (fun h => le_of_lt h) (List.pairwise_lt_range' 1 Nat.one_pos))
  have hframes : State.calculateFrames (List.range' start (count * epochsPerFrame)) epochsPerFrame =
      .ok ((List.range count).map fun i =>
        (start + i * epochsPerFrame, start + i * epochsPerFrame + epochsPerFrame - 1)) := by
    unfold State.calculateFrames
    rw [if_neg hframe.ne', List.length_range', Nat.mul_mod_left, if_neg (not_not.mpr rfl), hsorted,
      Itertools.batched_eq_ok.mpr ⟨hframe, rfl⟩, Except.ok_bind, Itertools.batches_range'_mul hframe]
    refine (ExceptRun.mapM_ok_iff.mpr ?_)
    rw [List.forall₂_map_left_iff, List.forall₂_map_right_iff, List.forall₂_same]
    exact fun i _ => frameOf_range' hframe
  refine ⟨⟨Dict.ofList (((List.range count).map fun i =>
    (start + i * epochsPerFrame, start + i * epochsPerFrame + epochsPerFrame - 1)).map fun frame =>
      (frame, NetworkDuties.empty))⟩, ?_, ?_⟩
  · unfold State.init
    rw [hsequence, Except.ok_bind, hframes]
    rfl
  · have hnodup : ((((List.range count).map fun i => (start + i * epochsPerFrame,
        start + i * epochsPerFrame + epochsPerFrame - 1)).map fun frame =>
          (frame, NetworkDuties.empty)).map Prod.fst).Nodup := by
      rw [List.map_map, List.map_map]
      refine List.nodup_range.map fun i j h => ?_
      have hfirst : start + i * epochsPerFrame = start + j * epochsPerFrame := congrArg Prod.fst h
      exact Nat.eq_of_mul_eq_mul_right hframe (Nat.add_left_cancel hfirst)
    unfold State.frames Dict.keys
    rw [Dict.entries_ofList hnodup, List.map_map]
    exact List.map_id _

end Frames

/-! Where a run stands -/

section Run

variable {config : AcceptedConfig} {last : ℕ} {frame : ℤ}

/-- `frame` is the first frame that is not reported yet. -/
structure Position (config : AcceptedConfig) (last : SlotNumber) (frame : ℤ) : Prop where
  frame_ge : -1 ≤ frame
  last_eq : last = 0 ∧ frame = -1 ∨ last ≠ 0 ∧ (last : ℤ) = config.converter.getFrameLastSlot (frame - 1)

theorem Position.start : Position config 0 (-1) := ⟨le_refl _, Or.inl ⟨rfl, rfl⟩⟩

theorem AcceptedConfig.firstEpoch_pos (config : AcceptedConfig) : 1 ≤ config.converter.frameFirstEpoch (-1) := by
  have hfirst := config.firstLeftSlot
  rw [config.initialRefSlot_eq] at hfirst
  unfold Web3Converter.getEpochFirstSlot Web3Converter.slotsPerFrame at hfirst
  unfold Web3Converter.frameFirstEpoch
  by_contra hlt
  have hpos : (0 : ℤ) ≤ config.converter.chainConfig.slotsPerEpoch := Int.natCast_nonneg _
  have hmul : ((config.converter.frameConfig.initialEpoch : ℤ) - config.converter.frameConfig.epochsPerFrame) *
      config.converter.chainConfig.slotsPerEpoch ≤ 0 := mul_nonpos_of_nonpos_of_nonneg (by omega) hpos
  rw [sub_mul] at hmul
  omega

theorem Position.firstEpoch_pos (h : Position config last frame) : 1 ≤ config.converter.frameFirstEpoch frame :=
  config.firstEpoch_pos.trans (Web3Converter.frameFirstEpoch_mono h.frame_ge)

/-- The left end of a range is the first epoch that is not reported yet. -/
theorem Position.getLEpoch_eq_ok (h : Position config last frame) {blockstamp : BlockStamp} {lEpoch : ℤ} :
    (config.view last).getLEpoch blockstamp = .ok lEpoch ↔
      last ≤ blockstamp.slotNumber ∧ config.converter.frameFirstEpoch frame = lEpoch := by
  have hleft : ¬(last = 0 ∧ (config.initialRefSlot : ℤ) - config.converter.slotsPerFrame < 0) :=
    fun hbad => not_le.mpr hbad.2 config.firstLeftSlot
  have hslot : (if last = 0 then (config.initialRefSlot : ℤ) - config.converter.slotsPerFrame else last) + 1 =
      config.converter.getFrameFirstSlot frame := by
    rcases h.last_eq with ⟨hzero, rfl⟩ | ⟨hne, heq⟩
    · rw [if_pos hzero, config.initialRefSlot_eq]
      unfold Web3Converter.getEpochFirstSlot Web3Converter.slotsPerFrame Web3Converter.getFrameFirstSlot
      ring
    · rw [if_neg hne, heq, Web3Converter.getFrameLastSlot, sub_add_cancel, sub_add_cancel]
  unfold ContractView.getLEpoch AcceptedConfig.view
  dsimp only
  rw [if_neg config.isSet, if_neg hleft, Except.guard_eq_ok, Except.pure_eq_ok, hslot,
    Web3Converter.getEpochBySlot_frameFirstSlot, not_lt]

theorem Position.getReportRange_eq_ok (h : Position config last frame) {blockstamp : ReferenceBlockStamp}
    {range : ℤ × ℤ} : (config.view last).getReportRange blockstamp = .ok range ↔ last ≤ blockstamp.slotNumber ∧
      config.converter.frameFirstEpoch frame ≤ blockstamp.refEpoch ∧
      range = (config.converter.frameFirstEpoch frame, (blockstamp.refEpoch : ℤ)) := by
  unfold ContractView.getReportRange
  constructor
  · intro hrange
    obtain ⟨lEpoch, hl, hrange⟩ := Except.bind_eq_ok.mp hrange
    obtain ⟨hslot, rfl⟩ := h.getLEpoch_eq_ok.mp hl
    obtain ⟨hle, hrange⟩ := Except.guard_eq_ok.mp hrange
    exact ⟨hslot, not_lt.mp hle, (Except.pure_eq_ok.mp hrange).symm⟩
  · intro hall
    obtain ⟨hslot, hle, rfl⟩ := hall
    exact Except.bind_eq_ok.mpr ⟨_, h.getLEpoch_eq_ok.mpr ⟨hslot, rfl⟩, Except.guard_eq_ok.mpr ⟨not_lt.mpr hle, rfl⟩⟩

/-- What one report adds: it starts where the run stands, and the run then stands after its frame. -/
theorem Position.report (h : Position config last frame) {blockstamp : ReferenceBlockStamp} {range : ℤ × ℤ} {k : ℤ}
    (hframe : (blockstamp.refSlot : ℤ) = config.converter.getFrameLastSlot k)
    (hepoch : (blockstamp.refEpoch : ℤ) = config.converter.getEpochBySlot blockstamp.refSlot)
    (hrange : (config.view last).getReportRange blockstamp = .ok range) :
    frame ≤ k ∧ range = (config.converter.frameFirstEpoch frame, config.converter.frameFirstEpoch (k + 1) - 1) ∧
      Position config blockstamp.refSlot (k + 1) := by
  obtain ⟨-, hle, rfl⟩ := h.getReportRange_eq_ok.mp hrange
  rw [hframe, Web3Converter.getEpochBySlot_frameLastSlot] at hepoch
  rw [hepoch] at hle ⊢
  have hk : frame ≤ k := by
    by_contra hlt
    have hmono := @Web3Converter.frameFirstEpoch_mono config.converter (k + 1) frame (by omega)
    omega
  refine ⟨hk, rfl, by have := h.frame_ge; omega, Or.inr ⟨?_, by rw [hframe, add_sub_cancel_right]⟩⟩
  -- the last slot of a frame after the first one is not slot 0
  intro hzero
  rw [hzero, Web3Converter.getFrameLastSlot, Web3Converter.getFrameFirstSlot_eq, Web3Converter.getEpochFirstSlot] at hframe
  have hpos : (1 : ℤ) ≤ config.converter.chainConfig.slotsPerEpoch := by
    have := config.converter.chainConfig.slotsPerEpoch_pos
    omega
  have hfirst := h.firstEpoch_pos
  have hmul : (2 : ℤ) * 1 ≤ config.converter.frameFirstEpoch (k + 1) * config.converter.chainConfig.slotsPerEpoch :=
    mul_le_mul (by omega) hpos (by omega) (by omega)
  have hcast : ((0 : SlotNumber) : ℤ) = 0 := rfl
  omega

/-- The frames of a report are whole. -/
theorem Position.wholeFrames (h : Position config last frame) {k : ℤ} (hk : frame ≤ k) :
    WholeFrames config.converter
      (config.converter.frameFirstEpoch frame, config.converter.frameFirstEpoch (k + 1) - 1) frame
      (k + 1 - frame).toNat := by
  obtain ⟨count, hcount⟩ : ∃ count : ℕ, k + 1 = frame + count := ⟨(k + 1 - frame).toNat, by omega⟩
  obtain ⟨start, hstart⟩ : ∃ start : ℕ, config.converter.frameFirstEpoch frame = start :=
    ⟨(config.converter.frameFirstEpoch frame).toNat, by have := h.firstEpoch_pos; omega⟩
  have hfirst : ∀ i : ℕ, config.converter.frameFirstEpoch (frame + i) =
      ((start + i * config.converter.frameConfig.epochsPerFrame : ℕ) : ℤ) := by
    intro i
    push_cast
    rw [← hstart]
    unfold Web3Converter.frameFirstEpoch
    ring
  have hpos : 0 < count := by omega
  have hlast : (config.converter.frameFirstEpoch (frame + count) - 1).toNat =
      start + count * config.converter.frameConfig.epochsPerFrame - 1 := by
    rw [hfirst]
    omega
  obtain ⟨state, hstate, hframes⟩ := @init_range start count _ hpos config.converter.frameConfig.epochsPerFrame_pos
  have htoNat : (k + 1 - frame).toNat = count := by omega
  rw [htoNat, hcount]
  refine ⟨hpos, ?_, state, ?_, ?_⟩
  · rw [hfirst, hstart]
    push_cast
    ring
  · rw [hlast, hstart, Int.toNat_natCast]
    exact hstate
  · rw [hframes, List.map_map]
    refine List.map_congr_left fun i _ => ?_
    rw [frameEpochs_eq, add_assoc, ← Nat.cast_succ, hfirst, hfirst]
    refine Prod.ext rfl ?_
    have hepochs := config.converter.frameConfig.epochsPerFrame_pos
    dsimp only [Function.comp_apply]
    rw [Nat.succ_mul]
    omega

/-- The demand posted at a later block covers the report. -/
theorem Position.predicted (h : Position config last frame) {k : ℤ} (hk : frame ≤ k) {refSlot slotNumber : ℕ}
    (hframe : (refSlot : ℤ) = config.converter.getFrameLastSlot k) (hslot : refSlot ≤ slotNumber) :
    ∃ predicted, (config.view last).getPredictedRange ⟨slotNumber⟩ = .ok predicted ∧
      predicted.1 = config.converter.frameFirstEpoch frame ∧
      config.converter.frameFirstEpoch (k + 1) - 1 ≤ predicted.2 := by
  have hslot' : (refSlot : ℤ) ≤ slotNumber := Int.ofNat_le.mpr hslot
  have hcurrent : k ≤ config.converter.getFrameBySlot slotNumber := by
    rw [← @Web3Converter.getFrameBySlot_lastSlot config.converter k]
    exact Web3Converter.getFrameByEpoch_mono (Web3Converter.getEpochBySlot_mono (hframe ▸ hslot'))
  have hpredict : (config.view last).predictREpoch ⟨slotNumber⟩ =
      config.converter.frameFirstEpoch (config.converter.getFrameBySlot slotNumber + 1) - 1 :=
    Web3Converter.getEpochBySlot_frameLastSlot _
  have hmono := @Web3Converter.frameFirstEpoch_mono config.converter (k + 1)
    (config.converter.getFrameBySlot slotNumber + 1) (by omega)
  have hmono' := @Web3Converter.frameFirstEpoch_mono config.converter (frame + 1) (k + 1) (by omega)
  have hsucc := @Web3Converter.frameFirstEpoch_succ config.converter frame
  have hepochs := config.converter.frameConfig.epochsPerFrame_pos
  have hlast : last ≤ slotNumber := by
    refine le_trans (Int.ofNat_le.mp ?_) hslot
    rw [hframe]
    rcases h.last_eq with ⟨hzero, -⟩ | ⟨-, heq⟩
    · rw [hzero, ← hframe]
      exact Int.natCast_nonneg _
    · rw [heq]
      unfold Web3Converter.getFrameLastSlot
      rw [sub_add_cancel]
      have hle := @Web3Converter.frameFirstEpoch_mono config.converter frame (k + 1) (by omega)
      have hmul := mul_le_mul_of_nonneg_right hle (Int.natCast_nonneg config.converter.chainConfig.slotsPerEpoch)
      exact Int.sub_le_sub_right hmul 1
  refine ⟨_, Except.bind_eq_ok.mpr ⟨_, h.getLEpoch_eq_ok.mpr ⟨hlast, rfl⟩, Except.guard_eq_ok.mpr ⟨?_, rfl⟩⟩, rfl, ?_⟩
  · rw [hpredict]
    omega
  · rw [hpredict]
    omega

end Run

/-! Whole runs -/

section Tiling

variable {config : AcceptedConfig}

/-- What holds of each report of a run -/
structure ReportCovered (config : AcceptedConfig) (report : Report) : Prop where
  whole : ∃ frame count, report.range.1 = config.converter.frameFirstEpoch frame ∧
    WholeFrames config.converter report.range frame count
  demanded : ∀ blockstamp : BlockStamp, report.blockstamp.refSlot ≤ blockstamp.slotNumber →
    ∃ predicted, (config.view report.lastProcessingRefSlot).getPredictedRange blockstamp = .ok predicted ∧
      predicted.1 ≤ report.range.1 ∧ report.range.2 ≤ predicted.2

/-- The ranges so far start before the first frame, follow on one another, and end where the run stands. -/
structure Tiled (config : AcceptedConfig) (reports : List Report) (frame : ℤ) : Prop where
  first : ∀ report ∈ reports.head?, report.range.1 = config.converter.frameFirstEpoch (-1)
  chain : reports.IsChain fun report next => next.range.1 = report.range.2 + 1
  last : (reports = [] ∧ frame = -1) ∨ ∃ report ∈ reports.getLast?, report.range.2 + 1 = config.converter.frameFirstEpoch frame
  covered : ∀ report ∈ reports, ReportCovered config report

theorem Tiled.snoc {reports : List Report} {last : ℕ} {frame k : ℤ} (h : Tiled config reports frame)
    (hposition : Position config last frame) (hk : frame ≤ k) {blockstamp : ReferenceBlockStamp}
    (hframe : (blockstamp.refSlot : ℤ) = config.converter.getFrameLastSlot k) :
    Tiled config (reports ++ [⟨last, blockstamp,
      (config.converter.frameFirstEpoch frame, config.converter.frameFirstEpoch (k + 1) - 1)⟩]) (k + 1) where
  first := by
    intro report hreport
    rcases h.last with ⟨hnil, hfirst⟩ | ⟨previous, hprevious, -⟩
    · rw [hnil, List.nil_append, List.head?_cons, Option.mem_some_iff] at hreport
      rw [← hreport, hfirst]
    · obtain ⟨first, rest, hcons⟩ := List.exists_cons_of_ne_nil (List.ne_nil_of_mem (List.mem_of_getLast? hprevious))
      rw [hcons, List.cons_append, List.head?_cons, Option.mem_some_iff] at hreport
      exact h.first report (by rw [hcons, ← hreport]; rfl)
  chain := by
    refine List.IsChain.append h.chain (List.isChain_singleton _) fun previous hprevious next hnext => ?_
    rw [List.head?_cons, Option.mem_some_iff] at hnext
    rw [← hnext]
    rcases h.last with ⟨hnil, -⟩ | ⟨report, hreport, hend⟩
    · rw [hnil] at hprevious
      cases hprevious
    · rw [Option.mem_unique hprevious hreport, hend]
  last := by
    refine Or.inr ⟨_, List.getLast?_concat, ?_⟩
    exact sub_add_cancel _ _
  covered := by
    refine List.forall_mem_append.mpr ⟨h.covered, List.forall_mem_singleton.mpr ⟨?_, fun stamp hslot => ?_⟩⟩
    · exact ⟨frame, _, rfl, hposition.wholeFrames hk⟩
    · obtain ⟨predicted, hpredicted, hleft, hright⟩ := hposition.predicted hk hframe hslot
      exact ⟨predicted, hpredicted, hleft.le, hright⟩

theorem ReportsRun.tiled {reports : List Report} {last : ℕ} (h : ReportsRun config reports last) :
    ∃ frame, Position config last frame ∧ Tiled config reports frame := by
  induction h with
  | nil =>
    refine ⟨-1, Position.start, fun report hreport => ?_, List.isChain_nil, Or.inl ⟨rfl, rfl⟩, fun report hreport => ?_⟩
    · cases hreport
    · exact absurd hreport List.not_mem_nil
  | @report reports last blockstamp range _ hframe hepoch hrange ih =>
    obtain ⟨frame, hposition, htiled⟩ := ih
    obtain ⟨k, hk⟩ := hframe
    obtain ⟨hle, rfl, hnext⟩ := hposition.report hk hepoch hrange
    exact ⟨k + 1, hnext, htiled.snoc hposition hle hk⟩

/-- Over any run of reports the ranges tile the epochs from one frame before the initial epoch on; each range
is made of whole frames, and the range predicted at a later block covers it. -/
theorem reportRanges_tile {reports : List Report} {last : SlotNumber} (hrun : ReportsRun config reports last) :
    (∀ report ∈ reports.head?, report.range.1 =
      config.converter.frameConfig.initialEpoch - config.converter.frameConfig.epochsPerFrame) ∧
    (reports.IsChain fun report next => next.range.1 = report.range.2 + 1) ∧
    ∀ report ∈ reports,
      (∃ frame count, WholeFrames config.converter report.range frame count) ∧
      ∀ blockstamp : BlockStamp, report.blockstamp.refSlot ≤ blockstamp.slotNumber →
        ∃ predicted, (config.view report.lastProcessingRefSlot).getPredictedRange blockstamp = .ok predicted ∧
          predicted.1 ≤ report.range.1 ∧ report.range.2 ≤ predicted.2 := by
  obtain ⟨frame, -, htiled⟩ := hrun.tiled
  refine ⟨fun report hreport => ?_, htiled.chain, fun report hreport => ?_⟩
  · rw [htiled.first report hreport]
    unfold Web3Converter.frameFirstEpoch
    ring
  · obtain ⟨hwhole, hdemanded⟩ := htiled.covered report hreport
    obtain ⟨frame, count, -, hframes⟩ := hwhole
    exact ⟨⟨frame, count, hframes⟩, hdemanded⟩

/-- Frames of 10 epochs from epoch 20 on -/
def sampleConfig : AcceptedConfig where
  converter := ⟨ChainConfig.sample, ⟨20, 10, by decide⟩⟩
  initialRefSlot := 639
  isSet := by decide
  initialRefSlot_eq := by decide
  firstLeftSlot := by decide

/-- The first report, and a second one after a skipped frame -/
def sampleReports : List Report :=
  [⟨0, ⟨⟨638⟩, 639, 19⟩, (10, 19)⟩, ⟨639, ⟨⟨1279⟩, 1279, 39⟩, (20, 39)⟩]

theorem reportRanges_tile_sample : (∀ report ∈ sampleReports.head?, report.range.1 = 20 - 10) ∧
    (sampleReports.IsChain fun report next => next.range.1 = report.range.2 + 1) ∧
    ∀ report ∈ sampleReports,
      (∃ frame count, WholeFrames sampleConfig.converter report.range frame count) ∧
      ∀ blockstamp : BlockStamp, report.blockstamp.refSlot ≤ blockstamp.slotNumber →
        ∃ predicted, (sampleConfig.view report.lastProcessingRefSlot).getPredictedRange blockstamp = .ok predicted ∧
          predicted.1 ≤ report.range.1 ∧ report.range.2 ≤ predicted.2 :=
  @reportRanges_tile sampleConfig _ _
    (.report (.report .nil ⟨-1, by decide⟩ (by decide) rfl) ⟨1, by decide⟩ (by decide) rfl)

end Tiling

end StakingModules

end LidoOracle
