import LidoOracle.Types

/-! Slots, epochs and frames. A frame is the distance between two oracle
reports; frames before the initial epoch have negative numbers, and division
rounds down. -/

namespace LidoOracle

abbrev FrameNumber := ℤ

structure ChainConfig where
  slotsPerEpoch : ℕ
  secondsPerSlot : ℕ
  genesisTime : ℕ
  slotsPerEpoch_pos : 0 < slotsPerEpoch
  secondsPerSlot_pos : 0 < secondsPerSlot

/-- For samples: epochs of 32 slots of twelve seconds each, from time zero -/
def ChainConfig.sample : ChainConfig := ⟨32, 12, 0, Nat.zero_lt_succ 31, Nat.zero_lt_succ 11⟩

/-- For samples: one slot an epoch -/
def ChainConfig.oneSlotEpochs : ChainConfig :=
  { ChainConfig.sample with slotsPerEpoch := 1, slotsPerEpoch_pos := Nat.one_pos }

structure FrameConfig where
  initialEpoch : EpochNumber
  epochsPerFrame : ℕ
  epochsPerFrame_pos : 0 < epochsPerFrame

structure Web3Converter where
  chainConfig : ChainConfig
  frameConfig : FrameConfig

namespace Web3Converter

variable (converter : Web3Converter)

def slotsPerFrame : ℤ := converter.frameConfig.epochsPerFrame * converter.chainConfig.slotsPerEpoch

def getEpochFirstSlot (epoch : ℤ) : ℤ := epoch * converter.chainConfig.slotsPerEpoch

def getEpochLastSlot (epoch : ℤ) : ℤ := (epoch + 1) * converter.chainConfig.slotsPerEpoch - 1

def getEpochBySlot (slot : ℤ) : ℤ := slot.fdiv converter.chainConfig.slotsPerEpoch

def getSlotByTimestamp (timestamp : ℤ) : ℤ :=
  (timestamp - converter.chainConfig.genesisTime).fdiv converter.chainConfig.secondsPerSlot

def getEpochByTimestamp (timestamp : ℤ) : ℤ := converter.getEpochBySlot (converter.getSlotByTimestamp timestamp)

def getFrameFirstSlot (frame : FrameNumber) : ℤ :=
  (converter.frameConfig.initialEpoch + frame * converter.frameConfig.epochsPerFrame) *
    converter.chainConfig.slotsPerEpoch

def getFrameLastSlot (frame : FrameNumber) : ℤ := converter.getFrameFirstSlot (frame + 1) - 1

def getFrameByEpoch (epoch : ℤ) : FrameNumber :=
  (epoch - converter.frameConfig.initialEpoch).fdiv converter.frameConfig.epochsPerFrame

def getFrameBySlot (slot : ℤ) : FrameNumber := converter.getFrameByEpoch (converter.getEpochBySlot slot)

/-- The first epoch of a frame -/
def frameFirstEpoch (frame : FrameNumber) : ℤ :=
  converter.frameConfig.initialEpoch + frame * converter.frameConfig.epochsPerFrame

/-! Division rounds down: a number lies in the interval of its quotient, and in no other. -/

theorem fdiv_eq_iff {a k : ℤ} {n : ℕ} (hn : 0 < n) : a.fdiv n = k ↔ k * n ≤ a ∧ a < (k + 1) * n := by
  have hn' : (0 : ℤ) < n := Int.ofNat_lt.mpr hn
  rw [Int.fdiv_eq_ediv_of_nonneg _ hn'.le]
  constructor
  · intro h
    subst h
    exact ⟨Int.ediv_mul_le _ hn'.ne', Int.lt_ediv_add_one_mul_self _ hn'⟩
  · intro h
    exact le_antisymm (Int.lt_add_one_iff.mp ((Int.ediv_lt_iff_lt_mul hn').mpr h.2)) ((Int.le_ediv_iff_mul_le hn').mpr h.1)

variable {converter}

theorem getEpochBySlot_eq_iff {slot epoch : ℤ} : converter.getEpochBySlot slot = epoch ↔
    converter.getEpochFirstSlot epoch ≤ slot ∧ slot ≤ converter.getEpochLastSlot epoch := by
  rw [getEpochBySlot, fdiv_eq_iff converter.chainConfig.slotsPerEpoch_pos, getEpochFirstSlot, getEpochLastSlot,
    Int.le_sub_one_iff]

theorem getFrameByEpoch_eq_iff {epoch frame : ℤ} : converter.getFrameByEpoch epoch = frame ↔
    converter.frameFirstEpoch frame ≤ epoch ∧ epoch < converter.frameFirstEpoch (frame + 1) := by
  rw [getFrameByEpoch, fdiv_eq_iff converter.frameConfig.epochsPerFrame_pos, frameFirstEpoch, frameFirstEpoch]
  constructor
  · intro h
    exact ⟨by linarith [h.1], by linarith [h.2]⟩
  · intro h
    exact ⟨by linarith [h.1], by linarith [h.2]⟩

theorem frameFirstEpoch_succ (frame : ℤ) :
    converter.frameFirstEpoch (frame + 1) = converter.frameFirstEpoch frame + converter.frameConfig.epochsPerFrame := by
  unfold frameFirstEpoch
  ring

theorem getFrameFirstSlot_eq (frame : ℤ) :
    converter.getFrameFirstSlot frame = converter.getEpochFirstSlot (converter.frameFirstEpoch frame) := rfl

/-- The first epoch of a frame, from its first slot -/
theorem getEpochBySlot_frameFirstSlot (frame : ℤ) :
    converter.getEpochBySlot (converter.getFrameFirstSlot frame) = converter.frameFirstEpoch frame := by
  rw [getEpochBySlot_eq_iff, getFrameFirstSlot_eq]
  refine ⟨le_refl _, ?_⟩
  have hpos : (0 : ℤ) < converter.chainConfig.slotsPerEpoch := Int.ofNat_lt.mpr converter.chainConfig.slotsPerEpoch_pos
  unfold getEpochFirstSlot getEpochLastSlot
  rw [add_mul]
  omega

/-- The last epoch of a frame, from its last slot -/
theorem getEpochBySlot_frameLastSlot (frame : ℤ) :
    converter.getEpochBySlot (converter.getFrameLastSlot frame) = converter.frameFirstEpoch (frame + 1) - 1 := by
  have hpos : (0 : ℤ) < converter.chainConfig.slotsPerEpoch := Int.ofNat_lt.mpr converter.chainConfig.slotsPerEpoch_pos
  rw [getEpochBySlot_eq_iff, getFrameLastSlot, getFrameFirstSlot_eq]
  unfold getEpochFirstSlot getEpochLastSlot
  rw [sub_add_cancel, sub_mul]
  exact ⟨by omega, le_refl _⟩

theorem getEpochBySlot_mono {slot slot' : ℤ} (h : slot ≤ slot') :
    converter.getEpochBySlot slot ≤ converter.getEpochBySlot slot' := by
  have hpos : (0 : ℤ) < converter.chainConfig.slotsPerEpoch := Int.ofNat_lt.mpr converter.chainConfig.slotsPerEpoch_pos
  unfold getEpochBySlot
  rw [Int.fdiv_eq_ediv_of_nonneg _ hpos.le, Int.fdiv_eq_ediv_of_nonneg _ hpos.le]
  exact Int.ediv_le_ediv hpos h

theorem getFrameByEpoch_mono {epoch epoch' : ℤ} (h : epoch ≤ epoch') :
    converter.getFrameByEpoch epoch ≤ converter.getFrameByEpoch epoch' := by
  have hpos : (0 : ℤ) < converter.frameConfig.epochsPerFrame :=
    Int.ofNat_lt.mpr converter.frameConfig.epochsPerFrame_pos
  unfold getFrameByEpoch
  rw [Int.fdiv_eq_ediv_of_nonneg _ hpos.le, Int.fdiv_eq_ediv_of_nonneg _ hpos.le]
  exact Int.ediv_le_ediv hpos (by omega)

theorem frameFirstEpoch_mono {frame frame' : ℤ} (h : frame ≤ frame') :
    converter.frameFirstEpoch frame ≤ converter.frameFirstEpoch frame' := by
  unfold frameFirstEpoch
  have hmul := mul_le_mul_of_nonneg_right h (Int.natCast_nonneg converter.frameConfig.epochsPerFrame)
  omega

theorem getFrameByEpoch_firstEpoch (frame : ℤ) : converter.getFrameByEpoch (converter.frameFirstEpoch frame) = frame := by
  rw [getFrameByEpoch_eq_iff, frameFirstEpoch_succ]
  have hpos := converter.frameConfig.epochsPerFrame_pos
  exact ⟨le_refl _, by omega⟩

/-- The frame of a frame's last slot -/
theorem getFrameBySlot_lastSlot (frame : ℤ) : converter.getFrameBySlot (converter.getFrameLastSlot frame) = frame := by
  rw [getFrameBySlot, getEpochBySlot_frameLastSlot, getFrameByEpoch_eq_iff, frameFirstEpoch_succ]
  have hpos := converter.frameConfig.epochsPerFrame_pos
  exact ⟨by omega, by omega⟩

/-- A frame's last slot bounds the slots of the frames up to it. -/
theorem le_getFrameLastSlot_iff {slot frame : ℤ} :
    slot ≤ converter.getFrameLastSlot frame ↔ converter.getFrameBySlot slot ≤ frame := by
  have hpos : (0 : ℤ) < converter.chainConfig.slotsPerEpoch := Int.ofNat_lt.mpr converter.chainConfig.slotsPerEpoch_pos
  refine ⟨fun h => ?_, fun h => ?_⟩
  · rw [← converter.getFrameBySlot_lastSlot frame]
    exact getFrameByEpoch_mono (getEpochBySlot_mono h)
  · obtain ⟨-, hslot⟩ := getEpochBySlot_eq_iff.mp (rfl : converter.getEpochBySlot slot = _)
    obtain ⟨-, hepoch⟩ := getFrameByEpoch_eq_iff.mp (rfl : converter.getFrameByEpoch (converter.getEpochBySlot slot) = _)
    have hnext : converter.frameFirstEpoch (converter.getFrameBySlot slot + 1) ≤ converter.frameFirstEpoch (frame + 1) :=
      frameFirstEpoch_mono (Int.add_le_add_right h 1)
    have hepoch' : converter.getEpochBySlot slot + 1 ≤ converter.frameFirstEpoch (frame + 1) := hepoch.trans_le hnext
    have hslots := mul_le_mul_of_nonneg_right hepoch' hpos.le
    rw [getFrameLastSlot, getFrameFirstSlot_eq, getEpochFirstSlot]
    rw [getEpochLastSlot] at hslot
    omega

end Web3Converter

end LidoOracle
