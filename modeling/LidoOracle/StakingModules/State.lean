import LidoOracle.Lib.Itertools
import LidoOracle.Lib.Tally
import LidoOracle.Performance.EpochsData
import LidoOracle.StakingModules.Types

/-! The duties that a staking module oracle collects, frame by frame: running
totals for every validator, merged into the frame they belong to, and read
back one validator at a time or as an aggregate of the network. -/

namespace LidoOracle

namespace StakingModules

namespace DutyAccumulator

def merge (d other : DutyAccumulator) : DutyAccumulator where
  assigned := d.assigned + other.assigned
  included := d.included + other.included

theorem ext {d d' : DutyAccumulator} (hassigned : d.assigned = d'.assigned) (hincluded : d.included = d'.included) :
    d = d' := by
  cases d
  cases d'
  cases hassigned
  cases hincluded
  rfl

/-- Accumulators add up by merging. -/
instance : AddCommMonoid DutyAccumulator where
  add := merge
  zero := ⟨0, 0⟩
  add_assoc _ _ _ := ext (Nat.add_assoc ..) (Nat.add_assoc ..)
  zero_add _ := ext (Nat.zero_add _) (Nat.zero_add _)
  add_zero _ := ext rfl rfl
  add_comm _ _ := ext (Nat.add_comm ..) (Nat.add_comm ..)
  nsmul n a := ⟨n * a.assigned, n * a.included⟩
  nsmul_zero _ := ext (Nat.zero_mul _) (Nat.zero_mul _)
  nsmul_succ _ _ := ext (Nat.succ_mul ..) (Nat.succ_mul ..)

@[simp] theorem zero_assigned : (0 : DutyAccumulator).assigned = 0 := rfl
@[simp] theorem zero_included : (0 : DutyAccumulator).included = 0 := rfl
@[simp] theorem add_assigned (d d' : DutyAccumulator) : (d + d').assigned = d.assigned + d'.assigned := rfl
@[simp] theorem add_included (d d' : DutyAccumulator) : (d + d').included = d.included + d'.included := rfl

/-- No more duties included than assigned -/
def Valid (d : DutyAccumulator) : Prop := d.included ≤ d.assigned

theorem Valid.add {d d' : DutyAccumulator} (h : d.Valid) (h' : d'.Valid) : (d + d').Valid := Nat.add_le_add h h'

end DutyAccumulator

structure NetworkDuties where
  attestations : Dict ValidatorIndex DutyAccumulator
  proposals : Dict ValidatorIndex DutyAccumulator
  syncs : Dict ValidatorIndex DutyAccumulator

namespace NetworkDuties

def empty : NetworkDuties := ⟨Dict.empty, Dict.empty, Dict.empty⟩

def merge (d other : NetworkDuties) : NetworkDuties where
  attestations := d.attestations.addAll other.attestations.entries
  proposals := d.proposals.addAll other.proposals.entries
  syncs := d.syncs.addAll other.syncs.entries

end NetworkDuties

abbrev Frame := EpochNumber × EpochNumber

/-- `ValueError("Insufficient epochs to form a frame")` -/
inductive FramesError where
  | insufficientEpochs
  deriving DecidableEq, Repr

structure State where
  data : Dict Frame NetworkDuties

namespace State

/-- The first and the last epoch of a batch -/
def frameOf (batch : List EpochNumber) : Py FramesError Frame := do
  let first ← Py.listItem batch 0
  let last ← Py.listItem batch (batch.length - 1)
  return (first, last)

/-- Split epochs to process into frames of `epochsPerFrame` length -/
def calculateFrames (epochsToProcess : List EpochNumber) (epochsPerFrame : ℕ) : Py FramesError (List Frame) := do
  if epochsPerFrame = 0 then throw .zeroDivisionError
  if epochsToProcess.length % epochsPerFrame ≠ 0 then throw (.raised .insufficientEpochs)
  let batches ← Itertools.batched (Sorted.sortedBy id epochsToProcess) epochsPerFrame
  batches.mapM frameOf

def init (lEpoch rEpoch : EpochNumber) (epochsPerFrame : ℕ) : Py FramesError State := do
  let epochs ← Performance.sequence lEpoch rEpoch
  let frames ← calculateFrames epochs epochsPerFrame
  return ⟨Dict.ofList (frames.map fun frame => (frame, NetworkDuties.empty))⟩

def frames (state : State) : List Frame := state.data.keys

def frameData (state : State) (frame : Frame) : Distributing NetworkDuties :=
  match state.data.get? frame with
  | some duties => .ok duties
  | none => .error (.raised .noFrameData)

def saveDuties (state : State) (frame : Frame) (data : NetworkDuties) : Distributing State := do
  let frameData ← state.frameData frame
  return ⟨state.data.set frame (frameData.merge data)⟩

def getValidatorDuties (state : State) (frame : Frame) (validatorIndex : ValidatorIndex) :
    Distributing ValidatorDuties := do
  let frameData ← state.frameData frame
  return ⟨frameData.attestations.get? validatorIndex, frameData.proposals.get? validatorIndex,
    frameData.syncs.get? validatorIndex⟩

def aggregateDuty (aggr : DutyAccumulator) (duty : ValidatorIndex × DutyAccumulator) : Distributing DutyAccumulator :=
  if duty.2.included > duty.2.assigned then .error (.raised .invalidAccumulator) else .ok (aggr.merge duty.2)

def getDutyNetworkAggr (dutyFrameData : Dict ValidatorIndex DutyAccumulator) : Distributing DutyAccumulator :=
  dutyFrameData.entries.foldlM aggregateDuty ⟨0, 0⟩

def getAttNetworkAggr (state : State) (frame : Frame) : Distributing DutyAccumulator := do
  let frameData ← state.frameData frame
  getDutyNetworkAggr frameData.attestations

def getPropNetworkAggr (state : State) (frame : Frame) : Distributing DutyAccumulator := do
  let frameData ← state.frameData frame
  getDutyNetworkAggr frameData.proposals

def getSyncNetworkAggr (state : State) (frame : Frame) : Distributing DutyAccumulator := do
  let frameData ← state.frameData frame
  getDutyNetworkAggr frameData.syncs

end State

/-! What is kept of valid accumulators -/

/-- Every accumulator of the map is valid. -/
def ValidDuties (duties : Dict ValidatorIndex DutyAccumulator) : Prop := ∀ vid : ℕ, (duties.totalAt vid).Valid

structure NetworkDuties.Valid (d : NetworkDuties) : Prop where
  attestations : ValidDuties d.attestations
  proposals : ValidDuties d.proposals
  syncs : ValidDuties d.syncs

theorem validDuties_empty : ValidDuties Dict.empty := fun _ => le_rfl

theorem ValidDuties.addTo {duties : Dict ValidatorIndex DutyAccumulator} (h : ValidDuties duties) (vid : ℕ)
    {d : DutyAccumulator} (hd : d.Valid) : ValidDuties (duties.addTo vid d) := by
  intro k
  rw [Dict.totalAt_addTo]
  split_ifs
  · exact (h k).add hd
  · exact (add_zero (duties.totalAt k)).symm ▸ h k

theorem ValidDuties.addAll {duties : Dict ValidatorIndex DutyAccumulator} (h : ValidDuties duties)
    {amounts : List (ValidatorIndex × DutyAccumulator)} (hamounts : ∀ a ∈ amounts, a.2.Valid) :
    ValidDuties (duties.addAll amounts) := by
  unfold Dict.addAll
  induction amounts generalizing duties with
  | nil => exact h
  | cons a amounts ih =>
    rw [List.forall_mem_cons] at hamounts
    exact ih (h.addTo a.1 hamounts.1) hamounts.2

theorem ValidDuties.entries {duties : Dict ValidatorIndex DutyAccumulator} (h : ValidDuties duties)
    {entry : ValidatorIndex × DutyAccumulator} (hentry : entry ∈ duties.entries) : entry.2.Valid := by
  have hvalid := h entry.1
  rwa [Dict.totalAt_of_mem_entries (k := entry.1) (x := entry.2) hentry] at hvalid

theorem NetworkDuties.Valid.merge {d other : NetworkDuties} (h : d.Valid) (hother : other.Valid) : (d.merge other).Valid where
  attestations := h.attestations.addAll fun _ => hother.attestations.entries
  proposals := h.proposals.addAll fun _ => hother.proposals.entries
  syncs := h.syncs.addAll fun _ => hother.syncs.entries

/-- The aggregate of a valid map exists: it is the sum of the accumulators. -/
theorem State.getDutyNetworkAggr_of_valid {duties : Dict ValidatorIndex DutyAccumulator} (h : ValidDuties duties) :
    State.getDutyNetworkAggr duties = .ok (duties.values.sum) := by
  have hentries : ∀ entry ∈ duties.entries, entry.2.Valid := fun _ => h.entries
  unfold State.getDutyNetworkAggr Dict.values
  suffices hgen : ∀ (entries : List (ValidatorIndex × DutyAccumulator)) (aggr : DutyAccumulator),
      (∀ entry ∈ entries, entry.2.Valid) →
      entries.foldlM State.aggregateDuty aggr = .ok (aggr + (entries.map Prod.snd).sum) from
    (hgen _ _ hentries).trans (congrArg Except.ok (zero_add _))
  intro entries
  induction entries with
  | nil => exact fun aggr _ => congrArg Except.ok (add_zero aggr).symm
  | cons entry entries ih =>
    intro aggr hvalid
    rw [List.forall_mem_cons] at hvalid
    rw [List.foldlM_cons, State.aggregateDuty, if_neg (not_lt.mpr hvalid.1), Except.ok_bind, ih _ hvalid.2,
      List.map_cons, List.sum_cons, ← add_assoc]
    rfl

end StakingModules

end LidoOracle
