import LidoOracle.Constants
import LidoOracle.Lib.Itertools
import LidoOracle.Lib.RingBuffer
import LidoOracle.Types

/-! The checkpoints of the performance collector. A checkpoint is a state whose
block roots cover 255 duty epochs and the epoch after each of them; missed slots
are told from repeated roots. -/

namespace LidoOracle

namespace Collector

def SLOTS_PER_HISTORICAL_ROOT : ℕ := 8192
def ZERO_BLOCK_ROOT : BlockRoot := "0x0000000000000000000000000000000000000000000000000000000000000000"

/-- Every duty epoch needs the blocks of two epochs, the state holds those of 256. -/
def MAX_CHECKPOINT_STEP : ℕ := 255
def CHECKPOINT_SLOT_DELAY_EPOCHS : ℕ := 2

inductive CollectorError where
  | slotOutOfRootsRange
  deriving DecidableEq

abbrev Collect := Py CollectorError

structure ChainConverter where
  slotsPerEpoch : ℕ

def ChainConverter.getEpochFirstSlot (converter : ChainConverter) (epoch : EpochNumber) : SlotNumber :=
  epoch * converter.slotsPerEpoch

def ChainConverter.getEpochLastSlot (converter : ChainConverter) (epoch : EpochNumber) : SlotNumber :=
  (epoch + 1) * converter.slotsPerEpoch - 1

/-- The inclusive range; the right end may come from a subtraction. -/
def sequence (start : ℕ) (stop : ℤ) : Collect (List ℕ) :=
  if stop < start then .error .valueError else .ok (List.range' start (stop.toNat + 1 - start))

structure FrameCheckpoint where
  slot : SlotNumber
  dutyEpochs : List EpochNumber
  deriving DecidableEq

structure FrameCheckpointsIterator where
  converter : ChainConverter
  lEpoch : EpochNumber
  rEpoch : EpochNumber
  maxAvailableEpochToCheck : ℤ

def FrameCheckpointsIterator.init (converter : ChainConverter) (lEpoch rEpoch finalizedEpoch : EpochNumber) :
    Collect FrameCheckpointsIterator :=
  if rEpoch < lEpoch then .error .valueError
  else
    let maxAvailableEpochToCheck : ℤ := min (rEpoch : ℤ) (finalizedEpoch - CHECKPOINT_SLOT_DELAY_EPOCHS)
    if maxAvailableEpochToCheck < lEpoch then .error .valueError
    else .ok ⟨converter, lEpoch, rEpoch, maxAvailableEpochToCheck⟩

/-- `max(l)` -/
def maxOf (l : List ℕ) : Collect ℕ :=
  match l.max? with
  | some m => .ok m
  | none => .error .valueError

def checkpointOf (converter : ChainConverter) (checkpointEpochs : List EpochNumber) : Collect FrameCheckpoint := do
  let maxEpoch ← maxOf checkpointEpochs
  return ⟨converter.getEpochFirstSlot (maxEpoch + CHECKPOINT_SLOT_DELAY_EPOCHS), checkpointEpochs⟩

/-- All that `__iter__` yields -/
def FrameCheckpointsIterator.checkpoints (it : FrameCheckpointsIterator) : Collect (List FrameCheckpoint) := do
  let epochs ← sequence it.lEpoch it.maxAvailableEpochToCheck
  let batches ← Itertools.batched epochs MAX_CHECKPOINT_STEP
  batches.mapM (checkpointOf it.converter)

/-- The two requests to the consensus client -/
structure RootsClient where
  getStateBlockRoots : SlotNumber → List BlockRoot
  /-- `get_block_header(root).data.header.message.slot` -/
  getBlockHeaderSlot : BlockRoot → SlotNumber

/-- `br[i - 1]`, which for the first index is the last element -/
def previousRoot (br : List BlockRoot) (i : ℕ) : Option BlockRoot :=
  br[if i = 0 then br.length - 1 else i - 1]?

/-- Zero or duplicated roots become `None`. -/
def markMissing (br : List BlockRoot) (pivotIndex : ℕ) : List (Option BlockRoot) :=
  br.mapIdx fun i root =>
    if root ≠ ZERO_BLOCK_ROOT ∧ (i = pivotIndex ∨ some root ≠ previousRoot br i) then some root else none

/-- The oldest root has no neighbour to compare with; its header tells. -/
def isPivotMissing (client : RootsClient) (calculatedPivotSlot : SlotNumber) : Option BlockRoot → Bool
  | none => true
  | some pivotBlockRoot => client.getBlockHeaderSlot pivotBlockRoot != calculatedPivotSlot

def getBlockRoots (client : RootsClient) (checkpointSlot : SlotNumber) : Collect (List (Option BlockRoot)) := do
  let pivotIndex := checkpointSlot % SLOTS_PER_HISTORICAL_ROOT
  let br := markMissing (client.getStateBlockRoots checkpointSlot) pivotIndex
  let calculatedPivotSlot := checkpointSlot - SLOTS_PER_HISTORICAL_ROOT
  let pivot ← Py.listItem br pivotIndex
  return if isPivotMissing client calculatedPivotSlot pivot then br.set pivotIndex none else br

def selectBlockRootBySlot (blockRoots : List (Option BlockRoot)) (checkpointSlot rootSlot : SlotNumber) :
    Collect (Option BlockRoot) :=
  if ¬(rootSlot < checkpointSlot ∧ checkpointSlot ≤ rootSlot + SLOTS_PER_HISTORICAL_ROOT) then
    .error (.raised .slotOutOfRootsRange)
  else Py.listItem blockRoots (rootSlot % SLOTS_PER_HISTORICAL_ROOT)

abbrev SlotBlockRoot := SlotNumber × Option BlockRoot

def rootToCheck (blockRoots : List (Option BlockRoot)) (checkpointSlot slotToCheck : SlotNumber) : Collect SlotBlockRoot := do
  let blockRoot ← selectBlockRootBySlot blockRoots checkpointSlot slotToCheck
  return (slotToCheck, blockRoot)

/-- The slots of the duty epoch and those of the next one -/
def selectBlockRoots (converter : ChainConverter) (blockRoots : List (Option BlockRoot)) (dutyEpoch : EpochNumber)
    (checkpointSlot : SlotNumber) : Collect (List SlotBlockRoot × List SlotBlockRoot) := do
  let slots ← sequence (converter.getEpochFirstSlot dutyEpoch) (converter.getEpochLastSlot (dutyEpoch + 1))
  let rootsToCheck ← slots.mapM (rootToCheck blockRoots checkpointSlot)
  return (rootsToCheck.take converter.slotsPerEpoch, rootsToCheck.drop converter.slotsPerEpoch)

/-! The chain behind the client -/

/-- The canonical blocks. Slot zero holds the genesis block, and no block root is the zero that marks
an unwritten entry. -/
structure Chain where
  blockAt : SlotNumber → Option BlockRoot
  genesis : (blockAt 0).isSome
  distinct : ∀ {s s' root}, blockAt s = some root → blockAt s' = some root → s = s'
  nonzero : ∀ {s root}, blockAt s = some root → root ≠ ZERO_BLOCK_ROOT

/-- Root of the latest block up to a slot -/
def Chain.latestRoot (chain : Chain) : SlotNumber → BlockRoot
  | 0 => (chain.blockAt 0).get chain.genesis
  | s + 1 => (chain.blockAt (s + 1)).getD (chain.latestRoot s)

/-- `state.block_roots` in the state at a slot: every slot before it has been written once. -/
def Chain.stateBlockRoots (chain : Chain) (slot : SlotNumber) : List BlockRoot :=
  RingBuffer.written ZERO_BLOCK_ROOT chain.latestRoot SLOTS_PER_HISTORICAL_ROOT slot

/-- The client tells the truth about the chain. -/
structure RootsClient.Serves (client : RootsClient) (chain : Chain) : Prop where
  stateBlockRoots : ∀ slot, client.getStateBlockRoots slot = chain.stateBlockRoots slot
  headerSlot : ∀ slot root, chain.blockAt slot = some root → client.getBlockHeaderSlot root = slot

section Ring

variable {chain : Chain}

theorem latestRoot_block (s : ℕ) : ∃ s' : ℕ, s' ≤ s ∧ chain.blockAt s' = some (chain.latestRoot s) := by
  induction s with
  | zero => exact ⟨0, Nat.le_refl 0, (Option.some_get chain.genesis).symm⟩
  | succ s ih =>
    rw [Chain.latestRoot]
    cases hblock : chain.blockAt (s + 1) with
    | some root => exact ⟨s + 1, Nat.le_refl _, hblock⟩
    | none =>
      obtain ⟨s', hs', hroot⟩ := ih
      exact ⟨s', by omega, hroot⟩

theorem latestRoot_ne_zero (s : ℕ) : chain.latestRoot s ≠ ZERO_BLOCK_ROOT := by
  obtain ⟨s', -, hblock⟩ := @latestRoot_block chain s
  exact chain.nonzero hblock

theorem latestRoot_of_block {s : ℕ} {root : BlockRoot} (h : chain.blockAt s = some root) :
    chain.latestRoot s = root := by
  cases s with
  | zero =>
    rw [Chain.latestRoot]
    simp only [h, Option.get_some]
  | succ s => rw [Chain.latestRoot, h, Option.getD_some]

/-- A slot repeats the root before it exactly when it is missed. -/
theorem latestRoot_succ_eq_iff (s : ℕ) :
    chain.latestRoot (s + 1) = chain.latestRoot s ↔ chain.blockAt (s + 1) = none := by
  constructor
  · intro h
    cases hblock : chain.blockAt (s + 1) with
    | none => rfl
    | some root =>
      obtain ⟨s', hs', hold⟩ := @latestRoot_block chain s
      rw [latestRoot_of_block hblock] at h
      have hsame : s + 1 = s' := chain.distinct hblock (h ▸ hold)
      omega
  · intro h
    rw [Chain.latestRoot, h, Option.getD_none]

/-- The entry of a slot still in the buffer -/
theorem stateBlockRoots_recent {s slot : ℕ} (hs : s < slot) (hslot : slot ≤ s + SLOTS_PER_HISTORICAL_ROOT) :
    (chain.stateBlockRoots slot)[s % SLOTS_PER_HISTORICAL_ROOT]? = some (chain.latestRoot s) :=
  RingBuffer.written_recent (by decide) hs hslot

/-- The entry before that of slot `s` holds the root of the slot before, or nothing yet. -/
theorem previousRoot_recent {s slot : ℕ} (hs : s < slot) (hslot : slot < s + SLOTS_PER_HISTORICAL_ROOT) :
    previousRoot (chain.stateBlockRoots slot) (s % SLOTS_PER_HISTORICAL_ROOT) =
      some (match s with | 0 => ZERO_BLOCK_ROOT | s + 1 => chain.latestRoot s) := by
  unfold previousRoot
  rw [Chain.stateBlockRoots, RingBuffer.length_written]
  cases s with
  | zero =>
    rw [if_pos (Nat.zero_mod _)]
    exact RingBuffer.written_unwritten (by omega) (Nat.sub_lt (by decide) Nat.one_pos)
  | succ s =>
    have hindex : (if (s + 1) % SLOTS_PER_HISTORICAL_ROOT = 0 then SLOTS_PER_HISTORICAL_ROOT - 1
        else (s + 1) % SLOTS_PER_HISTORICAL_ROOT - 1) = s % SLOTS_PER_HISTORICAL_ROOT := by
      unfold SLOTS_PER_HISTORICAL_ROOT
      split_ifs <;> omega
    rw [hindex]
    exact stateBlockRoots_recent (by omega) (by omega)

theorem markMissing_pivot {s slot : ℕ} (h : slot = s + SLOTS_PER_HISTORICAL_ROOT) :
    (markMissing (chain.stateBlockRoots slot) (slot % SLOTS_PER_HISTORICAL_ROOT))[s % SLOTS_PER_HISTORICAL_ROOT]? =
      some (some (chain.latestRoot s)) := by
  have hpivot : s % SLOTS_PER_HISTORICAL_ROOT = slot % SLOTS_PER_HISTORICAL_ROOT := by
    rw [h, Nat.add_mod_right]
  have hpos : 0 < SLOTS_PER_HISTORICAL_ROOT := by decide
  rw [markMissing, List.getElem?_mapIdx, stateBlockRoots_recent (by omega) h.le, Option.map_some,
    if_pos ⟨latestRoot_ne_zero s, Or.inl hpivot⟩]

/-- Away from the pivot a root that repeats its neighbour is a missed slot. -/
theorem markMissing_recent {s slot : ℕ} (hs : s < slot) (hslot : slot < s + SLOTS_PER_HISTORICAL_ROOT) :
    (markMissing (chain.stateBlockRoots slot) (slot % SLOTS_PER_HISTORICAL_ROOT))[s % SLOTS_PER_HISTORICAL_ROOT]? =
      some (chain.blockAt s) := by
  have hpivot : s % SLOTS_PER_HISTORICAL_ROOT ≠ slot % SLOTS_PER_HISTORICAL_ROOT := RingBuffer.mod_ne_of_lt hs hslot
  rw [markMissing, List.getElem?_mapIdx, stateBlockRoots_recent hs hslot.le, Option.map_some,
    previousRoot_recent hs hslot]
  refine congrArg some ?_
  cases s with
  | zero =>
    rw [if_pos ⟨latestRoot_ne_zero 0, Or.inr fun h => latestRoot_ne_zero 0 (Option.some.inj h)⟩]
    exact Option.some_get chain.genesis
  | succ s =>
    cases hblock : chain.blockAt (s + 1) with
    | none =>
      have hsame := (latestRoot_succ_eq_iff s).mpr hblock
      exact if_neg fun h => (h.2.resolve_left hpivot) (congrArg some hsame)
    | some root =>
      have hdifferent : chain.latestRoot (s + 1) ≠ chain.latestRoot s := fun h => by
        rw [(latestRoot_succ_eq_iff s).mp h] at hblock
        cases hblock
      rw [if_pos ⟨latestRoot_ne_zero _, Or.inr fun h => hdifferent (Option.some.inj h)⟩, latestRoot_of_block hblock]

end Ring

section Roots

variable {client : RootsClient} {chain : Chain}

/-- The header of the latest block tells whether the pivot slot was missed. -/
theorem isPivotMissing_latestRoot (hserves : client.Serves chain) (s : ℕ) :
    isPivotMissing client s (some (chain.latestRoot s)) = (chain.blockAt s).isNone := by
  rw [isPivotMissing]
  cases hblock : chain.blockAt s with
  | some root =>
    rw [latestRoot_of_block hblock, hserves.headerSlot s root hblock]
    exact bne_self_eq_false s
  | none =>
    obtain ⟨s', -, hold⟩ := @latestRoot_block chain s
    rw [hserves.headerSlot s' _ hold]
    have hne : s' ≠ s := fun h => by
      rw [h, hblock] at hold
      cases hold
    simpa using hne

/-- Every slot in reach gets its own block root, or nothing if it was missed. -/
theorem getBlockRoots_recent (hserves : client.Serves chain) (slot : ℕ) :
    ∃ br, getBlockRoots client slot = .ok br ∧ ∀ s : ℕ, s < slot → slot ≤ s + SLOTS_PER_HISTORICAL_ROOT →
      br[s % SLOTS_PER_HISTORICAL_ROOT]? = some (chain.blockAt s) := by
  have hlength : (markMissing (chain.stateBlockRoots slot) (slot % SLOTS_PER_HISTORICAL_ROOT)).length =
      SLOTS_PER_HISTORICAL_ROOT := by
    rw [markMissing, List.length_mapIdx, Chain.stateBlockRoots, RingBuffer.length_written]
  have hlt : slot % SLOTS_PER_HISTORICAL_ROOT <
      (markMissing (chain.stateBlockRoots slot) (slot % SLOTS_PER_HISTORICAL_ROOT)).length := by
    rw [hlength]
    exact Nat.mod_lt _ (by decide)
  obtain ⟨pivot, hpivot⟩ : ∃ pivot, (markMissing (chain.stateBlockRoots slot)
      (slot % SLOTS_PER_HISTORICAL_ROOT))[slot % SLOTS_PER_HISTORICAL_ROOT]? = some pivot :=
    ⟨_, List.getElem?_eq_getElem hlt⟩
  refine ⟨if isPivotMissing client (slot - SLOTS_PER_HISTORICAL_ROOT) pivot then
      (markMissing (chain.stateBlockRoots slot) (slot % SLOTS_PER_HISTORICAL_ROOT)).set
        (slot % SLOTS_PER_HISTORICAL_ROOT) none
    else markMissing (chain.stateBlockRoots slot) (slot % SLOTS_PER_HISTORICAL_ROOT), ?_, fun s hs hslot => ?_⟩
  · unfold getBlockRoots
    rw [hserves.stateBlockRoots]
    dsimp only
    rw [Py.listItem_eq_ok.mpr hpivot, Except.ok_bind]
    rfl
  · rcases hslot.lt_or_eq with hrecent | holdest
    · have hne : slot % SLOTS_PER_HISTORICAL_ROOT ≠ s % SLOTS_PER_HISTORICAL_ROOT :=
        (RingBuffer.mod_ne_of_lt hs hrecent).symm
      split_ifs
      · rw [List.getElem?_set_ne hne]
        exact markMissing_recent hs hrecent
      · exact markMissing_recent hs hrecent
    · -- the oldest slot sits at the pivot
      have hindex : s % SLOTS_PER_HISTORICAL_ROOT = slot % SLOTS_PER_HISTORICAL_ROOT := by
        rw [holdest, Nat.add_mod_right]
      have hroot := @markMissing_pivot chain s slot holdest
      rw [hindex, hpivot, Option.some.injEq] at hroot
      have hslot' : slot - SLOTS_PER_HISTORICAL_ROOT = s := by omega
      rw [hroot, hslot', isPivotMissing_latestRoot hserves, hindex]
      cases hblock : chain.blockAt s with
      | none => exact List.getElem?_set_self hlt
      | some root =>
        rw [if_neg (by simp), hpivot, hroot, latestRoot_of_block hblock]

/-- What the spec says of one slot -/
def Chain.slotRoot (chain : Chain) (slot : SlotNumber) : SlotBlockRoot := (slot, chain.blockAt slot)

theorem selectBlockRoots_recent {converter : ChainConverter} {br : List (Option BlockRoot)} {epoch slot : ℕ}
    (hslots : 0 < converter.slotsPerEpoch)
    (hbr : ∀ s : ℕ, s < slot → slot ≤ s + SLOTS_PER_HISTORICAL_ROOT →
      br[s % SLOTS_PER_HISTORICAL_ROOT]? = some (chain.blockAt s))
    (hlast : (epoch + 2) * converter.slotsPerEpoch ≤ slot)
    (hfirst : slot ≤ epoch * converter.slotsPerEpoch + SLOTS_PER_HISTORICAL_ROOT) :
    selectBlockRoots converter br epoch slot = .ok
      ((List.range' (epoch * converter.slotsPerEpoch) converter.slotsPerEpoch).map chain.slotRoot,
        (List.range' ((epoch + 1) * converter.slotsPerEpoch) converter.slotsPerEpoch).map chain.slotRoot) := by
  have hmul : (epoch + 2) * converter.slotsPerEpoch =
      epoch * converter.slotsPerEpoch + (converter.slotsPerEpoch + converter.slotsPerEpoch) := by ring
  have hsequence : sequence (converter.getEpochFirstSlot epoch) (converter.getEpochLastSlot (epoch + 1)) =
      .ok (List.range' (epoch * converter.slotsPerEpoch) (converter.slotsPerEpoch + converter.slotsPerEpoch)) := by
    have hcount : (converter.getEpochLastSlot (epoch + 1) : ℤ).toNat + 1 - converter.getEpochFirstSlot epoch =
        converter.slotsPerEpoch + converter.slotsPerEpoch := by
      unfold ChainConverter.getEpochLastSlot ChainConverter.getEpochFirstSlot
      rw [Int.toNat_natCast, hmul]
      omega
    have hnot : ¬(converter.getEpochLastSlot (epoch + 1) : ℤ) < converter.getEpochFirstSlot epoch := by
      unfold ChainConverter.getEpochLastSlot ChainConverter.getEpochFirstSlot
      rw [hmul]
      omega
    rw [sequence, if_neg hnot, hcount]
    rfl
  have hroots : (List.range' (epoch * converter.slotsPerEpoch) (converter.slotsPerEpoch + converter.slotsPerEpoch)).mapM
      (rootToCheck br slot) = .ok ((List.range' (epoch * converter.slotsPerEpoch)
        (converter.slotsPerEpoch + converter.slotsPerEpoch)).map chain.slotRoot) := by
    refine ExceptRun.mapM_of_ok fun (s : ℕ) hs => ?_
    have hrange := List.mem_range'_1.mp hs
    have hlt : s < slot := by omega
    have hle : slot ≤ s + SLOTS_PER_HISTORICAL_ROOT := by omega
    rw [rootToCheck, selectBlockRootBySlot, if_neg (not_not_intro ⟨hlt, hle⟩), Py.listItem_eq_ok.mpr (hbr s hlt hle)]
    rfl
  unfold selectBlockRoots
  rw [hsequence, Except.ok_bind, hroots, Except.ok_bind, Except.pure_eq_ok, Prod.mk.injEq]
  have hnext : (epoch + 1) * converter.slotsPerEpoch = epoch * converter.slotsPerEpoch + converter.slotsPerEpoch * 1 := by
    ring
  constructor
  · rw [← List.map_take, List.take_range'_of_length_ge (Nat.le_add_right _ _)]
  · rw [← List.map_drop, List.drop_range', Nat.add_sub_cancel_left, hnext]

end Roots

section Iterator

theorem checkpointOf_range' {a k : ℕ} (hk : 0 < k) :
    checkpointOf ⟨32⟩ (List.range' a k) = .ok ⟨(a + k + 1) * 32, List.range' a k⟩ := by
  have hmax : (List.range' a k).max? = some (a + k - 1) := by
    rw [List.max?_eq_some_iff]
    refine ⟨List.mem_range'_1.mpr (by omega), fun b hb => ?_⟩
    have := List.mem_range'_1.mp hb
    omega
  have hslot : a + k - 1 + CHECKPOINT_SLOT_DELAY_EPOCHS = a + k + 1 := by
    unfold CHECKPOINT_SLOT_DELAY_EPOCHS
    omega
  unfold checkpointOf maxOf
  rw [hmax]
  change Except.ok _ = _
  rw [ChainConverter.getEpochFirstSlot, hslot]

theorem init_eq_ok {converter : ChainConverter} {l r f : ℕ} (hlr : l ≤ r) (hlf : (l : ℤ) ≤ min (r : ℤ) (f - 2)) :
    FrameCheckpointsIterator.init converter l r f = .ok ⟨converter, l, r, min (r : ℤ) (f - 2)⟩ := by
  unfold FrameCheckpointsIterator.init
  rw [if_neg (not_lt.mpr hlr)]
  exact if_neg (not_lt.mpr hlf)

/-- The collector sees the true blocks of every epoch that it can check. -/
theorem checkpoints_trueBlocks (client : RootsClient) (chain : Chain) (hserves : client.Serves chain)
    (l r f : ℕ) (hlr : l ≤ r) (hlf : (l : ℤ) ≤ min (r : ℤ) (f - 2)) :
    ∃ it checkpoints, FrameCheckpointsIterator.init ⟨32⟩ l r f = .ok it ∧ it.checkpoints = .ok checkpoints ∧
      (checkpoints.flatMap (·.dutyEpochs) : List ℕ) = List.range' l (min r (f - 2) + 1 - l) ∧
      ∀ checkpoint ∈ checkpoints, checkpoint.slot ≤ f * 32 ∧ ∀ epoch ∈ checkpoint.dutyEpochs,
        ∃ br, getBlockRoots client checkpoint.slot = .ok br ∧
          selectBlockRoots ⟨32⟩ br epoch checkpoint.slot = .ok
            ((List.range' (epoch * 32) 32).map chain.slotRoot, (List.range' ((epoch + 1) * 32) 32).map chain.slotRoot) := by
  have hcount : (min (r : ℤ) (f - 2)).toNat + 1 - l = min r (f - 2) + 1 - l := by omega
  have hsequence : sequence l (min (r : ℤ) (f - 2)) = .ok (List.range' l (min r (f - 2) + 1 - l)) := by
    rw [sequence, if_neg (not_lt.mpr hlf), hcount]
  have hbatched : (Itertools.batched (List.range' l (min r (f - 2) + 1 - l)) MAX_CHECKPOINT_STEP : Collect _) =
      .ok (Itertools.batches 255 (List.range' l (min r (f - 2) + 1 - l))) :=
    Itertools.batched_eq_ok.mpr ⟨by decide, rfl⟩
  have hbatch : ∀ batch ∈ Itertools.batches 255 (List.range' l (min r (f - 2) + 1 - l)),
      checkpointOf ⟨32⟩ batch = .ok ⟨(batch.headD 0 + batch.length + 1) * 32, batch⟩ := by
    intro batch hbatch
    obtain ⟨a, k, rfl, -, -, hpos, -⟩ := Itertools.mem_batches_range' (by omega) hbatch
    rw [checkpointOf_range' hpos, List.length_range']
    obtain ⟨k, rfl⟩ := Nat.exists_eq_succ_of_ne_zero hpos.ne'
    rfl
  refine ⟨_, (Itertools.batches 255 (List.range' l (min r (f - 2) + 1 - l))).map
    fun batch => ⟨(batch.headD 0 + batch.length + 1) * 32, batch⟩, init_eq_ok hlr hlf, ?_, ?_, ?_⟩
  · unfold FrameCheckpointsIterator.checkpoints
    rw [hsequence, Except.ok_bind, hbatched, Except.ok_bind]
    exact ExceptRun.mapM_of_ok hbatch
  · rw [List.flatMap_map]
    exact (List.flatMap_id' ..).trans (Itertools.batches_flatten (by omega) _)
  · intro checkpoint hcheckpoint
    obtain ⟨batch, hmem, rfl⟩ := List.mem_map.mp hcheckpoint
    obtain ⟨a, k, rfl, hla, hend, hpos, hk⟩ := Itertools.mem_batches_range' (by omega) hmem
    have hhead : (List.range' a k).headD 0 = a := by
      obtain ⟨k, rfl⟩ := Nat.exists_eq_succ_of_ne_zero hpos.ne'
      rfl
    dsimp only
    rw [hhead, List.length_range']
    have hslot : a + k + 1 ≤ f := by omega
    refine ⟨Nat.mul_le_mul_right 32 hslot, fun (epoch : ℕ) hepoch => ?_⟩
    have hrange := List.mem_range'_1.mp hepoch
    obtain ⟨br, hbr, hroots⟩ := getBlockRoots_recent hserves ((a + k + 1) * 32)
    have hreach : SLOTS_PER_HISTORICAL_ROOT = 8192 := rfl
    refine ⟨br, hbr, selectBlockRoots_recent (by decide) hroots ?_ ?_⟩
    · exact Nat.mul_le_mul_right 32 (by omega)
    · rw [hreach]
      change (a + k + 1) * 32 ≤ epoch * 32 + 8192
      omega

/-- Two blocks, at the first slots of the first two epochs -/
def twoBlocks : Chain where
  blockAt slot := if slot = 0 then some "0xaa" else if slot = 32 then some "0xbb" else none
  genesis := rfl
  distinct := by
    intro s s' root hs hs'
    have hroots : ("0xaa" : BlockRoot) ≠ "0xbb" := by decide
    split_ifs at hs hs' with h0 h0' h32' h32 h0' h32'
    · exact h0.trans h0'.symm
    · exact absurd ((Option.some.inj hs).trans (Option.some.inj hs').symm) hroots
    · exact absurd ((Option.some.inj hs').trans (Option.some.inj hs).symm) hroots
    · exact h32.trans h32'.symm
  nonzero := by
    intro s root hs
    split_ifs at hs <;> cases hs <;> decide

def twoBlocksClient : RootsClient where
  getStateBlockRoots := twoBlocks.stateBlockRoots
  getBlockHeaderSlot root := if root = "0xaa" then 0 else 32

theorem twoBlocksClient_serves : twoBlocksClient.Serves twoBlocks where
  stateBlockRoots _ := rfl
  headerSlot := by
    intro slot root h
    unfold twoBlocks at h
    dsimp only at h
    split_ifs at h with h0 h32
    · cases h
      exact h0.symm
    · cases h
      exact h32.symm

theorem checkpoints_trueBlocks_twoBlocks :
    ∃ it checkpoints, FrameCheckpointsIterator.init ⟨32⟩ 0 1 2 = .ok it ∧ it.checkpoints = .ok checkpoints ∧
      (checkpoints.flatMap (·.dutyEpochs) : List ℕ) = List.range' 0 (min 1 (2 - 2) + 1 - 0) ∧
      ∀ checkpoint ∈ checkpoints, checkpoint.slot ≤ 2 * 32 ∧ ∀ epoch ∈ checkpoint.dutyEpochs,
        ∃ br, getBlockRoots twoBlocksClient checkpoint.slot = .ok br ∧
          selectBlockRoots ⟨32⟩ br epoch checkpoint.slot = .ok
            ((List.range' (epoch * 32) 32).map twoBlocks.slotRoot,
              (List.range' ((epoch + 1) * 32) 32).map twoBlocks.slotRoot) :=
  checkpoints_trueBlocks twoBlocksClient twoBlocks twoBlocksClient_serves 0 1 2 (by decide) (by decide)

end Iterator

end Collector

end LidoOracle
