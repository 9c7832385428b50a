import LidoOracle.Consensus.NonMissedSlot
import LidoOracle.Consensus.Web3Converter
import LidoOracle.Performance.Checkpoints

/-! The block root that the proposer duties of an epoch depend on: that of the
latest block before the epoch. It is looked up in the roots of the checkpoint's
state, slot by slot backwards, and beyond their edge at the node. -/

namespace LidoOracle

namespace Collector

inductive DutiesError where
  | roots (error : CollectorError)
  | slots (error : SlotError)
  deriving DecidableEq

abbrev Duties := Py DutiesError

/-- `_select_block_root_by_slot` where the slot comes from a subtraction -/
def selectBlockRootBackwards (blockRoots : List (Option BlockRoot)) (checkpointSlot : SlotNumber) (rootSlot : ℤ) :
    Duties (Option BlockRoot) :=
  if ¬(rootSlot < checkpointSlot ∧ (checkpointSlot : ℤ) ≤ rootSlot + SLOTS_PER_HISTORICAL_ROOT) then
    .error (.raised (.roots .slotOutOfRootsRange))
  else Py.listItem blockRoots (rootSlot % SLOTS_PER_HISTORICAL_ROOT).toNat

theorem selectBlockRootBackwards_inRange {blockRoots : List (Option BlockRoot)} {checkpointSlot : ℕ} {rootSlot : ℤ}
    {root : Option BlockRoot} (h : selectBlockRootBackwards blockRoots checkpointSlot rootSlot = .ok root) :
    (checkpointSlot : ℤ) ≤ rootSlot + SLOTS_PER_HISTORICAL_ROOT := by
  unfold selectBlockRootBackwards at h
  split_ifs at h with hrange
  exact hrange.2

/-- The loop: the root it breaks with, or the slot at which it leaves the window -/
def walkBack (blockRoots : List (Option BlockRoot)) (checkpointSlot : SlotNumber) (dependentSlot : ℤ) :
    Duties (ℤ ⊕ BlockRoot) :=
  match h : selectBlockRootBackwards blockRoots checkpointSlot dependentSlot with
  | .error (.raised (.roots .slotOutOfRootsRange)) => .ok (.inl dependentSlot)
  | .error error => .error error
  | .ok (some dependentRoot) => .ok (.inr dependentRoot)
  | .ok none => walkBack blockRoots checkpointSlot (dependentSlot - 1)
termination_by (dependentSlot + SLOTS_PER_HISTORICAL_ROOT + 1 - checkpointSlot).toNat
decreasing_by
  have hrange := selectBlockRootBackwards_inRange h
  omega

def getDependentRootForProposerDuties (cc : ConsensusClient) (converter : ChainConverter)
    (finalizedSlotNumber : SlotNumber) (epoch : EpochNumber) (checkpointBlockRoots : List (Option BlockRoot))
    (checkpointSlot : SlotNumber) : Duties BlockRoot := do
  let dependentSlot := converter.getEpochLastSlot (epoch - 1)
  match ← walkBack checkpointBlockRoots checkpointSlot dependentSlot with
  | .inr dependentRoot => return dependentRoot
  | .inl leftAt =>
    -- the walk stops at the genesis block at the latest
    let dependentNonMissed ← Py.lift .slots (cc.getPrevNonMissedSlot leftAt.toNat finalizedSlotNumber)
    Py.lift .slots (cc.getBlockRoot (.slot dependentNonMissed.slot))

/-- The window holds, for every slot in its range, the root of its own block, or none. -/
def IsWindow (chain : BlockChain) (blockRoots : List (Option BlockRoot)) (checkpointSlot : SlotNumber) : Prop :=
  ∀ s : ℕ, s < checkpointSlot → checkpointSlot ≤ s + SLOTS_PER_HISTORICAL_ROOT →
    blockRoots[s % SLOTS_PER_HISTORICAL_ROOT]? = some ((chain.blockAt s).map Block.root)

section Walk

variable {chain : BlockChain} {blockRoots : List (Option BlockRoot)} {checkpointSlot : ℕ}

theorem selectBlockRootBackwards_window (hwindow : IsWindow chain blockRoots checkpointSlot) {s : ℕ}
    (hs : s < checkpointSlot) : selectBlockRootBackwards blockRoots checkpointSlot s =
      if checkpointSlot ≤ s + SLOTS_PER_HISTORICAL_ROOT then .ok ((chain.blockAt s).map Block.root)
      else .error (.raised (.roots .slotOutOfRootsRange)) := by
  unfold selectBlockRootBackwards
  by_cases hrange : checkpointSlot ≤ s + SLOTS_PER_HISTORICAL_ROOT
  · have hin : ((s : ℤ) < checkpointSlot ∧ (checkpointSlot : ℤ) ≤ s + SLOTS_PER_HISTORICAL_ROOT) := by omega
    have hindex : ((s : ℤ) % (SLOTS_PER_HISTORICAL_ROOT : ℤ)).toNat = s % SLOTS_PER_HISTORICAL_ROOT := by omega
    rw [if_neg (not_not_intro hin), if_pos hrange, hindex]
    exact Py.listItem_eq_ok.mpr (hwindow s hs hrange)
  · have hout : ¬((s : ℤ) < checkpointSlot ∧ (checkpointSlot : ℤ) ≤ s + SLOTS_PER_HISTORICAL_ROOT) := by omega
    rw [if_pos hout, if_neg hrange]

/-- The walk ends at the latest block, or leaves the window having passed missed slots only. -/
theorem walkBack_spec (hgenesis : (chain.blockAt 0).isSome) (hwindow : IsWindow chain blockRoots checkpointSlot) (s : ℕ)
    (hs : s < checkpointSlot) :
    (∃ block, chain.LatestBefore (s + 1) block ∧ walkBack blockRoots checkpointSlot s = .ok (.inr block.root)) ∨
    ∃ left : ℕ, left ≤ s ∧ (∀ s' : ℕ, left < s' → s' ≤ s → chain.blockAt s' = none) ∧
      walkBack blockRoots checkpointSlot s = .ok (.inl (left : ℤ)) := by
  induction s with
  | zero =>
    have hselect := selectBlockRootBackwards_window hwindow hs
    by_cases hrange : checkpointSlot ≤ 0 + SLOTS_PER_HISTORICAL_ROOT
    · obtain ⟨block, hblock⟩ := Option.isSome_iff_exists.mp hgenesis
      rw [if_pos hrange, hblock] at hselect
      refine Or.inl ⟨block, BlockChain.latestBefore_succ hblock, ?_⟩
      rw [walkBack, hselect]
      rfl
    · rw [if_neg hrange] at hselect
      refine Or.inr ⟨0, Nat.le_refl 0, fun s' hlt hle => absurd hle (not_le.mpr hlt), ?_⟩
      rw [walkBack, hselect]
  | succ s ih =>
    have hselect := selectBlockRootBackwards_window hwindow hs
    by_cases hrange : checkpointSlot ≤ s + 1 + SLOTS_PER_HISTORICAL_ROOT
    · rw [if_pos hrange] at hselect
      cases hblock : chain.blockAt (s + 1) with
      | some block =>
        rw [hblock] at hselect
        refine Or.inl ⟨block, BlockChain.latestBefore_succ hblock, ?_⟩
        rw [walkBack, hselect]
        rfl
      | none =>
        rw [hblock] at hselect
        have hprev : ((s + 1 : ℕ) : ℤ) - 1 = (s : ℤ) := by omega
        have hstep : walkBack blockRoots checkpointSlot ((s + 1 : ℕ) : ℤ) = walkBack blockRoots checkpointSlot s := by
          rw [walkBack, hselect, ← hprev]
          rfl
        have hmissed : ∀ s' : ℕ, s + 1 ≤ s' → s' < s + 2 → chain.blockAt s' = none := fun s' hfrom hto => by
          rw [Nat.le_antisymm (Nat.le_of_lt_succ hto) hfrom]
          exact hblock
        rcases ih (Nat.lt_of_succ_lt hs) with ⟨block, hlatest, hwalk⟩ | ⟨left, hleft, hpassed, hwalk⟩
        · exact Or.inl ⟨block, hlatest.skip (Nat.le_succ _) hmissed, hstep.trans hwalk⟩
        · refine Or.inr ⟨left, Nat.le_succ_of_le hleft, fun s' hlt hle => ?_, hstep.trans hwalk⟩
          rcases Nat.le_or_eq_of_le_succ hle with hbefore | rfl
          · exact hpassed s' hlt hbefore
          · exact hblock
    · rw [if_neg hrange] at hselect
      refine Or.inr ⟨s + 1, Nat.le_refl _, fun s' hlt hle => absurd hle (not_le.mpr hlt), ?_⟩
      rw [walkBack, hselect]

end Walk

/-- From the last slot before the epoch -/
theorem getDependentRoot_of_lastSlot {cc : ConsensusClient} {chain : BlockChain} {converter : ChainConverter}
    {finalizedSlotNumber checkpointSlot : SlotNumber} {blockRoots : List (Option BlockRoot)} {epoch : EpochNumber} {s : ℕ}
    (hgenesis : (chain.blockAt 0).isSome) (hfinalized : (chain.blockAt finalizedSlotNumber).isSome)
    (hserves : cc.Serves chain finalizedSlotNumber) (hcheckpoint : checkpointSlot ≤ finalizedSlotNumber)
    (hwindow : IsWindow chain blockRoots checkpointSlot) (hlast : converter.getEpochLastSlot (epoch - 1) = s)
    (hfirst : s + 1 ≤ checkpointSlot) :
    ∃ block, chain.LatestBefore (s + 1) block ∧
      getDependentRootForProposerDuties cc converter finalizedSlotNumber epoch blockRoots checkpointSlot =
        .ok block.root := by
  unfold getDependentRootForProposerDuties
  dsimp only
  rw [hlast]
  rcases walkBack_spec hgenesis hwindow s hfirst with ⟨block, hlatest, hwalk⟩ | ⟨left, hleft, hpassed, hwalk⟩
  · refine ⟨block, hlatest, ?_⟩
    rw [hwalk]
    rfl
  · have hlate : left ≤ finalizedSlotNumber := hleft.trans ((Nat.le_of_succ_le hfirst).trans hcheckpoint)
    have hsome : chain.SomeBlock left finalizedSlotNumber := ⟨finalizedSlotNumber, hlate, le_refl _, hfinalized⟩
    rcases ConsensusClient.getPrevNonMissedSlot_of_someBlock hserves hsome with ⟨block, hlatest, hok⟩ | ⟨hnone, -⟩
    · have hskip := hlatest.skip (Nat.succ_le_succ hleft) fun s' hfrom hto =>
        hpassed s' hfrom (Nat.le_of_lt_succ hto)
      refine ⟨block, hskip, ?_⟩
      have hbefore : block.slot ≤ finalizedSlotNumber := (Nat.le_of_lt_succ hlatest.before).trans hlate
      rw [hwalk, Except.ok_bind]
      dsimp only
      rw [Int.toNat_natCast, hok, Py.lift, Except.ok_bind, ConsensusClient.getBlockRoot,
        hserves.blockRoot block.slot hbefore block hlatest.present]
      rfl
    · rw [hnone 0 (Nat.zero_le _)] at hgenesis
      cases hgenesis

theorem getEpochLastSlot_pred {converter : ChainConverter} {epoch : EpochNumber} {s : ℕ} (hepoch : 1 ≤ epoch)
    (hs : epoch * converter.slotsPerEpoch = s + 1) : converter.getEpochLastSlot (epoch - 1) = s := by
  unfold ChainConverter.getEpochLastSlot
  rw [Nat.sub_add_cancel hepoch, hs]
  rfl

/-- The root a proposer duty depends on is that of the latest block before the epoch, wherever it is found. The
checkpoint is not after the finalized block. -/
theorem getDependentRoot_latest (cc : ConsensusClient) (chain : BlockChain) (config : ChainConfig)
    (finalizedSlotNumber checkpointSlot : SlotNumber) (blockRoots : List (Option BlockRoot)) (epoch : EpochNumber)
    (hgenesis : (chain.blockAt 0).isSome) (hfinalized : (chain.blockAt finalizedSlotNumber).isSome)
    (hserves : cc.Serves chain finalizedSlotNumber) (hcheckpoint : checkpointSlot ≤ finalizedSlotNumber)
    (hwindow : IsWindow chain blockRoots checkpointSlot) (hepoch : 1 ≤ epoch)
    (hfirst : epoch * config.slotsPerEpoch ≤ checkpointSlot) :
    ∃ block, chain.LatestBefore (epoch * config.slotsPerEpoch) block ∧
      getDependentRootForProposerDuties cc ⟨config.slotsPerEpoch⟩ finalizedSlotNumber epoch blockRoots checkpointSlot =
        .ok block.root := by
  have hpos : 0 < epoch * config.slotsPerEpoch := Nat.mul_pos hepoch config.slotsPerEpoch_pos
  obtain ⟨s, hs⟩ : ∃ s, epoch * config.slotsPerEpoch = s + 1 := ⟨_, (Nat.succ_pred_eq_of_pos hpos).symm⟩
  rw [hs] at hfirst ⊢
  exact getDependentRoot_of_lastSlot hgenesis hfinalized hserves hcheckpoint hwindow (getEpochLastSlot_pred hepoch hs) hfirst

def block9000 : Block := ⟨⟨9000, "0x07", 1, "0x08", 108000⟩, "0xdd"⟩

/-- No block for longer than the window of roots reaches back -/
def outageChain : BlockChain where
  blockAt s := if s = 0 then some block0 else if s = 9000 then some block9000 else none
  slot_of_blockAt h := by
    split_ifs at h with h0 h9000
    · cases h
      exact h0.symm
    · cases h
      exact h9000.symm

def outageClient : ConsensusClient where
  blockHeader
    | .slot s => if s = 0 then .ok ⟨"0xaa", true, 0, "0x00", some true⟩
      else if s = 9000 then .ok ⟨"0xdd", true, 9000, "0xaa", some true⟩ else .error NOT_FOUND
    | .root r => if r = "0xaa" then .ok ⟨"0xaa", true, 0, "0x00", some true⟩
      else if r = "0xdd" then .ok ⟨"0xdd", true, 9000, "0xaa", some true⟩ else .error NOT_FOUND
  blockDetails
    | .root r => if r = "0xaa" then .ok block0.toBlockDetails
      else if r = "0xdd" then .ok block9000.toBlockDetails else .error NOT_FOUND
    | .slot _ => .error NOT_FOUND
  blockRoot
    | .slot s => ((outageChain.blockAt s).map Block.root).elim (.error NOT_FOUND) .ok
    | .root _ => .error NOT_FOUND

theorem outageChain_cases {s : ℕ} {block : Block} (h : outageChain.blockAt s = some block) :
    s = 0 ∧ block = block0 ∨ s = 9000 ∧ block = block9000 := by
  unfold outageChain at h
  dsimp only at h
  split_ifs at h with h0 h9000
  · exact Or.inl ⟨h0, (Option.some.inj h).symm⟩
  · exact Or.inr ⟨h9000, (Option.some.inj h).symm⟩

/-- The first block is the latest one until the outage ends. -/
theorem outageChain_latest {slot : ℕ} (hpos : 0 < slot) (hle : slot ≤ 9000) : outageChain.LatestBefore slot block0 where
  present := rfl
  before := hpos
  latest s hs hsome := by
    obtain ⟨block, hblock⟩ := Option.isSome_iff_exists.mp hsome
    rcases outageChain_cases hblock with ⟨rfl, -⟩ | ⟨rfl, -⟩
    · exact Nat.le_refl 0
    · exact absurd hs (not_lt.mpr hle)

theorem outageClient_serves (lastFinalized : SlotNumber) : outageClient.Serves outageChain lastFinalized where
  header s _ block h := by
    rcases outageChain_cases h with ⟨rfl, rfl⟩ | ⟨rfl, rfl⟩
    · exact ⟨_, rfl, rfl, rfl, rfl, rfl, by decide, fun parent hparent => absurd hparent.before (Nat.not_lt_zero _),
        fun _ => rfl⟩
    · refine ⟨_, rfl, rfl, rfl, rfl, rfl, by decide, fun parent hparent => ?_,
        fun hnone => absurd (hnone 0 (by decide)) (by decide)⟩
      rw [hparent.unique (outageChain_latest (by decide) (Nat.le_refl 9000))]
      rfl
  missed s _ h := by
    unfold outageChain at h
    dsimp only at h
    split_ifs at h with h0 h9000
    unfold outageClient
    dsimp only
    rw [if_neg h0, if_neg h9000]
  details s _ block h := by
    rcases outageChain_cases h with ⟨rfl, rfl⟩ | ⟨rfl, rfl⟩
    · rfl
    · rfl
  blockRoot s _ block h := by
    unfold outageClient
    dsimp only
    rw [h]
    rfl

/-- Epoch 500 of 16 slots, in the state at slot 9000, whose roots begin at slot 808. -/
theorem getDependentRoot_latest_outage :
    getDependentRootForProposerDuties outageClient ⟨16⟩ 9000 500 (List.replicate SLOTS_PER_HISTORICAL_ROOT none) 9000 =
      .ok "0xaa" := by
  have hwindow : IsWindow outageChain (List.replicate SLOTS_PER_HISTORICAL_ROOT none) 9000 := by
    intro s hs hrange
    have hmissed : outageChain.blockAt s = none := by
      rw [Option.eq_none_iff_forall_not_mem]
      intro block hblock
      rcases outageChain_cases hblock with ⟨rfl, -⟩ | ⟨rfl, -⟩
      · exact absurd hrange (by decide)
      · exact absurd hs (by decide)
    rw [hmissed, List.getElem?_replicate, if_pos (Nat.mod_lt _ (by decide))]
    rfl
  obtain ⟨block, hlatest, hroot⟩ := getDependentRoot_latest outageClient outageChain ⟨16, 12, 0, by decide, by decide⟩
    9000 9000 _ 500 rfl rfl (outageClient_serves 9000) (Nat.le_refl 9000) hwindow (by decide) (by decide)
  rw [hlatest.unique (outageChain_latest (by decide) (by decide))] at hroot
  exact hroot

end Collector

end LidoOracle
