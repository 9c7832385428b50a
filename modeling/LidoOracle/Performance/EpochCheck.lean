import LidoOracle.Performance.CheckDuties

/-! One epoch from the lookups to the record. The proposer duties count only with
the root that they depend on, and the sync committee is asked at the state of the
latest block up to the epoch and kept for its period. -/

namespace LidoOracle

namespace Performance

open LidoOracle.Collector (ChainConverter SlotBlockRoot IsWindow getDependentRootForProposerDuties)

def EPOCHS_PER_SYNC_COMMITTEE_PERIOD : ℕ := 256

structure SyncCommitteesCache where
  maxSize : ℕ
  two_le_maxSize : 2 ≤ maxSize
  periods : Dict ℕ (List ValidatorIndex)

/-- A full cache drops its oldest period first, also when the period is there already. -/
def SyncCommitteesCache.setItem (cache : SyncCommitteesCache) (syncCommitteePeriod : ℕ) (value : List ValidatorIndex) :
    SyncCommitteesCache :=
  let periods := match cache.periods.keys.min? with
    | some oldest => if cache.periods.keys.length ≥ cache.maxSize then cache.periods.erase oldest else cache.periods
    | none => cache.periods
  { cache with periods := periods.set syncCommitteePeriod value }

/-- What the node answers. The proposer duties come with the root they depend on. -/
structure DutiesNode where
  consensus : ConsensusClient
  proposerDuties : EpochNumber → Checking (List ProposerDuties × BlockRoot)
  attestationCommittees : BlockStamp → EpochNumber → Checking (List SlotAttestationCommittee)
  syncCommittee : BlockStamp → EpochNumber → Checking (List ValidatorIndex)
  blockAttestationsAndSync : BlockRoot → Checking BlockDuties

namespace DutiesNode

variable (node : DutiesNode) (converter : ChainConverter) (finalizedBlockstamp : BlockStamp)

def getProposerDuties (epoch : EpochNumber) (expectedDependentRoot : BlockRoot) : Checking (List ProposerDuties) := do
  let (data, dependentRoot) ← node.proposerDuties epoch
  if dependentRoot ≠ expectedDependentRoot then
    throw (.raised (.dependentRootMismatch dependentRoot expectedDependentRoot))
  return data

/-- `_prepare_propose_duties` up to the duties; `prepareProposeDuties` files them by their slots. -/
def lookUpProposerDuties (epoch : EpochNumber) (checkpointBlockRoots : List (Option BlockRoot))
    (checkpointSlot : SlotNumber) : Checking (List ProposerDuties) := do
  let dependentRoot ← Py.lift .lookup (getDependentRootForProposerDuties node.consensus converter
    finalizedBlockstamp.slotNumber epoch checkpointBlockRoots checkpointSlot)
  node.getProposerDuties epoch dependentRoot

def getSyncCommittee (cache : SyncCommitteesCache) (epoch : EpochNumber) :
    Checking (List ValidatorIndex × SyncCommitteesCache) := do
  let syncCommitteePeriod := epoch / EPOCHS_PER_SYNC_COMMITTEE_PERIOD
  match cache.periods.get? syncCommitteePeriod with
  | some cachedSyncCommittee => return (cachedSyncCommittee, cache)
  | none =>
    let stateBlockstamp ← Py.lift (fun error => .lookup (.slots error))
      (getBlockstamp node.consensus (converter.getEpochFirstSlot epoch) finalizedBlockstamp.slotNumber)
    let syncCommittee ← node.syncCommittee stateBlockstamp epoch
    return (syncCommittee, cache.setItem syncCommitteePeriod syncCommittee)

def checkDuties (db : DutiesDB) (cache : SyncCommitteesCache) (checkpointBlockRoots : List (Option BlockRoot))
    (checkpointSlot : SlotNumber) (dutyEpoch : EpochNumber) (dutyEpochRoots nextEpochRoots : List SlotBlockRoot) :
    Checking (DutiesDB × SyncCommitteesCache) := do
  let proposerDuties ← node.lookUpProposerDuties converter finalizedBlockstamp dutyEpoch checkpointBlockRoots
    checkpointSlot
  let attestationCommittees ← node.attestationCommittees finalizedBlockstamp dutyEpoch
  let (syncCommittee, cache) ← node.getSyncCommittee converter finalizedBlockstamp cache dutyEpoch
  let data ← collectDuties ⟨fun _ => proposerDuties, fun _ => attestationCommittees, fun _ => syncCommittee,
    node.blockAttestationsAndSync⟩ converter.slotsPerEpoch dutyEpoch dutyEpochRoots nextEpochRoots
  let db ← Py.lift .db (db.storeEpoch dutyEpoch data)
  return (db, cache)

end DutiesNode

/-- The cache keeps to its size, and what it has are the committees of their periods. -/
structure SyncCommitteesCache.Right (cache : SyncCommitteesCache) (cc : DutiesClient) : Prop where
  size : cache.periods.keys.length ≤ cache.maxSize
  committees : ∀ epoch committee, cache.periods.get? (epoch / EPOCHS_PER_SYNC_COMMITTEE_PERIOD) = some committee →
    committee = cc.getSyncCommittee epoch

/-- A sync committee serves for a period. -/
def PeriodicCommittees (cc : DutiesClient) : Prop :=
  ∀ epoch epoch' : ℕ, epoch / EPOCHS_PER_SYNC_COMMITTEE_PERIOD = epoch' / EPOCHS_PER_SYNC_COMMITTEE_PERIOD →
    cc.getSyncCommittee epoch = cc.getSyncCommittee epoch'

/-- The node serves what the chain has on the epoch: its finalized blocks, the proposers with the root of the latest
block before the epoch, and the sync committee in the state of the latest block up to its first slot. -/
structure DutiesNode.Serves (node : DutiesNode) (chain : BlockChain) (cc : DutiesClient) (converter : ChainConverter)
    (finalizedBlockstamp : BlockStamp) (epoch : EpochNumber) : Prop where
  genesis : (chain.blockAt 0).isSome
  finalized : (chain.blockAt finalizedBlockstamp.slotNumber).isSome
  consensus : node.consensus.Serves chain finalizedBlockstamp.slotNumber
  proposers : ∀ block, chain.LatestBefore (converter.getEpochFirstSlot epoch) block →
    node.proposerDuties epoch = .ok (cc.getProposerDuties epoch, block.root)
  committees : node.attestationCommittees finalizedBlockstamp epoch = .ok (cc.getAttestationCommittees epoch)
  syncs : ∀ block, chain.LatestBefore (converter.getEpochFirstSlot epoch + 1) block →
    node.syncCommittee (buildBlockstamp block.toBlockDetails) epoch = .ok (cc.getSyncCommittee epoch)
  blocks : node.blockAttestationsAndSync = cc.getBlockAttestationsAndSync

section Cache

variable {cache : SyncCommitteesCache} {cc : DutiesClient}

theorem SyncCommitteesCache.Right.setItem (h : cache.Right cc) (hperiodic : PeriodicCommittees cc) (epoch : EpochNumber) :
    (cache.setItem (epoch / EPOCHS_PER_SYNC_COMMITTEE_PERIOD) (cc.getSyncCommittee epoch)).Right cc := by
  -- What is left of the cache to make room
  obtain ⟨kept, hset, hsize, hkept⟩ : ∃ kept : Dict ℕ (List ValidatorIndex),
      cache.setItem (epoch / EPOCHS_PER_SYNC_COMMITTEE_PERIOD) (cc.getSyncCommittee epoch) =
        { cache with periods := kept.set (epoch / EPOCHS_PER_SYNC_COMMITTEE_PERIOD) (cc.getSyncCommittee epoch) } ∧
      kept.keys.length + 1 ≤ cache.maxSize ∧
      ∀ period committee, kept.get? period = some committee → cache.periods.get? period = some committee := by
    have htwo := cache.two_le_maxSize
    rcases holdest : cache.periods.keys.min? with _ | oldest
    · have hempty : cache.periods.keys = [] := List.min?_eq_none_iff.mp holdest
      refine ⟨cache.periods, by simp [SyncCommitteesCache.setItem, holdest], ?_, fun _ _ hget => hget⟩
      rw [hempty, List.length_nil]
      omega
    · by_cases hfull : cache.periods.keys.length ≥ cache.maxSize
      · refine ⟨cache.periods.erase oldest, by simp [SyncCommitteesCache.setItem, holdest, hfull], ?_, ?_⟩
        · have hsize := h.size
          rw [Dict.keys_erase, List.length_erase_of_mem (List.min?_mem holdest)]
          omega
        · intro period committee hget
          rw [Dict.get?_erase] at hget
          split_ifs at hget
          exact hget
      · exact ⟨cache.periods, by simp [SyncCommitteesCache.setItem, holdest, hfull], by omega, fun _ _ hget => hget⟩
  rw [hset]
  refine ⟨?_, fun other committee hget => ?_⟩
  · by_cases hmem : epoch / EPOCHS_PER_SYNC_COMMITTEE_PERIOD ∈ kept
    · rw [Dict.keys_set_of_mem hmem]
      exact (Nat.le_succ _).trans hsize
    · rw [Dict.keys_set_of_not_mem hmem, List.length_append]
      exact hsize
  · rw [Dict.get?_set] at hget
    split_ifs at hget with hperiod
    · rw [← Option.some.inj hget]
      exact hperiodic _ _ hperiod.symm
    · exact h.committees other committee (hkept _ _ hget)

end Cache

namespace DutiesNode

variable {node : DutiesNode} {chain : BlockChain} {cc : DutiesClient} {converter : ChainConverter}
  {finalizedBlockstamp : BlockStamp} {epoch : EpochNumber} {cache : SyncCommitteesCache}
  {checkpointBlockRoots : List (Option BlockRoot)} {checkpointSlot : SlotNumber}

section Lookups

variable (h : node.Serves chain cc converter finalizedBlockstamp epoch)
include h

/-- The root that the oracle expects is that of the latest block before the epoch. -/
theorem Serves.dependentRoot (hwindow : IsWindow chain checkpointBlockRoots checkpointSlot)
    (hcheckpoint : checkpointSlot ≤ finalizedBlockstamp.slotNumber) (hfirst : 0 < converter.getEpochFirstSlot epoch)
    (hbefore : converter.getEpochFirstSlot epoch ≤ checkpointSlot) :
    ∃ block, chain.LatestBefore (converter.getEpochFirstSlot epoch) block ∧
      getDependentRootForProposerDuties node.consensus converter finalizedBlockstamp.slotNumber epoch
        checkpointBlockRoots checkpointSlot = .ok block.root := by
  have hepoch : 1 ≤ epoch := Nat.pos_of_ne_zero fun hzero => by
    rw [hzero, LidoOracle.Collector.ChainConverter.getEpochFirstSlot, Nat.zero_mul] at hfirst
    exact lt_irrefl 0 hfirst
  obtain ⟨s, hs⟩ : ∃ s, converter.getEpochFirstSlot epoch = s + 1 := ⟨_, (Nat.succ_pred_eq_of_pos hfirst).symm⟩
  rw [hs] at hbefore ⊢
  exact LidoOracle.Collector.getDependentRoot_of_lastSlot h.genesis h.finalized h.consensus hcheckpoint hwindow
    (LidoOracle.Collector.getEpochLastSlot_pred hepoch hs) hbefore

theorem Serves.getSyncCommittee (hcache : cache.Right cc) (hperiodic : PeriodicCommittees cc)
    (hle : converter.getEpochFirstSlot epoch ≤ finalizedBlockstamp.slotNumber) :
    ∃ cache', node.getSyncCommittee converter finalizedBlockstamp cache epoch = .ok (cc.getSyncCommittee epoch, cache') ∧
      cache'.Right cc := by
  unfold DutiesNode.getSyncCommittee
  rcases hget : cache.periods.get? (epoch / EPOCHS_PER_SYNC_COMMITTEE_PERIOD) with _ | committee
  · refine ⟨_, ?_, hcache.setItem hperiodic epoch⟩
    have hsome : chain.SomeBlock (converter.getEpochFirstSlot epoch) finalizedBlockstamp.slotNumber :=
      ⟨finalizedBlockstamp.slotNumber, hle, le_rfl, h.finalized⟩
    rcases ConsensusClient.getPrevNonMissedSlot_of_someBlock h.consensus hsome with ⟨block, hlatest, hok⟩ | ⟨hnone, -⟩
    · have hstamp : getBlockstamp node.consensus (converter.getEpochFirstSlot epoch) finalizedBlockstamp.slotNumber =
          .ok (buildBlockstamp block.toBlockDetails) := by
        rw [getBlockstamp, hok]
        rfl
      dsimp only
      rw [hget, hstamp, Py.lift, Except.ok_bind, h.syncs block hlatest]
      rfl
    · have hgenesis := h.genesis
      rw [hnone 0 (Nat.zero_le _)] at hgenesis
      cases hgenesis
  · refine ⟨cache, ?_, hcache⟩
    dsimp only
    rw [hget, hcache.committees epoch committee hget]
    rfl

end Lookups

/-- Checking an epoch after the first stores a record that says what happened, under its own epoch, and pruning aside
it touches no other. The cache of the sync committees stays right. -/
theorem checkDuties_stores (h : node.Serves chain cc converter finalizedBlockstamp epoch) {contents : BlockContents}
    {dutyEpochRoots nextEpochRoots : List SlotBlockRoot}
    (hserved : EpochServed cc converter.slotsPerEpoch contents epoch dutyEpochRoots nextEpochRoots)
    (hcache : cache.Right cc) (hperiodic : PeriodicCommittees cc)
    (hwindow : IsWindow chain checkpointBlockRoots checkpointSlot)
    (hcheckpoint : checkpointSlot ≤ finalizedBlockstamp.slotNumber) (hfirst : 0 < converter.getEpochFirstSlot epoch)
    (hbefore : converter.getEpochFirstSlot epoch ≤ checkpointSlot) {db : DutiesDB} {retention : ℤ}
    (hretains : DutiesDB.Retains db retention) :
    ∃ data db' cache', node.checkDuties converter finalizedBlockstamp db cache checkpointBlockRoots checkpointSlot epoch
        dutyEpochRoots nextEpochRoots = .ok (db', cache') ∧
      Truthful cc contents epoch dutyEpochRoots nextEpochRoots data ∧ cache'.Right cc ∧
      DutiesDB.Retains db' retention ∧
      ∀ e : ℕ, db'.duties.get? e = if ((db.storeData epoch data).maxEpoch.getD epoch : ℤ) - retention + 1 ≤ e then
          if e = epoch then some data else db.duties.get? e
        else none := by
  obtain ⟨block, hlatest, hroot⟩ := h.dependentRoot hwindow hcheckpoint hfirst hbefore
  have hproposers : node.lookUpProposerDuties converter finalizedBlockstamp epoch checkpointBlockRoots checkpointSlot =
      .ok (cc.getProposerDuties epoch) := by
    rw [lookUpProposerDuties, hroot, Py.lift, Except.ok_bind, getProposerDuties, h.proposers block hlatest,
      Except.ok_bind]
    exact if_neg (not_not_intro rfl)
  obtain ⟨cache', hsyncs, hcache'⟩ := h.getSyncCommittee hcache hperiodic (hbefore.trans hcheckpoint)
  obtain ⟨data, hdata, htruthful⟩ := collectDuties_spec hserved
  have hstored : DutiesDB.Retains (db.storeData epoch data) retention := hretains
  obtain ⟨db', hprune, hretains', hrows⟩ := DutiesDB.prune_ok hstored epoch
  have hstore : db.storeEpoch epoch data = .ok db' := hprune
  refine ⟨data, db', cache', ?_, htruthful, hcache', hretains', fun e => ?_⟩
  · -- what is counted depends on the epoch's own lookups only
    have hcount : collectDuties ⟨fun _ => cc.getProposerDuties epoch, fun _ => cc.getAttestationCommittees epoch,
        fun _ => cc.getSyncCommittee epoch, node.blockAttestationsAndSync⟩ converter.slotsPerEpoch epoch dutyEpochRoots
        nextEpochRoots = .ok data := by
      rw [h.blocks]
      exact hdata
    rw [checkDuties, hproposers, Except.ok_bind, h.committees, Except.ok_bind, hsyncs, Except.ok_bind]
    dsimp only
    rw [hcount, Except.ok_bind, hstore]
    rfl
  · rw [hrows, DutiesDB.get?_storeData]

/-- A node that answers on another branch is found out, and nothing is stored. -/
theorem checkDuties_mismatch (h : node.Serves chain cc converter finalizedBlockstamp epoch) {node' : DutiesNode}
    (hconsensus : node'.consensus = node.consensus) {duties : List ProposerDuties} {root : BlockRoot}
    (hanswer : node'.proposerDuties epoch = .ok (duties, root))
    (hother : ∀ block, chain.LatestBefore (converter.getEpochFirstSlot epoch) block → root ≠ block.root)
    (hwindow : IsWindow chain checkpointBlockRoots checkpointSlot)
    (hcheckpoint : checkpointSlot ≤ finalizedBlockstamp.slotNumber) (hfirst : 0 < converter.getEpochFirstSlot epoch)
    (hbefore : converter.getEpochFirstSlot epoch ≤ checkpointSlot) (db : DutiesDB)
    (dutyEpochRoots nextEpochRoots : List SlotBlockRoot) :
    ∃ expected, node'.checkDuties converter finalizedBlockstamp db cache checkpointBlockRoots checkpointSlot epoch
      dutyEpochRoots nextEpochRoots = .error (.raised (.dependentRootMismatch root expected)) := by
  obtain ⟨block, hlatest, hroot⟩ := h.dependentRoot hwindow hcheckpoint hfirst hbefore
  refine ⟨block.root, ?_⟩
  have hproposers : node'.lookUpProposerDuties converter finalizedBlockstamp epoch checkpointBlockRoots
      checkpointSlot = .error (.raised (.dependentRootMismatch root block.root)) := by
    rw [lookUpProposerDuties, hconsensus, hroot, Py.lift, Except.ok_bind, getProposerDuties, hanswer, Except.ok_bind]
    dsimp only
    rw [if_pos (hother block hlatest)]
    rfl
  rw [checkDuties, hproposers]
  rfl

end DutiesNode

/-! Epoch 5 of three slots, in the state at slot 21. Its only block, at slot 16, has the vote of the first of the two
attesters of slot 15 and lacks the first seat; the latest block before the epoch is the genesis block. -/

def gapDuties : DutiesClient where
  getProposerDuties _ := [⟨1, 15⟩, ⟨3, 16⟩, ⟨2, 17⟩]
  getAttestationCommittees _ := [⟨0, 15, [5, 6]⟩, ⟨0, 16, [7]⟩]
  getSyncCommittee _ := [1, 2, 3, 4, 5, 6, 7, 8]
  getBlockAttestationsAndSync root :=
    if root = "0xbb" then .ok ⟨[⟨"0x05", "0x0100000000000000", ⟨15⟩⟩], ⟨"0xfe"⟩⟩ else .error (.raised .client)

def gapNode : DutiesNode where
  consensus := gapClient
  proposerDuties epoch := .ok (gapDuties.getProposerDuties epoch, "0xaa")
  attestationCommittees _ epoch := .ok (gapDuties.getAttestationCommittees epoch)
  syncCommittee blockstamp epoch :=
    if blockstamp.slotNumber = 0 then .ok (gapDuties.getSyncCommittee epoch) else .error (.raised .client)
  blockAttestationsAndSync := gapDuties.getBlockAttestationsAndSync

def gapContents : BlockContents where
  duties _ := ⟨[⟨"0x05", "0x0100000000000000", ⟨15⟩⟩], ⟨"0xfe"⟩⟩
  votes _ := [(0, [true, false])]
  syncBits _ := [false, true, true, true, true, true, true, true]

def gapFinalized : BlockStamp := buildBlockstamp block23.toBlockDetails

def gapRoots : List SlotBlockRoot := [(15, none), (16, some "0xbb"), (17, none)]

def gapNextRoots : List SlotBlockRoot := [(18, none), (19, none), (20, none)]

theorem gapNode_serves : gapNode.Serves gapChain gapDuties ⟨3⟩ gapFinalized 5 where
  genesis := rfl
  finalized := rfl
  consensus := gapClient_serves _
  proposers block hlatest := by
    have hfirst : gapChain.LatestBefore 15 block0 := ⟨rfl, by decide, by decide⟩
    rw [hlatest.unique hfirst]
    rfl
  committees := rfl
  syncs block hlatest := by
    rw [hlatest.unique gapChain_latest16]
    rfl
  blocks := rfl

theorem gapDuties_electra : Electra (prepareAttestationDuties gapDuties 5).1 ⟨"0x05", "0x0100000000000000", ⟨15⟩⟩
    [(0, [true, false])] where
  aggregation := by decide +kernel
  indices := by
    refine ⟨[1, 0, 0, 0, 0, 0, 0, 0], by decide +kernel, fun i => ?_⟩
    rcases Nat.lt_or_ge i 64 with hi | hi
    · revert i
      decide +kernel
    · have hnone : ([1, 0, 0, 0, 0, 0, 0, 0] : HexBytes).getD (i / 8) 0 = 0 :=
        List.getD_eq_default _ _ (show 8 ≤ i / 8 by omega)
      refine iff_of_false (fun hmem => ?_) ?_
      · have hzero : i = 0 := List.mem_singleton.mp hmem
        omega
      · rw [PackedBits.bitAt, hnone]
        exact Bool.not_eq_true _ ▸ Nat.zero_testBit _
  ascending := List.pairwise_singleton _ _
  members := .inl fun vote hvote => by
    rw [List.mem_singleton.mp hvote]
    exact ⟨[5, 6], rfl, rfl⟩

theorem gapDuties_served : EpochServed gapDuties 3 gapContents 5 gapRoots gapNextRoots where
  slots := by decide
  slots_le := le_rfl
  proposers := List.Perm.refl _
  seats := by decide
  blocks := fun slotRoot hslotRoot root hroot => by
    have hblock : slotRoot = (16, some "0xbb") := by
      simp only [gapRoots, gapNextRoots, List.cons_append, List.nil_append, List.mem_cons, List.not_mem_nil,
        or_false] at hslotRoot
      rcases hslotRoot with rfl | rfl | rfl | rfl | rfl | rfl <;> first | rfl | cases hroot
    rw [hblock] at hroot
    cases hroot
    refine ⟨rfl, fun attestation hattestation => ?_, fun _ => ⟨by decide +kernel, rfl⟩⟩
    rw [List.mem_singleton.mp hattestation]
    exact gapDuties_electra

theorem gapRoots_votedAt (vid : ValidatorIndex) :
    (∃ slotRoot ∈ gapRoots ++ gapNextRoots, VotedAt (prepareAttestationDuties gapDuties 5).1 gapContents slotRoot vid) ↔
      vid = 5 := by
  constructor
  · rintro ⟨slotRoot, -, root, -, attestation, hattestation, vote, hvote, members, hmembers, i, hbit, hvid⟩
    rw [List.mem_singleton.mp hattestation] at hmembers
    rw [List.mem_singleton.mp hvote] at hbit hmembers
    obtain rfl : [5, 6] = members := Option.some.inj hmembers
    have hzero : i = 0 := by
      rcases i with _ | _ | i
      · rfl
      · cases hbit
      · cases hbit
    rw [hzero] at hvid
    exact (Option.some.inj hvid).symm
  · rintro rfl
    exact ⟨(16, some "0xbb"), by decide, "0xbb", rfl, _, List.mem_singleton_self _, _, List.mem_singleton_self _,
      [5, 6], rfl, 0, rfl, rfl⟩

def gapCache : SyncCommitteesCache := ⟨2, le_rfl, Dict.empty⟩

namespace DutiesNode

theorem checkDuties_stores_gap : ∃ data db' cache', gapNode.checkDuties ⟨3⟩ gapFinalized DutiesDB.emptyDB gapCache
      ((List.range 21).map fun s => (gapChain.blockAt s).map Block.root) 21 5 gapRoots gapNextRoots = .ok (db', cache') ∧
    db'.duties.get? 5 = some data ∧ (∀ vid, vid ∈ data.missedAttestationVids ↔ vid = 6 ∨ vid = 7) ∧
    data.proposalsVids = [1, 3, 2] ∧ data.proposalsFlags = [false, true, false] ∧
    data.syncsVids = [1, 2, 3, 4, 5, 6, 7, 8] ∧ data.syncsMisses = [1, 0, 0, 0, 0, 0, 0, 0] := by
  have hwindow : IsWindow gapChain ((List.range 21).map fun s => (gapChain.blockAt s).map Block.root) 21 := by
    intro s hs _
    have hsmall : s < LidoOracle.Collector.SLOTS_PER_HISTORICAL_ROOT := Nat.lt_trans hs (by decide)
    rw [Nat.mod_eq_of_lt hsmall, List.getElem?_map, List.getElem?_range hs]
    rfl
  have hcache : gapCache.Right gapDuties := ⟨by decide, fun _ _ hget => by cases hget⟩
  have hretains : DutiesDB.Retains DutiesDB.emptyDB 2 := ⟨rfl, by decide⟩
  obtain ⟨data, db', cache', hrun, htruthful, -, -, hrows⟩ := checkDuties_stores gapNode_serves gapDuties_served hcache
    (fun _ _ _ => rfl) hwindow (by decide) (by decide) (by decide) hretains
  refine ⟨data, db', cache', hrun, ?_, fun vid => ?_, htruthful.proposalsVids, htruthful.proposalsFlags.trans (by decide),
    htruthful.syncsVids, htruthful.syncsMisses.trans (by decide)⟩
  · have hmax : (DutiesDB.emptyDB.storeData 5 data).maxEpoch = some 5 := rfl
    rw [hrows, hmax, if_pos (by decide), if_pos rfl]
  · have hvotes := not_congr (gapRoots_votedAt vid)
    simp only [not_exists, not_and] at hvotes
    have hmembers : (∃ committee ∈ gapDuties.getAttestationCommittees 5, vid ∈ committee.validators) ↔
        vid = 5 ∨ vid = 6 ∨ vid = 7 := by
      simp [gapDuties, or_assoc]
    rw [htruthful.missed, hmembers, hvotes]
    refine ⟨fun ⟨hmember, hother⟩ => hmember.resolve_left hother, ?_⟩
    rintro (rfl | rfl)
    · exact ⟨by decide, by decide⟩
    · exact ⟨by decide, by decide⟩

end DutiesNode

end Performance

end LidoOracle
