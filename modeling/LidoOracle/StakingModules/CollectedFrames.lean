import LidoOracle.Performance.CollectorRuns
import LidoOracle.StakingModules.FrameDuties

/-! From the chain to the duties of a frame. What the collector has stored, in
whatever order and over however many runs, passes every check of the oracle,
and what the oracle makes of it are the duties on the chain. -/

namespace LidoOracle

namespace StakingModules

open Performance
open LidoOracle.Collector (Chain ChainConverter RootsClient SlotBlockRoot)

section Chain

variable (cc : DutiesClient) (converter : ChainConverter) (chain : Chain) (contents : BlockContents)

/-- The validator sits in a committee of the epoch and has no vote in any block of it or of the next one. -/
def NeverVoted (epoch : EpochNumber) (vid : ValidatorIndex) : Prop :=
  (∃ committee ∈ cc.getAttestationCommittees epoch, vid ∈ committee.validators) ∧
    ∀ slotRoot ∈ epochRoots chain converter epoch ++ epochRoots chain converter (epoch + 1),
      ¬VotedAt (prepareAttestationDuties cc epoch).1 contents slotRoot vid

/-- One duty for every slot a validator was to propose in, included where the slot has a block -/
def chainProposals (epoch : EpochNumber) : List (ValidatorIndex × DutyAccumulator) :=
  (cc.getProposerDuties epoch).map fun duty => (duty.validatorIndex, ⟨1, (chain.blockAt duty.slot).isSome.toNat⟩)

def blocksOf (epoch : EpochNumber) : List BlockRoot := (epochRoots chain converter epoch).filterMap Prod.snd

/-- The blocks of an epoch that a seat of the sync committee has signed -/
def signedBlocks (epoch : EpochNumber) (seat : ℕ) : ℕ :=
  (blocksOf converter chain epoch).countP fun root => (contents.syncBits root)[seat]? = some true

/-- One duty for every block and every seat, included where the seat has signed the block -/
def chainSyncs (epoch : EpochNumber) : List (ValidatorIndex × DutyAccumulator) :=
  (cc.getSyncCommittee epoch).zipIdx.map fun seat =>
    (seat.1, ⟨(blocksOf converter chain epoch).length, signedBlocks converter chain contents epoch seat.2⟩)

/-- The duties of a frame as they happened on the chain -/
structure FrameOnChain (validatorsByIndex : ValidatorsByIndex) (l r : EpochNumber) (duties : NetworkDuties) : Prop where
  attestations : ∀ v ∈ validatorsByIndex.values,
    (duties.attestations.totalAt v.index).assigned =
      ((Finset.Icc l r).filter fun e => isActiveValidator v e = true).card ∧
    ∃ missed : Finset EpochNumber, (∀ e, e ∈ missed ↔ (l ≤ e ∧ e ≤ r) ∧ NeverVoted cc converter chain contents e v.index) ∧
      (duties.attestations.totalAt v.index).included + missed.card = (duties.attestations.totalAt v.index).assigned
  proposals : ∀ vid : ValidatorIndex, duties.proposals.totalAt vid =
    ∑ e ∈ Finset.Icc l r, Dict.amountAt (chainProposals cc chain e) vid
  syncs : ∀ vid : ValidatorIndex, duties.syncs.totalAt vid =
    ∑ e ∈ Finset.Icc l r, Dict.amountAt (chainSyncs cc converter chain contents e) vid

/-- The oracle knows every validator with a duty, and the members of a committee are active. -/
structure ValidatorsKnown (validatorsByIndex : ValidatorsByIndex) (epoch : EpochNumber) : Prop where
  committees : ∀ committee ∈ cc.getAttestationCommittees epoch, ∀ vid ∈ committee.validators,
    ∃ v, validatorsByIndex.get? vid = some v ∧ isActiveValidator v epoch = true
  proposers : ∀ duty ∈ cc.getProposerDuties epoch, duty.validatorIndex ∈ validatorsByIndex
  syncCommittee : ∀ vid ∈ cc.getSyncCommittee epoch, vid ∈ validatorsByIndex

end Chain

/-! A record that tells the truth -/

section Record

variable {client : RootsClient} {cc : DutiesClient} {converter : ChainConverter} {chain : Chain}
  {contents : BlockContents} {epoch : ℕ} {data : DutyData} {validatorsByIndex : ValidatorsByIndex}

theorem map_fst_epochRoots : (epochRoots chain converter epoch).map Prod.fst =
    List.range' (epoch * converter.slotsPerEpoch) converter.slotsPerEpoch := by
  rw [epochRoots, List.map_map]
  exact List.map_id _

theorem blocksOf_eq : blocksOf converter chain epoch =
    (List.range' (epoch * converter.slotsPerEpoch) converter.slotsPerEpoch).filterMap chain.blockAt := by
  rw [blocksOf, epochRoots, List.filterMap_map]
  rfl

/-- The blocks of the epoch are found by their slots. -/
theorem hasBlock_epochRoots {slot : ℕ} (hslot : slot ∈ (epochRoots chain converter epoch).map Prod.fst) :
    hasBlock (epochRoots chain converter epoch) slot = (chain.blockAt slot).isSome := by
  rw [map_fst_epochRoots] at hslot
  rw [Bool.eq_iff_iff, hasBlock, List.any_eq_true]
  constructor
  · intro h
    obtain ⟨slotRoot, hmem, h⟩ := h
    obtain ⟨s, -, rfl⟩ := List.mem_map.mp hmem
    rw [Bool.and_eq_true, decide_eq_true_eq] at h
    exact h.1 ▸ h.2
  · intro h
    exact ⟨chain.slotRoot slot, List.mem_map_of_mem hslot, by simpa [Chain.slotRoot] using h⟩

theorem ChainServed.proposer_slot (h : ChainServed client cc converter chain contents) {duty : ProposerDuties}
    (hduty : duty ∈ cc.getProposerDuties epoch) : duty.slot ∈ (epochRoots chain converter epoch).map Prod.fst :=
  (h.epochs epoch).proposers.mem_iff.mp (List.mem_map_of_mem hduty)

/-- The flags of a record, read off the chain -/
theorem proposalsFlags_eq (h : ChainServed client cc converter chain contents)
    (hdata : TruthfulRecord cc converter chain contents epoch data) :
    data.proposalsFlags = (cc.getProposerDuties epoch).map fun duty => (chain.blockAt duty.slot).isSome := by
  rw [hdata.proposalsFlags]
  exact List.map_congr_left fun duty hduty => hasBlock_epochRoots (ChainServed.proposer_slot h hduty)

theorem blocksInEpoch_eq (h : ChainServed client cc converter chain contents)
    (hdata : TruthfulRecord cc converter chain contents epoch data) :
    blocksInEpoch data = (blocksOf converter chain epoch).length := by
  have hperm := ((h.epochs epoch).proposers.map fun slot => (chain.blockAt slot).isSome).count_eq true
  rw [map_fst_epochRoots, List.map_map] at hperm
  rw [blocksInEpoch, proposalsFlags_eq h hdata, blocksOf_eq, List.length_filterMap_eq_countP]
  refine hperm.trans ?_
  rw [List.count, List.countP_map]
  refine List.countP_congr fun slot _ => ?_
  simp

theorem proposalAmounts_eq (h : ChainServed client cc converter chain contents)
    (hdata : TruthfulRecord cc converter chain contents epoch data) : proposalAmounts data = chainProposals cc chain epoch := by
  rw [proposalAmounts, proposalsFlags_eq h hdata, hdata.proposalsVids, List.zip_map', List.map_map]
  rfl

/-- Every block of the epoch has a bit for every seat. -/
theorem silences_add_signedBlocks (h : ChainServed client cc converter chain contents) {seat : ℕ}
    (hseat : seat < (cc.getSyncCommittee epoch).length) :
    silences contents (epochRoots chain converter epoch) seat + signedBlocks converter chain contents epoch seat =
      (blocksOf converter chain epoch).length := by
  rw [List.length_eq_countP_add_countP (fun root => (contents.syncBits root)[seat]? = some false), silences, signedBlocks,
    blocksOf]
  refine congrArg _ (List.countP_congr fun root hroot => ?_)
  obtain ⟨slotRoot, hmem, hsnd⟩ := List.mem_filterMap.mp hroot
  obtain ⟨-, -, hsync⟩ := (h.epochs epoch).blocks slotRoot (List.mem_append_left _ hmem) root hsnd
  have hlength := (hsync hmem).2
  have hbit := List.getElem?_eq_getElem (hlength.symm ▸ hseat)
  rw [hbit]
  cases (contents.syncBits root)[seat] <;> simp

theorem amountAt_syncs_eq (h : ChainServed client cc converter chain contents)
    (hdata : TruthfulRecord cc converter chain contents epoch data) (vid : ℕ) :
    Dict.amountAt (syncAmounts data) vid = Dict.amountAt (chainSyncs cc converter chain contents epoch) vid := by
  have hlength : data.syncsVids.length = data.syncsMisses.length := by
    rw [hdata.syncsVids, hdata.syncsMisses, List.length_map, List.length_range]
  have hamounts : ((data.syncsVids.zip data.syncsMisses).map fun sync =>
      (sync.1, (⟨blocksInEpoch data, blocksInEpoch data - sync.2⟩ : DutyAccumulator))) =
      chainSyncs cc converter chain contents epoch := by
    rw [← zipIdx_getD hlength 0, List.map_map, hdata.syncsVids, hdata.syncsMisses, chainSyncs, blocksInEpoch_eq h hdata]
    refine List.map_congr_left fun seat hseat => ?_
    have hlt := (mem_zipIdx_lt hseat).2
    have hsum := silences_add_signedBlocks h hlt
    have hmisses : ((List.range (cc.getSyncCommittee epoch).length).map
        (silences contents (epochRoots chain converter epoch))).getD seat.2 0 =
        silences contents (epochRoots chain converter epoch) seat.2 := by
      rw [List.getD_eq_getElem _ _ (by rwa [List.length_map, List.length_range]), List.getElem_map, List.getElem_range]
    dsimp only [Function.comp_apply]
    rw [hmisses, ← hsum, Nat.add_sub_cancel_left]
  unfold syncAmounts
  by_cases hblocks : blocksInEpoch data = 0
  · rw [if_pos hblocks, ← hamounts, amountAt_map_sync, hblocks]
    refine DutyAccumulator.ext ?_ ?_
    · simp
    · simp
  · rw [if_neg hblocks, hamounts]

/-- A record that says what happened on the chain is consistent. -/
theorem consistent_of_truthful (h : ChainServed client cc converter chain contents)
    (hknown : ValidatorsKnown cc validatorsByIndex epoch) (hdata : TruthfulRecord cc converter chain contents epoch data) :
    Consistent validatorsByIndex ⟨data, epoch⟩ where
  missed_nodup := hdata.nodup
  proposals_length := by
    dsimp only
    rw [hdata.proposalsVids, hdata.proposalsFlags, List.length_map, List.length_map]
  syncs_length := by
    dsimp only
    rw [hdata.syncsVids, hdata.syncsMisses, List.length_map, List.length_range]
  proposals_known := by
    intro vid hvid
    dsimp only at hvid
    rw [hdata.proposalsVids] at hvid
    obtain ⟨duty, hduty, rfl⟩ := List.mem_map.mp hvid
    exact hknown.proposers duty hduty
  syncs_known := by
    intro _ vid hvid
    dsimp only at hvid
    rw [hdata.syncsVids] at hvid
    exact hknown.syncCommittee vid hvid
  syncs_le := by
    intro _ misses hmisses
    dsimp only at hmisses ⊢
    rw [hdata.syncsMisses] at hmisses
    obtain ⟨seat, hseat, rfl⟩ := List.mem_map.mp hmisses
    rw [blocksInEpoch_eq h hdata, ← silences_add_signedBlocks h (List.mem_range.mp hseat)]
    exact Nat.le_add_right _ _
  missed_active := by
    intro vid hvid
    obtain ⟨⟨committee, hcommittee, hmember⟩, -⟩ := (hdata.missed vid).mp hvid
    exact hknown.committees committee hcommittee vid hmember

end Record

/-! The loop over the records of a frame -/

section Frame

variable {client : RootsClient} {cc : DutiesClient} {converter : ChainConverter} {chain : Chain}
  {contents : BlockContents} {db : DutiesDB} {validatorsByIndex : ValidatorsByIndex}

/-- Consistent records of different epochs are all taken in. -/
theorem foldlM_addEpoch_of_consistent {records : List Duty} {acc : FrameAcc}
    (hconsistent : ∀ d ∈ records, Consistent validatorsByIndex d) (hnodup : (records.map (·.epoch)).Nodup)
    (hnew : ∀ d ∈ records, d.epoch ∉ acc.processedEpochs) :
    ∃ acc', records.foldlM (addEpoch validatorsByIndex) acc = .ok acc' := by
  induction records generalizing acc with
  | nil => exact ⟨acc, rfl⟩
  | cons d records ih =>
    rw [List.forall_mem_cons] at hconsistent hnew
    rw [List.map_cons, List.nodup_cons] at hnodup
    have hstep : addEpoch validatorsByIndex acc d = .ok (acc.add d) := addEpoch_eq_ok.mpr ⟨hconsistent.1, hnew.1, rfl⟩
    have hrest : ∀ d' ∈ records, d'.epoch ∉ (acc.add d).processedEpochs := by
      intro d' hd'
      rw [FrameAcc.add, Finset.mem_insert, not_or]
      exact ⟨fun heq => hnodup.1 (heq ▸ List.mem_map_of_mem hd'), hnew.2 d' hd'⟩
    obtain ⟨acc', hfold⟩ := ih hconsistent.2 hnodup.2 hrest
    exact ⟨acc', ExceptRun.foldlM_cons_ok.mpr ⟨acc.add d, hstep, hfold⟩⟩

theorem frameOnChain_of_aggregated (h : ChainServed client cc converter chain contents) {l r : ℕ} {duties : NetworkDuties}
    (hrecords : ∀ e : ℕ, l ≤ e → e ≤ r → TruthfulRecord cc converter chain contents e (recordOf db e))
    (haggregated : FrameAggregated db validatorsByIndex l r duties) :
    FrameOnChain cc converter chain contents validatorsByIndex l r duties where
  attestations := by
    intro v hv
    obtain ⟨hassigned, hincluded⟩ := haggregated.attestations v hv
    refine ⟨hassigned, missedEpochs db l r v.index, fun e => ?_, hincluded⟩
    rw [missedEpochs, Finset.mem_filter, Finset.mem_Icc]
    refine and_congr_right fun hrange => ?_
    exact (hrecords e hrange.1 hrange.2).missed v.index
  proposals := by
    intro vid
    rw [haggregated.proposals]
    refine Finset.sum_congr rfl fun (e : ℕ) he => ?_
    have hrange := Finset.mem_Icc.mp he
    have hdata := hrecords e hrange.1 hrange.2
    have hlength : (recordOf db e).proposalsVids.length = (recordOf db e).proposalsFlags.length := by
      rw [hdata.proposalsVids, hdata.proposalsFlags, List.length_map, List.length_map]
    rw [← amountAt_proposals hlength, proposalAmounts_eq h hdata]
  syncs := by
    intro vid
    rw [haggregated.syncs]
    refine Finset.sum_congr rfl fun (e : ℕ) he => ?_
    have hrange := Finset.mem_Icc.mp he
    have hdata := hrecords e hrange.1 hrange.2
    have hlength : (recordOf db e).syncsVids.length = (recordOf db e).syncsMisses.length := by
      rw [hdata.syncsVids, hdata.syncsMisses, List.length_map, List.length_range]
    rw [← amountAt_syncs hlength, amountAt_syncs_eq h hdata]

/-- Whatever the collector and the web server have done to an empty table, and in whatever order: a frame whose
epochs are available is taken by the oracle without an error, and its duties are those on the chain. -/
theorem getFrameDuties_onChain (h : ChainServed client cc converter chain contents) {start : DutiesDB}
    (hempty : ∀ e, e ∉ start.duties) {s : Collector} (hrun : SystemRun client cc converter ⟨start, []⟩ s)
    (performance : PerformanceClient s.db) (hbatch : 1 ≤ performance.epochsBatchSize) (validators : List Validator)
    {l r : ℕ} (hle : l ≤ r) (havailable : s.db.isRangeAvailable l r = .ok true)
    (hknown : ∀ e, l ≤ e → e ≤ r → ValidatorsKnown cc (getValidatorsByIndexes validators) e) :
    ∃ duties, getFrameDuties performance (getValidatorsByIndexes validators) l r = .ok duties ∧
      FrameOnChain cc converter chain contents (getValidatorsByIndexes validators) l r duties ∧ duties.Valid := by
  have hstart : RecordsHold (TruthfulRecord cc converter chain contents) ⟨start, []⟩ :=
    ⟨fun e data hget => absurd (Dict.mem_of_get? hget) (hempty e), fun call hcall => absurd hcall List.not_mem_nil⟩
  have hrecords := (SystemRun.truthful h hstart hrun).stored
  have hstored : ∀ e : ℕ, l ≤ e → e ≤ r → e ∈ s.db.duties := by
    classical
    rw [@isRangeAvailable_eq s.db ⟨l, r⟩ hle, Except.ok.injEq, decide_eq_true_eq] at havailable
    exact havailable
  have htruthful : ∀ e : ℕ, l ≤ e → e ≤ r → TruthfulRecord cc converter chain contents e (recordOf s.db e) := by
    intro e hfrom hto
    obtain ⟨data, hdata⟩ := Dict.mem_iff_exists_get?.mp (hstored e hfrom hto)
    rw [recordOf, hdata]
    exact hrecords e data hdata
  have hfetch : ∃ rows, performance.getEpochsData l r = .ok rows := by
    cases hfetch : performance.getEpochsData l r with
    | ok rows => exact ⟨rows, rfl⟩
    | error error =>
      obtain ⟨first, last, missing, -, hne, hmissing⟩ := performance.getEpochsData_error hbatch hle hfetch
      obtain ⟨e, he⟩ := List.exists_mem_of_ne_nil missing hne
      exact absurd (hstored e (hmissing e he).1 (hmissing e he).2.1) (hmissing e he).2.2
  obtain ⟨rows, hrows⟩ := hfetch
  obtain ⟨hepochs, hget⟩ := performance.getEpochsData_ok hbatch hle hrows
  have hconsistent : ∀ row ∈ rows, Consistent (getValidatorsByIndexes validators) row := by
    intro row hrow
    have hrange := List.mem_range'_1.mp (hepochs.mem_iff.mp (List.mem_map_of_mem hrow))
    have hto : row.epoch ≤ r := Nat.lt_succ_iff.mp (by omega)
    exact consistent_of_truthful h (hknown row.epoch hrange.1 hto) (hrecords row.epoch _ (hget row hrow))
  have hnew : ∀ row ∈ rows, row.epoch ∉ FrameAcc.start.processedEpochs := fun row _ => Finset.notMem_empty row.epoch
  obtain ⟨acc, hfold⟩ := foldlM_addEpoch_of_consistent hconsistent (hepochs.nodup_iff.mpr List.nodup_range') hnew
  have hloop : performance.forEachEpochData .performanceClient l r (addEpoch (getValidatorsByIndexes validators))
      FrameAcc.start = .ok acc := performance.forEachEpochData_eq_ok.mpr ⟨rows, hrows, hfold⟩
  obtain ⟨duties, hduties, haggregated⟩ := getFrameDuties_of_records performance hbatch validators hle hloop
  exact ⟨duties, hduties, frameOnChain_of_aggregated h htruthful haggregated, haggregated.valid⟩

end Frame

/-! Two blocks. That of slot 32 has the vote of one of the two attesters of slot 5, that of slot 0 lacks the first
of eight seats, which one validator holds all. -/

def twoBlocksDuties (root : BlockRoot) : BlockDuties :=
  if root = "0xaa" then ⟨[], ⟨"0xfe"⟩⟩ else ⟨[⟨"0x05", "0x01", ⟨5⟩⟩], ⟨"0xff"⟩⟩

def twoBlocksDutiesClient : DutiesClient where
  getProposerDuties epoch := (List.range' (epoch * 32) 32).map fun slot => ⟨3, slot⟩
  getAttestationCommittees epoch := if epoch = 0 then [⟨0, 5, [5, 6]⟩] else []
  getSyncCommittee _ := [3, 3, 3, 3, 3, 3, 3, 3]
  getBlockAttestationsAndSync root := .ok (twoBlocksDuties root)

def twoBlocksContents : BlockContents where
  duties := twoBlocksDuties
  votes _ := [(0, [true, false])]
  syncBits root := if root = "0xaa" then [false, true, true, true, true, true, true, true] else List.replicate 8 true

theorem twoBlocks_electra (epoch : EpochNumber) :
    Electra (prepareAttestationDuties twoBlocksDutiesClient epoch).1 ⟨"0x05", "0x01", ⟨5⟩⟩ [(0, [true, false])] where
  aggregation := by decide +kernel
  indices := by
    refine ⟨[1], by decide +kernel, fun i => ?_⟩
    rcases Nat.lt_or_ge i 8 with hi | hi
    · revert i
      decide +kernel
    · have hnone : ([1] : HexBytes).getD (i / 8) 0 = 0 := List.getD_eq_default _ _ (show 1 ≤ i / 8 by omega)
      refine iff_of_false (fun hmem => ?_) ?_
      · have hzero : i = 0 := List.mem_singleton.mp hmem
        omega
      · rw [PackedBits.bitAt, hnone]
        exact Bool.not_eq_true _ ▸ Nat.zero_testBit _
  ascending := List.pairwise_singleton _ _
  members := by
    by_cases hepoch : epoch = 0
    · refine .inl fun vote hvote => ?_
      rw [List.mem_singleton.mp hvote, hepoch]
      exact ⟨[5, 6], rfl, rfl⟩
    · refine .inr fun vote _ => ?_
      have hnone : twoBlocksDutiesClient.getAttestationCommittees epoch = [] := if_neg hepoch
      rw [prepareAttestationDuties, hnone]
      rfl

theorem twoBlocks_served : ChainServed LidoOracle.Collector.twoBlocksClient twoBlocksDutiesClient ⟨32⟩
    LidoOracle.Collector.twoBlocks twoBlocksContents where
  slotsPerEpoch := ⟨by decide, le_rfl⟩
  roots := LidoOracle.Collector.twoBlocksClient_serves
  epochs epoch := {
    slots := by
      have hnext : (epoch + 1) * 32 = epoch * 32 + 1 * 32 := Nat.add_mul ..
      rw [List.map_append, map_fst_epochRoots, map_fst_epochRoots, hnext, List.range'_append]
      exact List.nodup_range'
    slots_le := by
      rw [epochRoots, List.length_map, List.length_range']
    proposers := by
      rw [map_fst_epochRoots, twoBlocksDutiesClient, List.map_map]
      exact List.Perm.of_eq (List.map_id _)
    seats := by
      change 8 ≤ 512
      decide
    blocks := fun slotRoot _ root hroot => by
      refine ⟨rfl, fun attestation hattestation => ?_, fun _ => ?_⟩
      · have hattestation' : attestation = ⟨"0x05", "0x01", ⟨5⟩⟩ := by
          unfold twoBlocksContents twoBlocksDuties at hattestation
          dsimp only at hattestation
          split_ifs at hattestation
          · exact absurd hattestation List.not_mem_nil
          · exact List.mem_singleton.mp hattestation
        rw [hattestation']
        exact twoBlocks_electra epoch
      · unfold twoBlocksContents twoBlocksDuties
        dsimp only
        split_ifs
        · exact ⟨by decide +kernel, rfl⟩
        · exact ⟨by decide +kernel, rfl⟩ }

def activeValidator (index : ValidatorIndex) : Validator :=
  dutyValidator index 0

theorem twoBlocks_known : ValidatorsKnown twoBlocksDutiesClient
    (getValidatorsByIndexes [activeValidator 3, activeValidator 5, activeValidator 6]) 0 where
  committees := by
    intro committee hcommittee vid hvid
    rw [List.mem_singleton.mp hcommittee] at hvid
    simp only [List.mem_cons, List.not_mem_nil, or_false] at hvid
    rcases hvid with rfl | rfl
    · exact ⟨activeValidator 5, rfl, rfl⟩
    · exact ⟨activeValidator 6, rfl, rfl⟩
  proposers := by
    intro duty hduty
    obtain ⟨slot, -, rfl⟩ := List.mem_map.mp hduty
    exact Dict.mem_of_get? (show _ = some (activeValidator 3) from rfl)
  syncCommittee := by
    intro vid hvid
    have hthree : vid = 3 := List.eq_of_mem_replicate (show vid ∈ List.replicate 8 3 from hvid)
    rw [hthree]
    exact Dict.mem_of_get? (show _ = some (activeValidator 3) from rfl)

theorem getFrameDuties_onChain_twoBlocks :
    ∃ s, SystemRun LidoOracle.Collector.twoBlocksClient twoBlocksDutiesClient ⟨32⟩ ⟨DutiesDB.emptyDB, []⟩ s ∧
      ∃ duties, getFrameDuties ⟨⟨s.db.rowsIn, fun _ _ => List.Perm.refl _⟩, 100⟩
          (getValidatorsByIndexes [activeValidator 3, activeValidator 5, activeValidator 6]) 0 0 = .ok duties ∧
        FrameOnChain twoBlocksDutiesClient ⟨32⟩ LidoOracle.Collector.twoBlocks twoBlocksContents
          (getValidatorsByIndexes [activeValidator 3, activeValidator 5, activeValidator 6]) 0 0 duties ∧
        duties.Valid := by
  have hcheckpoint : IsCheckpoint ⟨32⟩ ⟨64, [0]⟩ := ⟨0, 0, 2, ⟨⟨32⟩, 0, 0, 0⟩, [⟨64, [0]⟩], rfl, rfl, List.mem_cons_self⟩
  obtain ⟨blockRoots, data, hroots, hfetched, -⟩ := ChainServed.fetchEpoch twoBlocks_served hcheckpoint List.mem_cons_self
  obtain ⟨s, hrun, -, hstore⟩ := @storeEpoch_run DutiesDB.emptyDB 2 ⟨rfl, by decide⟩ 0 data
  have hexec : SystemStep LidoOracle.Collector.twoBlocksClient twoBlocksDutiesClient ⟨32⟩ ⟨DutiesDB.emptyDB, []⟩
      ⟨DutiesDB.emptyDB, begin [(0, data)]⟩ :=
    .exec hcheckpoint hroots (List.Sublist.refl _) fun call hcall => List.mem_singleton.mp hcall ▸ hfetched
  have hsystem : SystemRun LidoOracle.Collector.twoBlocksClient twoBlocksDutiesClient ⟨32⟩ ⟨DutiesDB.emptyDB, []⟩ s :=
    (Relation.ReflTransGen.single hexec).trans (hrun.lift id fun _ _ hstep => .commit hstep)
  have hstored : 0 ∈ s.db.duties := by
    obtain ⟨db', hprune, -, hget⟩ := @DutiesDB.prune_ok (DutiesDB.emptyDB.storeData 0 data) 2 ⟨rfl, by decide⟩ 0
    have hsame : db' = s.db := Except.ok.inj (hprune.symm.trans hstore)
    exact hsame ▸ Dict.mem_of_get? (hget 0)
  have havailable : s.db.isRangeAvailable 0 0 = .ok true :=
    DutiesDB.isRangeAvailable_of_stored le_rfl fun e _ hto => Nat.le_zero.mp hto ▸ hstored
  have hempty : ∀ e, e ∉ DutiesDB.emptyDB.duties := fun e => Dict.get?_eq_none_iff.mp rfl
  have hbatch : 1 ≤ 100 := by decide
  refine ⟨s, hsystem, getFrameDuties_onChain twoBlocks_served hempty hsystem _ hbatch _ le_rfl havailable fun e _ hto => ?_⟩
  exact Nat.le_zero.mp hto ▸ twoBlocks_known

end StakingModules

end LidoOracle
