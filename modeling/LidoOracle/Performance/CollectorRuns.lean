import LidoOracle.Performance.CheckDuties
import LidoOracle.Performance.EpochsRange

/-! The collector and its web server at work on one database: checkpoints are
executed, whole or in part, their threads commit in any order, and in between
demands come and go and the retention is set anew. Whatever the order, a stored record says what happened on
the chain. -/

namespace LidoOracle

namespace Performance

open LidoOracle.Collector (Chain ChainConverter CollectorError FrameCheckpoint FrameCheckpointsIterator RootsClient
  SlotBlockRoot SLOTS_PER_HISTORICAL_ROOT MAX_CHECKPOINT_STEP)

inductive ExecError where
  | roots (error : CollectorError)
  | duties (error : CheckDutiesError)
  deriving DecidableEq

namespace DutiesDB

/-- The web server's answer to a `DELETE`: a demand that is there goes, and what is not there is not found. -/
def deleteEpochsDemand (db : DutiesDB) (consumer : String) : Option DutiesDB :=
  if consumer ∈ db.demands then some (db.deleteDemand consumer) else none

def setRetentionEpochs (db : DutiesDB) (value : ℤ) : Db DutiesDB :=
  if value ≤ 0 then .error .valueError
  else .ok { db with settings := db.settings.set RETENTION_EPOCHS_KEY (.int value) }

theorem deleteEpochsDemand_duties {db db' : DutiesDB} {consumer : String}
    (h : db.deleteEpochsDemand consumer = some db') : db'.duties = db.duties := by
  unfold deleteEpochsDemand at h
  split_ifs at h
  cases h
  rfl

theorem setRetentionEpochs_duties {db db' : DutiesDB} {value : ℤ} (h : db.setRetentionEpochs value = .ok db') :
    db'.duties = db.duties := by
  unfold setRetentionEpochs at h
  split_ifs at h
  cases h
  rfl

end DutiesDB

section Model

variable (client : RootsClient) (cc : DutiesClient) (converter : ChainConverter)

/-- The work of one thread, up to its call of `store_epoch` -/
def fetchEpoch (blockRoots : List (Option BlockRoot)) (checkpointSlot : SlotNumber) (dutyEpoch : EpochNumber) :
    Py ExecError DutyData := do
  let (dutyEpochRoots, nextEpochRoots) ← Py.lift .roots
    (LidoOracle.Collector.selectBlockRoots converter blockRoots dutyEpoch checkpointSlot)
  Py.lift .duties (collectDuties cc converter.slotsPerEpoch dutyEpoch dutyEpochRoots nextEpochRoots)

/-- A checkpoint that the iterator yields for some range and some finalized epoch -/
def IsCheckpoint (checkpoint : FrameCheckpoint) : Prop :=
  ∃ lEpoch rEpoch finalizedEpoch it checkpoints,
    FrameCheckpointsIterator.init converter lEpoch rEpoch finalizedEpoch = .ok it ∧
      it.checkpoints = .ok checkpoints ∧ checkpoint ∈ checkpoints

/-- What can happen to the database, with the calls of `store_epoch` that are under way. Executing a checkpoint
starts threads for the epochs that are not stored. An epoch of which fetching fails, or whose thread is cancelled
for it, has no call, and the calls of an execution that was killed are gone with the next one. -/
inductive SystemStep : Collector → Collector → Prop where
  | exec {s : Collector} {checkpoint : FrameCheckpoint} {blockRoots : List (Option BlockRoot)}
      {fetched : List (EpochNumber × DutyData)} (hcheckpoint : IsCheckpoint converter checkpoint)
      (hroots : LidoOracle.Collector.getBlockRoots client checkpoint.slot = .ok blockRoots)
      (hepochs : (fetched.map Prod.fst).Sublist (unprocessedEpochs s.db checkpoint.dutyEpochs))
      (hfetched : ∀ call ∈ fetched, fetchEpoch cc converter blockRoots checkpoint.slot call.1 = .ok call.2) :
      SystemStep s ⟨s.db, begin fetched⟩
  | commit {s s' : Collector} (h : Collector.Step s s') : SystemStep s s'
  | setEpochsDemand {s : Collector} {db : DutiesDB} {consumer : String} {demand : EpochsDemand}
      (h : s.db.setEpochsDemand consumer demand = .ok db) : SystemStep s ⟨db, s.calls⟩
  | defineEpochsToProcessRange {s : Collector} {db : DutiesDB} {finalizedEpoch : EpochNumber}
      {range : Option (EpochNumber × EpochNumber)}
      (h : Performance.defineEpochsToProcessRange s.db finalizedEpoch = .ok (db, range)) : SystemStep s ⟨db, s.calls⟩
  | deleteEpochsDemand {s : Collector} {db : DutiesDB} {consumer : String}
      (h : s.db.deleteEpochsDemand consumer = some db) : SystemStep s ⟨db, s.calls⟩
  | setRetentionEpochs {s : Collector} {db : DutiesDB} {value : ℤ} (h : s.db.setRetentionEpochs value = .ok db) :
      SystemStep s ⟨db, s.calls⟩

def SystemRun : Collector → Collector → Prop := Relation.ReflTransGen (SystemStep client cc converter)

end Model

/-! What a step leaves of the records -/

/-- Every record, stored or still to be stored, satisfies `P`. -/
structure RecordsHold (P : EpochNumber → DutyData → Prop) (s : Collector) : Prop where
  stored : ∀ e data, s.db.duties.get? e = some data → P e data
  calls : ∀ call ∈ s.calls, P call.epoch call.data

section Records

variable {P : EpochNumber → DutyData → Prop}

/-- A commit stores the record of its call or none. -/
theorem RecordsHold.commit {s s' : Collector} (h : RecordsHold P s) (hstep : Collector.Step s s') : RecordsHold P s' := by
  cases hstep with
  | @commit db db' before after call call' hcommit =>
  have hcall : P call.epoch call.data := h.calls call (List.mem_append_right _ List.mem_cons_self)
  have hcalls : ∀ stage, ∀ c ∈ before ++ { call with stage := stage } :: after, P c.epoch c.data := by
    intro stage c hc
    rcases mem_committed hc call with rfl | hc
    · exact hcall
    · exact h.calls c hc
  unfold StoreCall.next at hcommit
  cases hstage : call.stage with
  | waiting =>
    rw [hstage, Except.ok.injEq, Prod.mk.injEq] at hcommit
    obtain ⟨rfl, rfl⟩ := hcommit
    refine ⟨fun e data hget => ?_, hcalls _⟩
    rw [DutiesDB.get?_storeData] at hget
    split_ifs at hget with heq
    · cases hget
      exact heq ▸ hcall
    · exact h.stored e data hget
  | stored =>
    rw [hstage] at hcommit
    obtain ⟨minEpoch, -, hcommit⟩ := Except.bind_eq_ok.mp hcommit
    obtain ⟨rfl, rfl⟩ := Prod.mk.inj (Except.ok.inj hcommit)
    exact ⟨h.stored, hcalls _⟩
  | pruning minEpoch =>
    rw [hstage, Except.ok.injEq, Prod.mk.injEq] at hcommit
    obtain ⟨rfl, rfl⟩ := hcommit
    refine ⟨fun e data hget => ?_, hcalls _⟩
    rw [DutiesDB.get?_deleteBelow] at hget
    split_ifs at hget
    exact h.stored e data hget
  | finished =>
    rw [hstage, Except.ok.injEq, Prod.mk.injEq] at hcommit
    obtain ⟨rfl, rfl⟩ := hcommit
    exact h

/-- The web server only writes the demands. -/
theorem setEpochsDemand_duties {db db' : DutiesDB} {consumer : String} {demand : EpochsDemand}
    (h : db.setEpochsDemand consumer demand = .ok db') : db'.duties = db.duties := by
  obtain ⟨retention, -, h⟩ := Except.bind_eq_ok.mp h
  obtain ⟨-, h⟩ := Except.guard_eq_ok.mp h
  split at h
  · obtain ⟨-, h⟩ := Except.guard_eq_ok.mp h
    exact Except.ok.inj h ▸ rfl
  · exact Except.ok.inj h ▸ rfl

theorem considerDemand_duties {acc acc' : DutiesDB × EpochNumber} {demand : String × EpochsDemand}
    (h : considerDemand acc demand = .ok acc') : acc'.1.duties = acc.1.duties := by
  obtain ⟨available, -, h⟩ := Except.bind_eq_ok.mp h
  rw [Except.pure_eq_ok] at h
  subst h
  cases available <;> rfl

/-- Defining the range of a pass deletes demands at most. -/
theorem defineEpochsToProcessRange_duties {db db' : DutiesDB} {finalizedEpoch : EpochNumber}
    {range : Option (EpochNumber × EpochNumber)} (h : defineEpochsToProcessRange db finalizedEpoch = .ok (db', range)) :
    db'.duties = db.duties := by
  unfold defineEpochsToProcessRange at h
  split_ifs at h
  · cases h
    rfl
  · obtain ⟨-, h⟩ := Except.guard_eq_ok.mp h
    obtain ⟨acc, hfold, h⟩ := Except.bind_eq_ok.mp h
    obtain ⟨missingEpochs, -, h⟩ := Except.bind_eq_ok.mp h
    obtain ⟨startEpoch, -, h⟩ := Except.bind_eq_ok.mp h
    rw [Except.pure_eq_ok, Prod.mk.injEq] at h
    rw [← h.1]
    have hkept := ExceptRun.foldlM_preserves (fun acc : DutiesDB × EpochNumber => acc.1.duties = db.duties)
      (fun _ _ _ hacc hstep => (considerDemand_duties hstep).trans hacc) rfl hfold
    exact hkept

theorem RecordsHold.step {client : RootsClient} {cc : DutiesClient} {converter : ChainConverter}
    (hfetch : ∀ checkpoint blockRoots epoch data, IsCheckpoint converter checkpoint → epoch ∈ checkpoint.dutyEpochs →
      LidoOracle.Collector.getBlockRoots client checkpoint.slot = .ok blockRoots →
      fetchEpoch cc converter blockRoots checkpoint.slot epoch = .ok data → P epoch data)
    {s s' : Collector} (h : RecordsHold P s) (hstep : SystemStep client cc converter s s') : RecordsHold P s' := by
  cases hstep with
  | @exec checkpoint blockRoots fetched hcheckpoint hroots hepochs hfetched =>
    refine ⟨h.stored, fun call hcall => ?_⟩
    obtain ⟨fetch, hmem, rfl⟩ := List.mem_map.mp hcall
    have hepoch := (List.mem_filter.mp (hepochs.subset (List.mem_map_of_mem hmem))).1
    exact hfetch checkpoint blockRoots fetch.1 fetch.2 hcheckpoint hepoch hroots (hfetched fetch hmem)
  | commit hcommit => exact h.commit hcommit
  | setEpochsDemand hdemand =>
    refine ⟨fun e data hget => h.stored e data ?_, h.calls⟩
    rwa [← setEpochsDemand_duties hdemand]
  | defineEpochsToProcessRange hrange =>
    refine ⟨fun e data hget => h.stored e data ?_, h.calls⟩
    rwa [← defineEpochsToProcessRange_duties hrange]
  | deleteEpochsDemand hdelete =>
    refine ⟨fun e data hget => h.stored e data ?_, h.calls⟩
    rwa [← DutiesDB.deleteEpochsDemand_duties hdelete]
  | setRetentionEpochs hset =>
    refine ⟨fun e data hget => h.stored e data ?_, h.calls⟩
    rwa [← DutiesDB.setRetentionEpochs_duties hset]

end Records

/-! The chain behind the clients -/

/-- The slots of an epoch with their blocks -/
def epochRoots (chain : Chain) (converter : ChainConverter) (epoch : EpochNumber) : List SlotBlockRoot :=
  (List.range' (epoch * converter.slotsPerEpoch) converter.slotsPerEpoch).map chain.slotRoot

section Chain

variable {client : RootsClient} {cc : DutiesClient} {converter : ChainConverter} {chain : Chain} {contents : BlockContents}

/-- The block roots of the state at a checkpoint reach back to its first epoch. -/
theorem IsCheckpoint.reach (hslots : converter.slotsPerEpoch ≤ 32) {checkpoint : FrameCheckpoint}
    (h : IsCheckpoint converter checkpoint) {epoch : ℕ} (hepoch : epoch ∈ checkpoint.dutyEpochs) :
    (epoch + 2) * converter.slotsPerEpoch ≤ checkpoint.slot ∧
      checkpoint.slot ≤ epoch * converter.slotsPerEpoch + SLOTS_PER_HISTORICAL_ROOT := by
  obtain ⟨l, r, f, it, checkpoints, hinit, hcheckpoints, hmem⟩ := h
  have hconverter : it.converter = converter := by
    unfold FrameCheckpointsIterator.init at hinit
    split_ifs at hinit
    dsimp only at hinit
    split_ifs at hinit
    cases hinit
    rfl
  obtain ⟨epochs, hsequence, hcheckpoints⟩ := Except.bind_eq_ok.mp hcheckpoints
  obtain ⟨batches, hbatches, hcheckpoints⟩ := Except.bind_eq_ok.mp hcheckpoints
  obtain ⟨batch, hbatch, hcheckpoint⟩ := ExceptRun.exists_of_mem_mapM hcheckpoints hmem
  obtain ⟨newest, hnewest, hcheckpoint⟩ := Except.bind_eq_ok.mp hcheckpoint
  rw [Except.pure_eq_ok] at hcheckpoint
  subst hcheckpoint
  obtain ⟨-, rfl⟩ := Itertools.batched_eq_ok.mp hbatches
  unfold LidoOracle.Collector.sequence at hsequence
  split_ifs at hsequence
  cases hsequence
  obtain ⟨a, k, rfl, -, -, -, hk⟩ := Itertools.mem_batches_range' (by decide) hbatch
  have hmax : (List.range' a k).max? = some newest := by
    unfold LidoOracle.Collector.maxOf at hnewest
    split at hnewest
    · rename_i m hm
      exact Except.ok.inj hnewest ▸ hm
    · cases hnewest
  obtain ⟨hmem, hle⟩ := List.max?_eq_some_iff.mp hmax
  have hnewest' := List.mem_range'_1.mp hmem
  have hepoch' := List.mem_range'_1.mp hepoch
  have hepochLe := hle epoch hepoch
  have hstep : k ≤ 255 := hk
  have hslot : LidoOracle.Collector.ChainConverter.getEpochFirstSlot converter
      (newest + LidoOracle.Collector.CHECKPOINT_SLOT_DELAY_EPOCHS) = (newest + 2) * converter.slotsPerEpoch := rfl
  dsimp only
  rw [hconverter, hslot]
  refine ⟨Nat.mul_le_mul_right _ (by omega), ?_⟩
  have hspan : newest + 2 ≤ epoch + 256 := by omega
  calc (newest + 2) * converter.slotsPerEpoch
      ≤ (epoch + 256) * converter.slotsPerEpoch := Nat.mul_le_mul_right _ hspan
    _ = epoch * converter.slotsPerEpoch + 256 * converter.slotsPerEpoch := Nat.add_mul ..
    _ ≤ epoch * converter.slotsPerEpoch + 256 * 32 := Nat.add_le_add_left (Nat.mul_le_mul_left _ hslots) _

/-- What a node serves about a whole chain -/
structure ChainServed (client : RootsClient) (cc : DutiesClient) (converter : ChainConverter) (chain : Chain)
    (contents : BlockContents) : Prop where
  slotsPerEpoch : 0 < converter.slotsPerEpoch ∧ converter.slotsPerEpoch ≤ 32
  roots : client.Serves chain
  epochs : ∀ epoch, EpochServed cc converter.slotsPerEpoch contents epoch (epochRoots chain converter epoch)
    (epochRoots chain converter (epoch + 1))

/-- The record of an epoch says what happened on the chain. -/
def TruthfulRecord (cc : DutiesClient) (converter : ChainConverter) (chain : Chain) (contents : BlockContents)
    (epoch : EpochNumber) (data : DutyData) : Prop :=
  Truthful cc contents epoch (epochRoots chain converter epoch) (epochRoots chain converter (epoch + 1)) data

/-- A thread fetches the truth, from whichever checkpoint its epoch is in. -/
theorem ChainServed.fetchEpoch (h : ChainServed client cc converter chain contents) {checkpoint : FrameCheckpoint}
    (hcheckpoint : IsCheckpoint converter checkpoint) {epoch : ℕ} (hepoch : epoch ∈ checkpoint.dutyEpochs) :
    ∃ blockRoots data, LidoOracle.Collector.getBlockRoots client checkpoint.slot = .ok blockRoots ∧
      Performance.fetchEpoch cc converter blockRoots checkpoint.slot epoch = .ok data ∧
      TruthfulRecord cc converter chain contents epoch data := by
  obtain ⟨hlast, hfirst⟩ := hcheckpoint.reach h.slotsPerEpoch.2 hepoch
  obtain ⟨blockRoots, hroots, hrecent⟩ := LidoOracle.Collector.getBlockRoots_recent h.roots checkpoint.slot
  have hselect := LidoOracle.Collector.selectBlockRoots_recent h.slotsPerEpoch.1 hrecent hlast hfirst
  obtain ⟨data, hdata, htruthful⟩ := collectDuties_spec (h.epochs epoch)
  refine ⟨blockRoots, data, hroots, ?_, htruthful⟩
  unfold Performance.fetchEpoch
  rw [hselect, Py.lift_eq_ok.mpr rfl, Except.ok_bind]
  exact Py.lift_eq_ok.mpr hdata

/-- Whatever happens to the database, its records stay true. -/
theorem SystemRun.truthful (h : ChainServed client cc converter chain contents) {s s' : Collector}
    (hstart : RecordsHold (TruthfulRecord cc converter chain contents) s) (hrun : SystemRun client cc converter s s') :
    RecordsHold (TruthfulRecord cc converter chain contents) s' := by
  induction hrun with
  | refl => exact hstart
  | tail _ hstep ih =>
    refine ih.step (fun checkpoint blockRoots epoch data hcheckpoint hepoch hroots hfetched => ?_) hstep
    obtain ⟨blockRoots', data', hroots', hfetched', htruthful⟩ := h.fetchEpoch hcheckpoint hepoch
    rw [hroots, Except.ok.injEq] at hroots'
    subst hroots'
    rw [hfetched, Except.ok.injEq] at hfetched'
    exact hfetched' ▸ htruthful

end Chain

end Performance

end LidoOracle
