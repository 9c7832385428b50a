import LidoOracle.Performance.BitLists
import LidoOracle.Performance.Checkpoints
import LidoOracle.Performance.DependentRoot
import LidoOracle.Performance.DutiesDB

/-! The duties of one epoch, once they are looked up, checked against the blocks
of the epoch and of the next one: who missed its attestation, which slots have a
block, and how often every seat of the sync committee stayed silent. -/

namespace LidoOracle

namespace Performance

open Collector (SlotBlockRoot)

def SYNC_COMMITTEE_SIZE : ℕ := 512

structure SlotAttestationCommittee where
  index : CommitteeIndex
  slot : SlotNumber
  validators : List ValidatorIndex
  deriving DecidableEq

structure ProposerDuties where
  validatorIndex : ValidatorIndex
  slot : SlotNumber
  deriving DecidableEq

structure SyncAggregate where
  syncCommitteeBits : HexStr
  deriving DecidableEq

structure BlockDuties where
  attestations : List BlockAttestation
  syncAggregate : SyncAggregate
  deriving DecidableEq

inductive CheckDutiesError where
  | invalidProposeDuties (epoch : EpochNumber)
  | invalidSyncDuties (epoch : EpochNumber)
  | client
  | lookup (error : Collector.DutiesError)
  | dependentRootMismatch (dependentRoot expectedDependentRoot : BlockRoot)
  | db (error : DbError)
  deriving DecidableEq

abbrev Checking := Py CheckDutiesError

abbrev AttestationCommittees := Dict (SlotNumber × CommitteeIndex) (List ValidatorIndex)
abbrev AttDutyMisses := Finset ValidatorIndex

/-- What is looked up about an epoch, and the blocks that the node serves -/
structure DutiesClient where
  getProposerDuties : EpochNumber → List ProposerDuties
  getAttestationCommittees : EpochNumber → List SlotAttestationCommittee
  getSyncCommittee : EpochNumber → List ValidatorIndex
  getBlockAttestationsAndSync : BlockRoot → Checking BlockDuties

def missSync (syncDuties : List SyncDuty) (indexInCommittee : ℕ) : Checking (List SyncDuty) := do
  let duty ← Py.listItem syncDuties indexInCommittee
  return syncDuties.set indexInCommittee { duty with missedCount := duty.missedCount + 1 }

/-- Set bits mean that the validator has participated. -/
def processSync (syncAggregate : SyncAggregate) (syncDuties : List SyncDuty) : Checking (List SyncDuty) := do
  let syncBits ← hexBitvectorToList syncAggregate.syncCommitteeBits
  (getUnsetIndices syncBits).foldlM missSync syncDuties

/-- `misses.remove(vid)` where it is there -/
def removeVoter (committee : List ValidatorIndex) (misses : AttDutyMisses) (indexInCommittee : ℕ) :
    Checking AttDutyMisses := do
  let vid ← Py.listItem committee indexInCommittee
  return misses.erase vid

/-- One committee of an attestation; the first component is the offset of its bits. An attestation of another
epoch has no committees here. -/
def processCommittee (committees : AttestationCommittees) (attSlot : SlotNumber) (attBits : List Bool)
    (acc : ℕ × AttDutyMisses) (committeeIdx : CommitteeIndex) : Checking (ℕ × AttDutyMisses) :=
  match committees.get? (attSlot, committeeIdx) with
  | none => return acc
  | some committee => do
    if committee = [] then return acc
    let attCommitteeBits := (attBits.drop acc.1).take committee.length
    let misses ← (getSetIndices attCommitteeBits).foldlM (removeVoter committee) acc.2
    return (acc.1 + committee.length, misses)

def processAttestation (committees : AttestationCommittees) (misses : AttDutyMisses) (attestation : BlockAttestation) :
    Checking AttDutyMisses := do
  let attBits ← hexBitlistToList attestation.aggregationBits
  let indices ← getCommitteeIndices attestation
  let (_, misses) ← indices.foldlM (processCommittee committees attestation.data.slot attBits) (0, misses)
  return misses

def processAttestations (attestations : List BlockAttestation) (committees : AttestationCommittees)
    (misses : AttDutyMisses) : Checking AttDutyMisses :=
  attestations.foldlM (processAttestation committees) misses

section Prepare

variable (cc : DutiesClient) (epoch : EpochNumber)

def prepareProposeDuties : Dict SlotNumber ProposalDuty :=
  Dict.ofList ((cc.getProposerDuties epoch).map fun duty => (duty.slot, ⟨duty.validatorIndex, false⟩))

def prepareAttestationDuties : AttestationCommittees × AttDutyMisses :=
  (Dict.ofList ((cc.getAttestationCommittees epoch).map fun committee => ((committee.slot, committee.index), committee.validators)),
    ((cc.getAttestationCommittees epoch).flatMap (·.validators)).toFinset)

def prepareSyncCommitteeDuties : List SyncDuty := (cc.getSyncCommittee epoch).map fun vid => ⟨vid, 0⟩

end Prepare

/-- The duties as they are checked -/
structure CheckedDuties where
  attMisses : AttDutyMisses
  proposals : Dict SlotNumber ProposalDuty
  syncs : List SyncDuty

/-- One slot; a missed slot has no root. -/
def checkSlot (cc : DutiesClient) (committees : AttestationCommittees) (dutyEpochRoots : List SlotBlockRoot)
    (duties : CheckedDuties) (slotRoot : SlotBlockRoot) : Checking CheckedDuties :=
  match slotRoot.2 with
  | none => return duties
  | some root => do
    let block ← cc.getBlockAttestationsAndSync root
    let duties ← (if slotRoot ∈ dutyEpochRoots then do
        let proposals ← Py.updateItem duties.proposals slotRoot.1 fun duty => { duty with isProposed := true }
        let syncs ← processSync block.syncAggregate duties.syncs
        return { duties with proposals, syncs }
      else pure duties)
    let attMisses ← processAttestations block.attestations committees duties.attMisses
    return { duties with attMisses }

/-- Everything before the epoch is stored. `list(att_misses)` has no order of its own; here it is ascending. -/
def collectDuties (cc : DutiesClient) (slotsPerEpoch : ℕ) (dutyEpoch : EpochNumber)
    (dutyEpochRoots nextEpochRoots : List SlotBlockRoot) : Checking DutyData := do
  let (attCommittees, attMisses) := prepareAttestationDuties cc dutyEpoch
  let duties ← (dutyEpochRoots ++ nextEpochRoots).foldlM (checkSlot cc attCommittees dutyEpochRoots)
    ⟨attMisses, prepareProposeDuties cc dutyEpoch, prepareSyncCommitteeDuties cc dutyEpoch⟩
  let proposeDuties := duties.proposals.values
  if proposeDuties.length > slotsPerEpoch then throw (.raised (.invalidProposeDuties dutyEpoch))
  if duties.syncs.length > SYNC_COMMITTEE_SIZE then throw (.raised (.invalidSyncDuties dutyEpoch))
  return DutiesDB.dutyData (duties.attMisses.sort (· ≤ ·)) proposeDuties duties.syncs

/-! What the blocks say -/

/-- An attestation in the format of Electra: the aggregation bits of the committees whose bits are set, one
committee after the other. `votes` lists the committees with their bits. The committees are all known, or the
attestation is one of another epoch. -/
structure Electra (committees : AttestationCommittees) (attestation : BlockAttestation)
    (votes : List (CommitteeIndex × List Bool)) : Prop where
  aggregation : (hexStrToBytes attestation.aggregationBits : Checking HexBytes) =
    .ok (PackedBits.packDelimited (votes.flatMap Prod.snd))
  indices : ∃ bytes, (hexStrToBytes attestation.committeeBits : Checking HexBytes) = .ok bytes ∧
    ∀ i : ℕ, i ∈ votes.map Prod.fst ↔ PackedBits.bitAt bytes i = true
  ascending : (votes.map Prod.fst).Pairwise (· < ·)
  members : (∀ vote ∈ votes, ∃ members, committees.get? (attestation.data.slot, vote.1) = some members ∧
      members.length = vote.2.length) ∨
    ∀ vote ∈ votes, committees.get? (attestation.data.slot, vote.1) = none

/-- A committee of the attestation has the validator behind a set bit. -/
def VotedIn (committees : AttestationCommittees) (attSlot : SlotNumber) (vote : CommitteeIndex × List Bool)
    (vid : ValidatorIndex) : Prop :=
  ∃ members, committees.get? (attSlot, vote.1) = some members ∧
    ∃ i : ℕ, vote.2[i]? = some true ∧ members[i]? = some vid

def Voted (committees : AttestationCommittees) (attestation : BlockAttestation)
    (votes : List (CommitteeIndex × List Bool)) (vid : ValidatorIndex) : Prop :=
  ∃ vote ∈ votes, VotedIn committees attestation.data.slot vote vid

section Attestations

open ExceptRun

variable {committees : AttestationCommittees} {attestation : BlockAttestation}
  {votes : List (CommitteeIndex × List Bool)}

theorem Electra.bits (h : Electra committees attestation votes) :
    (hexBitlistToList attestation.aggregationBits : Checking (List Bool)) = .ok (votes.flatMap Prod.snd) :=
  (hexBitlistToList_ok_iff h.aggregation).mpr rfl

theorem Electra.committeeIndices (h : Electra committees attestation votes) :
    (getCommitteeIndices attestation : Checking (List CommitteeIndex)) = .ok (votes.map Prod.fst) := by
  obtain ⟨bytes, hbytes, hbits⟩ := h.indices
  obtain ⟨indices, hindices, hsorted, hmem⟩ := getCommitteeIndices_eq hbytes
  have hperm : indices.Perm (votes.map Prod.fst) := by
    refine (List.perm_ext_iff_of_nodup (hsorted.imp Nat.ne_of_lt) (h.ascending.imp Nat.ne_of_lt)).mpr fun i => ?_
    rw [hmem, hbits]
  have hasymm : ∀ a b, a ∈ indices → b ∈ votes.map Prod.fst → a < b → b < a → a = b :=
    fun a b _ _ hab hba => absurd hba hab.asymm
  rw [hindices, hperm.eq_of_pairwise hasymm hsorted h.ascending]

/-- The voters of one committee -/
theorem removeVoters (members : List ValidatorIndex) {bits : List Bool} (hlength : members.length = bits.length)
    (misses : AttDutyMisses) :
    ∃ misses', (getSetIndices bits).foldlM (removeVoter members) misses = .ok misses' ∧
      ∀ vid, vid ∈ misses' ↔ vid ∈ misses ∧ ¬∃ i : ℕ, bits[i]? = some true ∧ members[i]? = some vid := by
  have hremove : ∀ i ∈ getSetIndices bits, ∀ misses : AttDutyMisses, ∃ misses',
      removeVoter members misses i = .ok misses' ∧ ∀ vid, vid ∈ misses' ↔ vid ∈ misses ∧ ¬members[i]? = some vid := by
    intro i hi misses
    have hset := mem_getSetIndices.mp hi
    have hlt : i < members.length := by
      rw [hlength]
      exact (List.getElem?_eq_some_iff.mp hset).1
    have hvid : members[i]? = some members[i] := List.getElem?_eq_getElem hlt
    refine ⟨misses.erase members[i], ?_, fun vid => ?_⟩
    · rw [removeVoter, Py.listItem_eq_ok.mpr hvid]
      rfl
    · rw [Finset.mem_erase, hvid, Option.some.injEq, and_comm, ne_comm]
  obtain ⟨misses', hfold, hmem⟩ := foldlM_removes (fun (misses : AttDutyMisses) vid => vid ∈ misses) hremove misses
  refine ⟨misses', hfold, fun vid => ?_⟩
  rw [hmem]
  simp only [mem_getSetIndices, not_exists, not_and]

/-- One committee takes its bits and moves the offset to the end of them. -/
theorem processCommittee_known {attSlot : SlotNumber} {vote : CommitteeIndex × List Bool} {members : List ValidatorIndex}
    (hget : committees.get? (attSlot, vote.1) = some members) (hlength : members.length = vote.2.length)
    (before rest : List Bool) (misses : AttDutyMisses) :
    ∃ misses', processCommittee committees attSlot (before ++ vote.2 ++ rest) (before.length, misses) vote.1 =
        .ok ((before ++ vote.2).length, misses') ∧
      ∀ vid, vid ∈ misses' ↔ vid ∈ misses ∧ ¬VotedIn committees attSlot vote vid := by
  have hvoted : ∀ vid, VotedIn committees attSlot vote vid ↔ ∃ i : ℕ, vote.2[i]? = some true ∧ members[i]? = some vid := by
    intro vid
    unfold VotedIn
    rw [hget]
    simp only [Option.some.injEq, exists_eq_left']
  unfold processCommittee
  rw [hget]
  dsimp only
  by_cases hempty : members = []
  · have hbits : vote.2 = [] := by
      rw [hempty, List.length_nil] at hlength
      exact List.length_eq_zero_iff.mp hlength.symm
    rw [if_pos hempty, hbits, List.append_nil]
    refine ⟨misses, rfl, fun vid => ?_⟩
    rw [hvoted, hempty]
    simp
  · have hslice : ((before ++ vote.2 ++ rest).drop before.length).take members.length = vote.2 := by
      rw [List.append_assoc, List.drop_left, hlength, List.take_left]
    obtain ⟨misses', hfold, hmem⟩ := removeVoters members hlength misses
    rw [if_neg hempty, hslice, hfold, Except.ok_bind, hlength, List.length_append]
    exact ⟨misses', rfl, fun vid => by rw [hmem, hvoted]⟩

/-- The committees of an attestation, one after the other -/
theorem foldlM_processCommittee {attSlot : SlotNumber}
    (hmembers : ∀ vote ∈ votes, ∃ members, committees.get? (attSlot, vote.1) = some members ∧ members.length = vote.2.length)
    (before : List Bool) (misses : AttDutyMisses) :
    ∃ offset misses', (votes.map Prod.fst).foldlM
        (processCommittee committees attSlot (before ++ votes.flatMap Prod.snd)) (before.length, misses) =
        .ok (offset, misses') ∧
      ∀ vid, vid ∈ misses' ↔ vid ∈ misses ∧ ∀ vote ∈ votes, ¬VotedIn committees attSlot vote vid := by
  induction votes generalizing before misses with
  | nil => exact ⟨before.length, misses, rfl, fun vid => by simp⟩
  | cons vote votes ih =>
    rw [List.forall_mem_cons] at hmembers
    obtain ⟨members, hget, hlength⟩ := hmembers.1
    obtain ⟨misses₁, hstep, hmem₁⟩ := processCommittee_known hget hlength before (votes.flatMap Prod.snd) misses
    obtain ⟨offset, misses', hfold, hmem'⟩ := ih hmembers.2 (before ++ vote.2) misses₁
    rw [List.append_assoc] at hstep hfold
    refine ⟨offset, misses', ?_, fun vid => ?_⟩
    · rw [List.map_cons, List.flatMap_cons]
      exact foldlM_cons_ok.mpr ⟨_, hstep, hfold⟩
    · rw [hmem', hmem₁, List.forall_mem_cons, and_assoc]

/-- Committees of another epoch change nothing. -/
theorem foldlM_processCommittee_unknown {attSlot : SlotNumber}
    (hunknown : ∀ vote ∈ votes, committees.get? (attSlot, vote.1) = none) (attBits : List Bool) (acc : ℕ × AttDutyMisses) :
    (votes.map Prod.fst).foldlM (processCommittee committees attSlot attBits) acc = .ok acc := by
  induction votes with
  | nil => rfl
  | cons vote votes ih =>
    rw [List.forall_mem_cons] at hunknown
    have hstep : processCommittee committees attSlot attBits acc vote.1 = .ok acc := by
      rw [processCommittee, hunknown.1]
      rfl
    exact foldlM_cons_ok.mpr ⟨acc, hstep, ih hunknown.2⟩

/-- An attestation takes out exactly the validators that voted in it. -/
theorem processAttestation_spec (h : Electra committees attestation votes) (misses : AttDutyMisses) :
    ∃ misses', processAttestation committees misses attestation = .ok misses' ∧
      ∀ vid, vid ∈ misses' ↔ vid ∈ misses ∧ ¬Voted committees attestation votes vid := by
  have hvoted : ∀ vid, ¬Voted committees attestation votes vid ↔
      ∀ vote ∈ votes, ¬VotedIn committees attestation.data.slot vote vid := by
    intro vid
    simp only [Voted, not_exists, not_and]
  unfold processAttestation
  rw [h.bits, Except.ok_bind, h.committeeIndices, Except.ok_bind]
  rcases h.members with hknown | hunknown
  · obtain ⟨offset, misses', hfold, hmem⟩ := foldlM_processCommittee hknown [] misses
    rw [List.nil_append, List.length_nil] at hfold
    rw [hfold]
    exact ⟨misses', rfl, fun vid => by rw [hmem, hvoted]⟩
  · have hsame := foldlM_processCommittee_unknown hunknown (votes.flatMap Prod.snd) (0, misses)
    rw [hsame]
    refine ⟨misses, rfl, fun vid => ?_⟩
    rw [hvoted]
    refine ⟨fun hvid => ⟨hvid, fun vote hvote hin => ?_⟩, And.left⟩
    obtain ⟨members, hget, -⟩ := hin
    rw [hunknown vote hvote] at hget
    cases hget

end Attestations

section Syncs

open ExceptRun

theorem foldlM_missSync {indices : List ℕ} (hnodup : indices.Nodup) {syncDuties : List SyncDuty}
    (hlt : ∀ i ∈ indices, i < syncDuties.length) :
    ∃ syncDuties', indices.foldlM missSync syncDuties = .ok syncDuties' ∧
      ∀ i : ℕ, syncDuties'[i]? = (syncDuties[i]?).map fun duty =>
        ⟨duty.validatorIndex, duty.missedCount + if i ∈ indices then 1 else 0⟩ := by
  have hstep : ∀ (duties : List SyncDuty) (i : ℕ), duties[i]? ≠ none → ∃ duties', missSync duties i = .ok duties' ∧
      (fun k : ℕ => duties'[k]?) = Function.update (fun k : ℕ => duties[k]?) i
        ((duties[i]?).map fun duty => ⟨duty.validatorIndex, duty.missedCount + 1⟩) := by
    intro duties i hsome
    obtain ⟨duty, hduty⟩ := Option.ne_none_iff_exists'.mp hsome
    have hi := (List.getElem?_eq_some_iff.mp hduty).1
    refine ⟨duties.set i ⟨duty.validatorIndex, duty.missedCount + 1⟩, ?_, ?_⟩
    · rw [missSync, Py.listItem_eq_ok.mpr hduty]
      rfl
    · funext k
      rw [List.getElem?_set, Function.update_apply, hduty]
      by_cases hk : k = i
      · rw [if_pos hk.symm, if_pos hk, if_pos hi]
        rfl
      · rw [if_neg (Ne.symm hk), if_neg hk]
  have hnodup' : (indices.map id).Nodup := by rwa [List.map_id]
  obtain ⟨syncDuties', hfold, hin, hout⟩ := @foldlM_updateBy _ _ _ missSync _ _ _ id (fun duties (k : ℕ) => duties[k]?)
    (fun _ duty => duty ≠ none) (fun _ duty => duty.map fun (duty : SyncDuty) => ⟨duty.validatorIndex, duty.missedCount + 1⟩)
    hstep _ hnodup' syncDuties fun i hi => (List.getElem?_eq_getElem (hlt i hi)).symm ▸ Option.some_ne_none _
  refine ⟨syncDuties', hfold, fun i => ?_⟩
  by_cases hi : i ∈ indices
  · simp only [hi, if_true]
    exact hin i hi
  · simp only [hi, if_false, add_zero]
    rw [List.map_id] at hout
    exact (hout i hi).trans Option.map_id'.symm

/-- Every unset bit is one more miss of its seat. -/
theorem processSync_spec {syncAggregate : SyncAggregate} {bits : List Bool} {syncDuties : List SyncDuty}
    (hbits : (hexBitvectorToList syncAggregate.syncCommitteeBits : Checking (List Bool)) = .ok bits)
    (hlength : bits.length = syncDuties.length) :
    ∃ syncDuties', processSync syncAggregate syncDuties = .ok syncDuties' ∧
      ∀ i : ℕ, syncDuties'[i]? = (syncDuties[i]?).map fun duty =>
        ⟨duty.validatorIndex, duty.missedCount + if bits[i]? = some false then 1 else 0⟩ := by
  have hlt : ∀ i ∈ getUnsetIndices bits, i < syncDuties.length := fun i hi => by
    rw [← hlength]
    exact (List.getElem?_eq_some_iff.mp (mem_getUnsetIndices.mp hi)).1
  have hnodup : (getUnsetIndices bits).Nodup := (pairwise_filter_zipIdx bits _).imp Nat.ne_of_lt
  obtain ⟨syncDuties', hfold, hget⟩ := foldlM_missSync hnodup hlt
  refine ⟨syncDuties', ?_, fun i => ?_⟩
  · rw [processSync, hbits, Except.ok_bind, hfold]
  · rw [hget]
    simp only [mem_getUnsetIndices]

end Syncs

/-- What the blocks hold, read in full -/
structure BlockContents where
  duties : BlockRoot → BlockDuties
  votes : BlockAttestation → List (CommitteeIndex × List Bool)
  syncBits : BlockRoot → List Bool

/-- The slot is missed, or the node serves its block, in the formats of the chain: every attestation one of Electra,
and in the checked epoch one bit for every seat of the sync committee. -/
def SlotServed (cc : DutiesClient) (committees : AttestationCommittees) (contents : BlockContents) (seats : ℕ)
    (dutyEpochRoots : List SlotBlockRoot) (slotRoot : SlotBlockRoot) : Prop :=
  ∀ root, slotRoot.2 = some root →
    cc.getBlockAttestationsAndSync root = .ok (contents.duties root) ∧
    (∀ attestation ∈ (contents.duties root).attestations, Electra committees attestation (contents.votes attestation)) ∧
    (slotRoot ∈ dutyEpochRoots →
      (hexBitvectorToList (contents.duties root).syncAggregate.syncCommitteeBits : Checking (List Bool)) =
        .ok (contents.syncBits root) ∧ (contents.syncBits root).length = seats)

/-- Some attestation of the block has the validator's vote. -/
def VotedAt (committees : AttestationCommittees) (contents : BlockContents) (slotRoot : SlotBlockRoot)
    (vid : ValidatorIndex) : Prop :=
  ∃ root, slotRoot.2 = some root ∧ ∃ attestation ∈ (contents.duties root).attestations,
    Voted committees attestation (contents.votes attestation) vid

/-- The blocks whose sync aggregate has no bit of the seat -/
def silences (contents : BlockContents) (roots : List SlotBlockRoot) (seat : ℕ) : ℕ :=
  (roots.filterMap Prod.snd).countP fun root => (contents.syncBits root)[seat]? = some false

def hasBlock (roots : List SlotBlockRoot) (slot : SlotNumber) : Bool :=
  roots.any fun slotRoot => slotRoot.1 = slot && slotRoot.2.isSome

section Slots

open ExceptRun

variable {cc : DutiesClient} {committees : AttestationCommittees} {contents : BlockContents} {seats : ℕ}
  {dutyEpochRoots : List SlotBlockRoot} {duties : CheckedDuties}

/-- What checking the slots `roots` makes of the duties -/
structure Checks (committees : AttestationCommittees) (contents : BlockContents) (dutyEpochRoots roots : List SlotBlockRoot)
    (duties duties' : CheckedDuties) : Prop where
  attestations : ∀ vid, vid ∈ duties'.attMisses ↔ vid ∈ duties.attMisses ∧
    ∀ slotRoot ∈ roots, ¬VotedAt committees contents slotRoot vid
  proposals : duties'.proposals = duties.proposals.mapKV fun slot duty =>
    ⟨duty.validatorIndex, duty.isProposed || hasBlock (roots.filter (· ∈ dutyEpochRoots)) slot⟩
  syncs : ∀ i : ℕ, duties'.syncs[i]? = (duties.syncs[i]?).map fun duty =>
    ⟨duty.validatorIndex, duty.missedCount + silences contents (roots.filter (· ∈ dutyEpochRoots)) i⟩

theorem Checks.refl (duties : CheckedDuties) : Checks committees contents dutyEpochRoots [] duties duties where
  attestations := fun vid => by simp
  proposals := (Dict.mapKV_id fun slot duty _ => by simp [hasBlock]).symm
  syncs := fun i => by simp [silences]

theorem Checks.trans {roots roots' : List SlotBlockRoot} {duties' duties'' : CheckedDuties}
    (h : Checks committees contents dutyEpochRoots roots duties duties')
    (h' : Checks committees contents dutyEpochRoots roots' duties' duties'') :
    Checks committees contents dutyEpochRoots (roots ++ roots') duties duties'' where
  attestations vid := by rw [h'.attestations, h.attestations, List.forall_mem_append, and_assoc]
  proposals := by
    rw [h'.proposals, h.proposals, Dict.mapKV_mapKV]
    refine Dict.mapKV_congr fun slot duty _ => ?_
    simp only [hasBlock, List.filter_append, List.any_append, Bool.or_assoc]
  syncs i := by
    rw [h'.syncs, h.syncs, Option.map_map]
    refine congrArg (fun f => (duties.syncs[i]?).map f) (funext fun duty => ?_)
    simp only [silences, List.filter_append, List.filterMap_append, List.countP_append, Function.comp_apply, Nat.add_assoc]

theorem Checks.length_syncs {roots : List SlotBlockRoot} {duties' : CheckedDuties}
    (h : Checks committees contents dutyEpochRoots roots duties duties') : duties'.syncs.length = duties.syncs.length := by
  have hnone : ∀ i : ℕ, duties'.syncs[i]? = none ↔ duties.syncs[i]? = none := fun i => by rw [h.syncs, Option.map_eq_none_iff]
  simp only [List.getElem?_eq_none_iff] at hnone
  exact le_antisymm ((hnone _).mpr le_rfl) ((hnone _).mp le_rfl)

theorem processAttestations_spec {attestations : List BlockAttestation} {votes : BlockAttestation → List (CommitteeIndex × List Bool)}
    (helectra : ∀ attestation ∈ attestations, Electra committees attestation (votes attestation)) (misses : AttDutyMisses) :
    ∃ misses', processAttestations attestations committees misses = .ok misses' ∧ ∀ vid, vid ∈ misses' ↔
      vid ∈ misses ∧ ∀ attestation ∈ attestations, ¬Voted committees attestation (votes attestation) vid :=
  foldlM_removes (fun (misses : AttDutyMisses) vid => vid ∈ misses)
    (fun attestation hattestation misses => processAttestation_spec (helectra attestation hattestation) misses) misses

/-- One slot -/
theorem checkSlot_spec {slotRoot : SlotBlockRoot} (hserved : SlotServed cc committees contents seats dutyEpochRoots slotRoot)
    (hproposer : slotRoot ∈ dutyEpochRoots → slotRoot.1 ∈ duties.proposals) (hseats : duties.syncs.length = seats) :
    ∃ duties', checkSlot cc committees dutyEpochRoots duties slotRoot = .ok duties' ∧
      Checks committees contents dutyEpochRoots [slotRoot] duties duties' := by
  obtain ⟨slot, root⟩ := slotRoot
  cases root with
  | none =>
    have hnoBlock : ∀ other, hasBlock ([(slot, none)].filter (· ∈ dutyEpochRoots)) other = false := by
      intro other
      by_cases hin : (slot, none) ∈ dutyEpochRoots <;> simp [hasBlock, hin]
    have hsilent : ∀ i, silences contents ([(slot, none)].filter (· ∈ dutyEpochRoots)) i = 0 := by
      intro i
      by_cases hin : (slot, none) ∈ dutyEpochRoots <;> simp [silences, hin]
    refine ⟨duties, rfl, fun vid => ?_, (Dict.mapKV_id fun other duty _ => ?_).symm, fun i => ?_⟩
    · simp [VotedAt]
    · rw [hnoBlock, Bool.or_false]
    · rw [hsilent]
      exact Option.map_id'.symm
  | some root =>
    obtain ⟨hblock, helectra, hsync⟩ := hserved root rfl
    obtain ⟨attMisses, hattestations, hmem⟩ := processAttestations_spec helectra duties.attMisses
    have hvoted : ∀ vid, vid ∈ attMisses ↔ vid ∈ duties.attMisses ∧
        ∀ slotRoot ∈ [(slot, some root)], ¬VotedAt committees contents slotRoot vid := by
      intro vid
      rw [hmem]
      simp [VotedAt]
    by_cases hin : (slot, some root) ∈ dutyEpochRoots
    · obtain ⟨hbits, hlength⟩ := hsync hin
      obtain ⟨syncs, hsyncs, hget⟩ := processSync_spec hbits (hlength.trans hseats.symm)
      have hfilter : [(slot, some root)].filter (· ∈ dutyEpochRoots) = [(slot, some root)] := by simp [hin]
      refine ⟨⟨attMisses, duties.proposals.modify slot fun duty => { duty with isProposed := true }, syncs⟩, ?_,
        hvoted, ?_, fun i => ?_⟩
      · have hproposals : (Py.updateItem duties.proposals slot (fun duty => { duty with isProposed := true }) :
            Checking (Dict SlotNumber ProposalDuty)) = .ok _ := Py.updateItem_eq_ok.mpr ⟨hproposer hin, rfl⟩
        unfold checkSlot
        dsimp only
        rw [hblock, Except.ok_bind, if_pos hin, hproposals, Except.ok_bind, hsyncs, Except.ok_bind]
        dsimp only [pure, Except.pure, Except.ok_bind]
        rw [hattestations]
        rfl
      · rw [hfilter]
        dsimp only [Dict.modify]
        refine Dict.mapKV_congr fun other duty _ => ?_
        by_cases hother : other = slot
        · simp [hasBlock, hother]
        · simp [hasBlock, hother, Ne.symm hother]
      · rw [hget, hfilter]
        refine congrArg (fun f => (duties.syncs[i]?).map f) (funext fun duty => ?_)
        simp [silences, List.countP_cons]
    · have hfilter : [(slot, some root)].filter (· ∈ dutyEpochRoots) = [] := by simp [hin]
      refine ⟨⟨attMisses, duties.proposals, duties.syncs⟩, ?_, hvoted, ?_, ?_⟩
      · unfold checkSlot
        dsimp only
        rw [hblock, Except.ok_bind, if_neg hin]
        dsimp only [pure, Except.pure]
        rw [Except.ok_bind, hattestations]
        rfl
      · rw [hfilter]
        exact (Dict.mapKV_id fun _ _ _ => by simp [hasBlock]).symm
      · rw [hfilter]
        exact fun i => Option.map_id'.symm

variable (duties) in
/-- The slots in their order -/
theorem foldlM_checkSlot {roots : List SlotBlockRoot}
    (hserved : ∀ slotRoot ∈ roots, SlotServed cc committees contents seats dutyEpochRoots slotRoot)
    (hproposers : ∀ slotRoot ∈ roots, slotRoot ∈ dutyEpochRoots → slotRoot.1 ∈ duties.proposals)
    (hseats : duties.syncs.length = seats) :
    ∃ duties', roots.foldlM (checkSlot cc committees dutyEpochRoots) duties = .ok duties' ∧
      Checks committees contents dutyEpochRoots roots duties duties' := by
  induction roots generalizing duties with
  | nil => exact ⟨duties, rfl, Checks.refl duties⟩
  | cons slotRoot roots ih =>
    rw [List.forall_mem_cons] at hserved hproposers
    obtain ⟨duties₁, hstep, hchecks₁⟩ := checkSlot_spec hserved.1 hproposers.1 hseats
    have hproposers₁ : ∀ other ∈ roots, other ∈ dutyEpochRoots → other.1 ∈ duties₁.proposals := by
      intro other hother hin
      rw [hchecks₁.proposals, Dict.mem_mapKV]
      exact hproposers.2 other hother hin
    obtain ⟨duties', hfold, hchecks⟩ := ih duties₁ hserved.2 hproposers₁ (hchecks₁.length_syncs.trans hseats)
    exact ⟨duties', foldlM_cons_ok.mpr ⟨duties₁, hstep, hfold⟩, hchecks₁.trans hchecks⟩

end Slots

/-! The whole epoch -/

/-- What the node serves about an epoch and its blocks: one root or none for every slot, a proposer for every
slot of the epoch, a sync committee of the usual size at most, and blocks in the formats of the chain. -/
structure EpochServed (cc : DutiesClient) (slotsPerEpoch : ℕ) (contents : BlockContents) (epoch : EpochNumber)
    (dutyEpochRoots nextEpochRoots : List SlotBlockRoot) : Prop where
  slots : ((dutyEpochRoots ++ nextEpochRoots).map Prod.fst).Nodup
  slots_le : dutyEpochRoots.length ≤ slotsPerEpoch
  proposers : ((cc.getProposerDuties epoch).map (·.slot)).Perm (dutyEpochRoots.map Prod.fst)
  seats : (cc.getSyncCommittee epoch).length ≤ SYNC_COMMITTEE_SIZE
  blocks : ∀ slotRoot ∈ dutyEpochRoots ++ nextEpochRoots, SlotServed cc (prepareAttestationDuties cc epoch).1 contents
    (cc.getSyncCommittee epoch).length dutyEpochRoots slotRoot

/-- A record that says what happened: who is in a committee and has no vote in any block, which slots have a
block, and how many blocks every seat of the sync committee did not sign. -/
structure Truthful (cc : DutiesClient) (contents : BlockContents) (epoch : EpochNumber)
    (dutyEpochRoots nextEpochRoots : List SlotBlockRoot) (data : DutyData) : Prop where
  nodup : data.missedAttestationVids.Nodup
  missed : ∀ vid, vid ∈ data.missedAttestationVids ↔
    (∃ committee ∈ cc.getAttestationCommittees epoch, vid ∈ committee.validators) ∧
      ∀ slotRoot ∈ dutyEpochRoots ++ nextEpochRoots, ¬VotedAt (prepareAttestationDuties cc epoch).1 contents slotRoot vid
  proposalsVids : data.proposalsVids = (cc.getProposerDuties epoch).map (·.validatorIndex)
  proposalsFlags : data.proposalsFlags = (cc.getProposerDuties epoch).map fun duty => hasBlock dutyEpochRoots duty.slot
  syncsVids : data.syncsVids = cc.getSyncCommittee epoch
  syncsMisses : data.syncsMisses = (List.range (cc.getSyncCommittee epoch).length).map (silences contents dutyEpochRoots)

section Epoch

variable {cc : DutiesClient} {slotsPerEpoch : ℕ} {contents : BlockContents} {epoch : EpochNumber}
  {dutyEpochRoots nextEpochRoots : List SlotBlockRoot}

theorem EpochServed.filter_roots (h : EpochServed cc slotsPerEpoch contents epoch dutyEpochRoots nextEpochRoots) :
    (dutyEpochRoots ++ nextEpochRoots).filter (· ∈ dutyEpochRoots) = dutyEpochRoots := by
  have hslots := h.slots
  rw [List.map_append, List.nodup_append'] at hslots
  have hduty : dutyEpochRoots.filter (· ∈ dutyEpochRoots) = dutyEpochRoots :=
    List.filter_eq_self.mpr fun slotRoot hin => decide_eq_true hin
  have hnext : nextEpochRoots.filter (· ∈ dutyEpochRoots) = [] := by
    refine List.filter_eq_nil_iff.mpr fun slotRoot hin hduty => ?_
    exact hslots.2.2 (List.mem_map_of_mem (of_decide_eq_true hduty)) (List.mem_map_of_mem hin)
  rw [List.filter_append, hduty, hnext, List.append_nil]

theorem EpochServed.proposals_entries (h : EpochServed cc slotsPerEpoch contents epoch dutyEpochRoots nextEpochRoots) :
    (prepareProposeDuties cc epoch).entries =
      (cc.getProposerDuties epoch).map fun duty => (duty.slot, ⟨duty.validatorIndex, false⟩) := by
  refine Dict.entries_ofList ?_
  rw [List.map_map]
  have hslots := h.slots
  rw [List.map_append, List.nodup_append'] at hslots
  exact h.proposers.nodup_iff.mpr hslots.1

/-- Checking an epoch gives a truthful record. -/
theorem collectDuties_spec (h : EpochServed cc slotsPerEpoch contents epoch dutyEpochRoots nextEpochRoots) :
    ∃ data, collectDuties cc slotsPerEpoch epoch dutyEpochRoots nextEpochRoots = .ok data ∧
      Truthful cc contents epoch dutyEpochRoots nextEpochRoots data := by
  have hproposers : ∀ slotRoot ∈ dutyEpochRoots ++ nextEpochRoots, slotRoot ∈ dutyEpochRoots →
      slotRoot.1 ∈ prepareProposeDuties cc epoch := by
    intro slotRoot _ hin
    rw [← Dict.mem_keys, Dict.keys, h.proposals_entries, List.map_map]
    exact h.proposers.mem_iff.mpr (List.mem_map_of_mem hin)
  have hseats : (prepareSyncCommitteeDuties cc epoch).length = (cc.getSyncCommittee epoch).length := List.length_map _
  obtain ⟨duties, hfold, hchecks⟩ := foldlM_checkSlot ⟨(prepareAttestationDuties cc epoch).2,
    prepareProposeDuties cc epoch, prepareSyncCommitteeDuties cc epoch⟩ h.blocks hproposers hseats
  have hproposals := hchecks.proposals
  have hsyncs := hchecks.syncs
  rw [h.filter_roots] at hproposals hsyncs
  have hvalues : duties.proposals.values = (cc.getProposerDuties epoch).map fun duty =>
      ⟨duty.validatorIndex, hasBlock dutyEpochRoots duty.slot⟩ := by
    rw [hproposals, Dict.values_mapKV, h.proposals_entries, List.map_map]
    rfl
  have hslots : duties.proposals.values.length = dutyEpochRoots.length := by
    have hlength := h.proposers.length_eq
    rw [List.length_map, List.length_map] at hlength
    rw [hvalues, List.length_map, hlength]
  have hseatDuties : duties.syncs = (cc.getSyncCommittee epoch).mapIdx fun i vid =>
      ⟨vid, silences contents dutyEpochRoots i⟩ := by
    refine List.ext_getElem? fun i => ?_
    rw [hsyncs, prepareSyncCommitteeDuties, List.getElem?_map, List.getElem?_mapIdx, Option.map_map]
    refine congrArg (fun f => ((cc.getSyncCommittee epoch)[i]?).map f) (funext fun vid => ?_)
    simp only [Function.comp_apply, zero_add]
  have hlength : duties.syncs.length = (cc.getSyncCommittee epoch).length := hchecks.length_syncs.trans hseats
  refine ⟨DutiesDB.dutyData (duties.attMisses.sort (· ≤ ·)) duties.proposals.values duties.syncs, ?_, ?_⟩
  · unfold collectDuties
    dsimp only
    rw [hfold, Except.ok_bind, if_neg (not_lt.mpr (hslots.trans_le h.slots_le)), if_neg (not_lt.mpr (hlength.trans_le h.seats))]
    rfl
  · refine ⟨Finset.sort_nodup _ _, fun vid => ?_, ?_, ?_, ?_, ?_⟩
    · have hmisses := hchecks.attestations vid
      rw [prepareAttestationDuties, List.mem_toFinset, List.mem_flatMap] at hmisses
      rw [DutiesDB.dutyData, Finset.mem_sort]
      exact hmisses
    · dsimp only [DutiesDB.dutyData]
      rw [hvalues, List.map_map]
      rfl
    · dsimp only [DutiesDB.dutyData]
      rw [hvalues, List.map_map]
      rfl
    · rw [DutiesDB.dutyData, hseatDuties]
      refine List.ext_getElem? fun i => ?_
      rw [List.getElem?_map, List.getElem?_mapIdx, Option.map_map]
      exact Option.map_id'
    · rw [DutiesDB.dutyData, hseatDuties]
      refine List.ext_getElem? fun i => ?_
      rw [List.getElem?_map, List.getElem?_mapIdx, List.getElem?_map, Option.map_map]
      by_cases hi : i < (cc.getSyncCommittee epoch).length
      · rw [List.getElem?_eq_getElem hi, List.getElem?_range hi]
        rfl
      · rw [List.getElem?_eq_none (not_lt.mp hi), List.getElem?_eq_none (by rw [List.length_range]; exact not_lt.mp hi)]
        rfl

end Epoch

end Performance

end LidoOracle
