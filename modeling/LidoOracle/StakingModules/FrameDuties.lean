import LidoOracle.StakingModules.State
import LidoOracle.ValidatorBalance

/-! The duties of one frame, aggregated from the stored epochs. The records
come from the performance service batch by batch; each is checked on its own,
and the frame is complete when as many epochs were seen as it is long. -/

namespace LidoOracle

namespace StakingModules

open Performance

/-- The exceptions of filling a state, one for each place that raises -/
inductive FrameDutiesError where
  | performanceClient (error : PerformanceClientError)
  | frames (error : FramesError)
  | invalidState (error : DistributionError)
  | duplicateMissed (epoch : EpochNumber)
  | corruptedProposals (epoch : EpochNumber) (vids flags : ℕ)
  | corruptedSyncs (epoch : EpochNumber) (vids misses : ℕ)
  | duplicateEpoch (epoch : EpochNumber)
  | missingValidator (vid : ValidatorIndex)
  | inconsistentSync (index : ℕ) (vid : ValidatorIndex) (misses blocksInEpoch : ℕ)
  | missedWhileInactive (vid : ValidatorIndex) (epoch : EpochNumber)
  | epochsCount (expected : ℤ) (got : ℕ)
  | missesAboveAssigned (vid : ValidatorIndex) (misses assigned : ℕ)
  deriving DecidableEq, Repr

abbrev Fulfilling := Py FrameDutiesError

def validateEpochData (duty : Duty) : Fulfilling Unit := do
  if duty.missedAttestationVids.length ≠ duty.missedAttestationVids.toFinset.card then
    throw (.raised (.duplicateMissed duty.epoch))
  if duty.proposalsVids.length ≠ duty.proposalsFlags.length then
    throw (.raised (.corruptedProposals duty.epoch duty.proposalsVids.length duty.proposalsFlags.length))
  if duty.syncsVids.length ≠ duty.syncsMisses.length then
    throw (.raised (.corruptedSyncs duty.epoch duty.syncsVids.length duty.syncsMisses.length))

abbrev ValidatorsByIndex := Dict ValidatorIndex Validator

/-- `get_validators_by_indexes` -/
def getValidatorsByIndexes (validators : List Validator) : ValidatorsByIndex :=
  Dict.ofList (validators.map fun v => (v.index, v))

/-- One proposal; the second component counts the blocks of the epoch. -/
def addProposal (validatorsByIndex : ValidatorsByIndex) (duties : Duty)
    (acc : Dict ValidatorIndex DutyAccumulator × ℕ) (proposal : ValidatorIndex × ℕ) :
    Fulfilling (Dict ValidatorIndex DutyAccumulator × ℕ) := do
  if proposal.1 ∉ validatorsByIndex then throw (.raised (.missingValidator proposal.1))
  let proposed ← Py.listItem duties.proposalsFlags proposal.2
  return (acc.1.addTo proposal.1 ⟨1, proposed.toNat⟩, acc.2 + proposed.toNat)

def addSync (validatorsByIndex : ValidatorsByIndex) (duties : Duty) (blocksInEpoch : ℕ)
    (syncs : Dict ValidatorIndex DutyAccumulator) (sync : ValidatorIndex × ℕ) :
    Fulfilling (Dict ValidatorIndex DutyAccumulator) := do
  if sync.1 ∉ validatorsByIndex then throw (.raised (.missingValidator sync.1))
  let misses ← Py.listItem duties.syncsMisses sync.2
  if misses > blocksInEpoch then throw (.raised (.inconsistentSync sync.2 sync.1 misses blocksInEpoch))
  return syncs.addTo sync.1 ⟨blocksInEpoch, blocksInEpoch - misses⟩

def addMissed (validatorsByIndex : ValidatorsByIndex) (epoch : EpochNumber) (missedAtts : Dict ValidatorIndex ℕ)
    (vid : ValidatorIndex) : Fulfilling (Dict ValidatorIndex ℕ) :=
  match validatorsByIndex.get? vid with
  | none => .error (.raised (.missingValidator vid))
  | some validator =>
    if !isActiveValidator validator epoch then .error (.raised (.missedWhileInactive validator.index epoch))
    else .ok (missedAtts.addTo vid 1)

structure FrameAcc where
  dutiesToSave : NetworkDuties
  missedAtts : Dict ValidatorIndex ℕ
  processedEpochs : Finset EpochNumber

def FrameAcc.start : FrameAcc := ⟨NetworkDuties.empty, Dict.empty, ∅⟩

def addEpoch (validatorsByIndex : ValidatorsByIndex) (acc : FrameAcc) (duties : Duty) : Fulfilling FrameAcc := do
  validateEpochData duties
  if duties.epoch ∈ acc.processedEpochs then throw (.raised (.duplicateEpoch duties.epoch))
  let (proposals, blocksInEpoch) ←
    duties.proposalsVids.zipIdx.foldlM (addProposal validatorsByIndex duties) (acc.dutiesToSave.proposals, 0)
  let syncs ← (if blocksInEpoch ≠ 0 then
      duties.syncsVids.zipIdx.foldlM (addSync validatorsByIndex duties blocksInEpoch) acc.dutiesToSave.syncs
    else pure acc.dutiesToSave.syncs)
  let missedAtts ← duties.missedAttestationVids.foldlM (addMissed validatorsByIndex duties.epoch) acc.missedAtts
  return ⟨⟨acc.dutiesToSave.attestations, proposals, syncs⟩, missedAtts, insert duties.epoch acc.processedEpochs⟩

/-- The exit epoch less one may be negative. -/
def countActiveEpochs (validator : Validator) (lEpoch rEpoch : EpochNumber) : ℕ :=
  let firstActiveEpoch : ℤ := max (lEpoch : ℤ) validator.validator.activationEpoch
  let lastActiveEpoch : ℤ := min (rEpoch : ℤ) ((validator.validator.exitEpoch : ℤ) - 1)
  if firstActiveEpoch > lastActiveEpoch then 0 else (lastActiveEpoch - firstActiveEpoch + 1).toNat

def addAttestations (lEpoch rEpoch : EpochNumber) (missedAtts : Dict ValidatorIndex ℕ)
    (attestations : Dict ValidatorIndex DutyAccumulator) (validator : Validator) :
    Fulfilling (Dict ValidatorIndex DutyAccumulator) :=
  let assigned := countActiveEpochs validator lEpoch rEpoch
  let misses := missedAtts.totalAt validator.index
  if assigned = 0 then .ok attestations
  else if misses > assigned then .error (.raised (.missesAboveAssigned validator.index misses assigned))
  else .ok (attestations.addTo validator.index ⟨assigned, assigned - misses⟩)

variable {db : DutiesDB}

def getFrameDuties (client : PerformanceClient db) (validatorsByIndex : ValidatorsByIndex)
    (lEpoch rEpoch : EpochNumber) : Fulfilling NetworkDuties := do
  let totalEpochs : ℤ := (rEpoch : ℤ) - lEpoch + 1
  let acc ← client.forEachEpochData .performanceClient lEpoch rEpoch (addEpoch validatorsByIndex) FrameAcc.start
  if (acc.processedEpochs.card : ℤ) ≠ totalEpochs then
    throw (.raised (.epochsCount totalEpochs acc.processedEpochs.card))
  let attestations ← validatorsByIndex.values.foldlM (addAttestations lEpoch rEpoch acc.missedAtts)
    acc.dutiesToSave.attestations
  return { acc.dutiesToSave with attestations }

def saveFrameDuties (client : PerformanceClient db) (validatorsByIndex : ValidatorsByIndex) (state : State)
    (frame : Frame) : Fulfilling State := do
  let duties ← getFrameDuties client validatorsByIndex frame.1 frame.2
  Py.lift .invalidState (state.saveDuties frame duties)

def getDutiesState (client : PerformanceClient db) (validators : List Validator)
    (reportLEpoch reportREpoch : EpochNumber) (epochsPerFrame : ℕ) : Fulfilling State := do
  let state ← Py.lift .frames (State.init reportLEpoch reportREpoch epochsPerFrame)
  state.frames.foldlM (saveFrameDuties client (getValidatorsByIndexes validators)) state

/-! What one record contributes -/

/-- The blocks of the epoch: the proposals that were made -/
def blocksInEpoch (data : DutyData) : ℕ := data.proposalsFlags.count true

def proposalDuty (data : DutyData) (vid : ValidatorIndex) : DutyAccumulator where
  assigned := data.proposalsVids.count vid
  included := (data.proposalsVids.zip data.proposalsFlags).count (vid, true)

/-- Every position a validator holds counts for each block of the epoch; an epoch without blocks does not count. -/
def syncDuty (data : DutyData) (vid : ValidatorIndex) : DutyAccumulator :=
  if blocksInEpoch data = 0 then 0
  else {
    assigned := blocksInEpoch data * data.syncsVids.count vid
    included := (((data.syncsVids.zip data.syncsMisses).filter fun sync => sync.1 = vid).map fun sync =>
      blocksInEpoch data - sync.2).sum }

/-- What the checks of one record ask of it -/
structure Consistent (validatorsByIndex : ValidatorsByIndex) (duty : Duty) : Prop where
  missed_nodup : duty.missedAttestationVids.Nodup
  proposals_length : duty.proposalsVids.length = duty.proposalsFlags.length
  syncs_length : duty.syncsVids.length = duty.syncsMisses.length
  proposals_known : ∀ vid ∈ duty.proposalsVids, vid ∈ validatorsByIndex
  syncs_known : blocksInEpoch duty.toDutyData ≠ 0 → ∀ vid ∈ duty.syncsVids, vid ∈ validatorsByIndex
  syncs_le : blocksInEpoch duty.toDutyData ≠ 0 → ∀ misses ∈ duty.syncsMisses, misses ≤ blocksInEpoch duty.toDutyData
  missed_active : ∀ vid ∈ duty.missedAttestationVids,
    ∃ v, validatorsByIndex.get? vid = some v ∧ isActiveValidator v duty.epoch = true

def proposalAmounts (data : DutyData) : List (ValidatorIndex × DutyAccumulator) :=
  (data.proposalsVids.zip data.proposalsFlags).map fun proposal => (proposal.1, ⟨1, proposal.2.toNat⟩)

def syncAmounts (data : DutyData) : List (ValidatorIndex × DutyAccumulator) :=
  if blocksInEpoch data = 0 then []
  else (data.syncsVids.zip data.syncsMisses).map fun sync =>
    (sync.1, ⟨blocksInEpoch data, blocksInEpoch data - sync.2⟩)

/-- The accumulator with one more record in it -/
def FrameAcc.add (acc : FrameAcc) (duty : Duty) : FrameAcc where
  dutiesToSave := {
    attestations := acc.dutiesToSave.attestations
    proposals := acc.dutiesToSave.proposals.addAll (proposalAmounts duty.toDutyData)
    syncs := acc.dutiesToSave.syncs.addAll (syncAmounts duty.toDutyData) }
  missedAtts := acc.missedAtts.addAll (duty.missedAttestationVids.map fun vid => (vid, 1))
  processedEpochs := insert duty.epoch acc.processedEpochs

section Record

variable {validatorsByIndex : ValidatorsByIndex} {duty : Duty} {data : DutyData} {acc acc' : FrameAcc}

theorem amountAt_map_proposal (proposals : List (ValidatorIndex × Bool)) (vid : ℕ) :
    Dict.amountAt (proposals.map fun proposal => (proposal.1, (⟨1, proposal.2.toNat⟩ : DutyAccumulator))) vid =
      ⟨(proposals.map Prod.fst).count vid, proposals.count (vid, true)⟩ := by
  induction proposals with
  | nil => rfl
  | cons proposal proposals ih =>
    obtain ⟨v, flag⟩ := proposal
    rw [List.map_cons, Dict.amountAt_cons, ih, List.map_cons, List.count_cons, List.count_cons]
    by_cases hv : v = vid
    · subst hv
      refine DutyAccumulator.ext ?_ ?_
      · simp [Nat.add_comm]
      · cases flag <;> simp [Nat.add_comm]
    · refine DutyAccumulator.ext ?_ ?_ <;> simp [hv]

theorem amountAt_map_sync (blocks : ℕ) (syncs : List (ValidatorIndex × ℕ)) (vid : ℕ) :
    Dict.amountAt (syncs.map fun sync => (sync.1, (⟨blocks, blocks - sync.2⟩ : DutyAccumulator))) vid =
      ⟨blocks * (syncs.map Prod.fst).count vid,
        ((syncs.filter fun sync => sync.1 = vid).map fun sync => blocks - sync.2).sum⟩ := by
  induction syncs with
  | nil => rfl
  | cons sync syncs ih =>
    rw [List.map_cons, Dict.amountAt_cons, ih, List.map_cons, List.count_cons]
    by_cases hv : sync.1 = vid
    · refine DutyAccumulator.ext ?_ ?_
      · simp [hv, Nat.mul_add, Nat.add_comm]
      · simp [hv]
    · refine DutyAccumulator.ext ?_ ?_ <;> simp [hv]

theorem amountAt_proposals (h : data.proposalsVids.length = data.proposalsFlags.length) (vid : ℕ) :
    Dict.amountAt (proposalAmounts data) vid = proposalDuty data vid := by
  rw [proposalAmounts, amountAt_map_proposal, List.map_fst_zip h.le]
  rfl

theorem amountAt_syncs (h : data.syncsVids.length = data.syncsMisses.length) (vid : ℕ) :
    Dict.amountAt (syncAmounts data) vid = syncDuty data vid := by
  unfold syncAmounts syncDuty
  split_ifs
  · rfl
  · rw [amountAt_map_sync, List.map_fst_zip h.le]

/-- A loop over the indices of one list that reads another one at each of them -/
theorem zipIdx_getD {α β : Type} {l : List α} {l' : List β} (h : l.length = l'.length) (d : β) :
    (l.zipIdx.map fun e => (e.1, l'.getD e.2 d)) = l.zip l' := by
  refine List.ext_getElem (by simp [h]) fun i hi hi' => ?_
  have hlt : i < l'.length := by
    rw [List.length_zip, h, Nat.min_self] at hi'
    exact hi'
  simp [List.getElem?_eq_getElem hlt]

theorem mem_zipIdx_lt {α : Type} {l : List α} {e : α × ℕ} (he : e ∈ l.zipIdx) : e.1 ∈ l ∧ e.2 < l.length := by
  rw [List.mem_zipIdx_iff_getElem?] at he
  obtain ⟨hlt, hget⟩ := List.getElem?_eq_some_iff.mp he
  exact ⟨hget ▸ List.getElem_mem hlt, hlt⟩

theorem addProposal_eq_ok {s s' : Dict ValidatorIndex DutyAccumulator × ℕ} {e : ValidatorIndex × ℕ} :
    addProposal validatorsByIndex duty s e = .ok s' ↔
      (e.1 ∈ validatorsByIndex ∧ e.2 < duty.proposalsFlags.length) ∧
        s' = (s.1.addTo e.1 ⟨1, (duty.proposalsFlags.getD e.2 false).toNat⟩,
          s.2 + (duty.proposalsFlags.getD e.2 false).toNat) := by
  unfold addProposal
  rw [Except.guard_eq_ok, not_not, and_assoc]
  refine and_congr_right fun _ => ?_
  rw [Except.bind_eq_ok]
  simp only [Py.listItem_eq_ok, Except.pure_eq_ok, List.getElem?_eq_some_iff, List.getD_eq_getElem?_getD]
  constructor
  · intro h
    obtain ⟨flag, ⟨hlt, rfl⟩, rfl⟩ := h
    exact ⟨hlt, by rw [List.getElem?_eq_getElem hlt]; rfl⟩
  · intro h
    obtain ⟨hlt, rfl⟩ := h
    exact ⟨_, ⟨hlt, rfl⟩, by rw [List.getElem?_eq_getElem hlt]; rfl⟩

theorem addSync_eq_ok {blocks : ℕ} {s s' : Dict ValidatorIndex DutyAccumulator} {e : ValidatorIndex × ℕ} :
    addSync validatorsByIndex duty blocks s e = .ok s' ↔
      (e.1 ∈ validatorsByIndex ∧ e.2 < duty.syncsMisses.length ∧ duty.syncsMisses.getD e.2 0 ≤ blocks) ∧
        s' = s.addTo e.1 ⟨blocks, blocks - duty.syncsMisses.getD e.2 0⟩ := by
  unfold addSync
  rw [Except.guard_eq_ok, not_not, and_assoc]
  refine and_congr_right fun _ => ?_
  rw [Except.bind_eq_ok]
  simp only [Py.listItem_eq_ok, Except.guard_eq_ok, Except.pure_eq_ok, List.getElem?_eq_some_iff, not_lt,
    List.getD_eq_getElem?_getD]
  constructor
  · intro h
    obtain ⟨misses, ⟨hlt, rfl⟩, hle, rfl⟩ := h
    rw [List.getElem?_eq_getElem hlt]
    exact ⟨⟨hlt, hle⟩, rfl⟩
  · intro h
    obtain ⟨⟨hlt, hle⟩, rfl⟩ := h
    rw [List.getElem?_eq_getElem hlt] at hle ⊢
    exact ⟨_, ⟨hlt, rfl⟩, hle, rfl⟩

theorem foldl_proposals (proposals : List (ValidatorIndex × Bool)) (s : Dict ValidatorIndex DutyAccumulator × ℕ) :
    proposals.foldl (fun s proposal => (s.1.addTo proposal.1 ⟨1, proposal.2.toNat⟩, s.2 + proposal.2.toNat)) s =
      (s.1.addAll (proposals.map fun proposal => (proposal.1, ⟨1, proposal.2.toNat⟩)),
        s.2 + (proposals.map Prod.snd).count true) := by
  induction proposals generalizing s with
  | nil => rfl
  | cons proposal proposals ih =>
    obtain ⟨v, flag⟩ := proposal
    rw [List.foldl_cons, ih, List.map_cons, List.map_cons, List.count_cons]
    refine Prod.ext rfl ?_
    cases flag <;> simp [Nat.add_assoc, Nat.add_comm 1]

/-- The loop over the proposals of a record -/
theorem foldlM_addProposal (h : duty.proposalsVids.length = duty.proposalsFlags.length)
    {proposals : Dict ValidatorIndex DutyAccumulator} {s' : Dict ValidatorIndex DutyAccumulator × ℕ} :
    duty.proposalsVids.zipIdx.foldlM (addProposal validatorsByIndex duty) (proposals, 0) = .ok s' ↔
      (∀ vid ∈ duty.proposalsVids, vid ∈ validatorsByIndex) ∧
        s' = (proposals.addAll (proposalAmounts duty.toDutyData), blocksInEpoch duty.toDutyData) := by
  have hstep : ∀ s e s', True → (addProposal validatorsByIndex duty s e = .ok s' ↔ _) :=
    fun s e s' _ => addProposal_eq_ok
  have hfold := foldl_proposals (duty.proposalsVids.zip duty.proposalsFlags) (proposals, 0)
  rw [← zipIdx_getD h false, List.foldl_map, zipIdx_getD h false, List.map_snd_zip h.ge, zero_add] at hfold
  rw [ExceptRun.foldlM_ok_iff (fun _ => True) hstep (fun _ _ _ => trivial) trivial, hfold]
  refine and_congr_left fun _ => ?_
  constructor
  · intro hall vid hvid
    obtain ⟨i, hi, rfl⟩ := List.getElem_of_mem hvid
    exact (hall (duty.proposalsVids[i], i) (List.mem_zipIdx_iff_getElem?.mpr (List.getElem?_eq_getElem hi))).1
  · intro hall e he
    exact ⟨hall e.1 (mem_zipIdx_lt he).1, h ▸ (mem_zipIdx_lt he).2⟩

theorem foldlM_addSync (h : duty.syncsVids.length = duty.syncsMisses.length) {blocks : ℕ}
    {syncs syncs' : Dict ValidatorIndex DutyAccumulator} :
    duty.syncsVids.zipIdx.foldlM (addSync validatorsByIndex duty blocks) syncs = .ok syncs' ↔
      ((∀ vid ∈ duty.syncsVids, vid ∈ validatorsByIndex) ∧ ∀ misses ∈ duty.syncsMisses, misses ≤ blocks) ∧
        syncs' = syncs.addAll ((duty.syncsVids.zip duty.syncsMisses).map fun sync =>
          (sync.1, ⟨blocks, blocks - sync.2⟩)) := by
  have hstep : ∀ s e s', True → (addSync validatorsByIndex duty blocks s e = .ok s' ↔ _) :=
    fun s e s' _ => addSync_eq_ok
  have hfold : syncs.addAll ((duty.syncsVids.zip duty.syncsMisses).map fun sync =>
      (sync.1, (⟨blocks, blocks - sync.2⟩ : DutyAccumulator))) = _ := List.foldl_map
  rw [← zipIdx_getD h 0, List.foldl_map, zipIdx_getD h 0] at hfold
  rw [ExceptRun.foldlM_ok_iff (fun _ => True) hstep (fun _ _ _ => trivial) trivial, hfold]
  refine and_congr_left fun _ => ?_
  constructor
  · intro hall
    refine ⟨fun vid hvid => ?_, fun misses hmisses => ?_⟩
    · obtain ⟨i, hi, rfl⟩ := List.getElem_of_mem hvid
      exact (hall (duty.syncsVids[i], i) (List.mem_zipIdx_iff_getElem?.mpr (List.getElem?_eq_getElem hi))).1
    · obtain ⟨i, hi, rfl⟩ := List.getElem_of_mem hmisses
      have hi' : i < duty.syncsVids.length := h ▸ hi
      have hle := (hall (duty.syncsVids[i], i)
        (List.mem_zipIdx_iff_getElem?.mpr (List.getElem?_eq_getElem hi'))).2.2
      rwa [List.getD_eq_getElem _ _ hi] at hle
  · intro hall e he
    have hlt : e.2 < duty.syncsMisses.length := h ▸ (mem_zipIdx_lt he).2
    refine ⟨hall.1 e.1 (mem_zipIdx_lt he).1, hlt, ?_⟩
    rw [List.getD_eq_getElem _ _ hlt]
    exact hall.2 _ (List.getElem_mem hlt)

theorem foldlM_addMissed {epoch : ℕ} {vids : List ValidatorIndex} {missedAtts missedAtts' : Dict ValidatorIndex ℕ} :
    vids.foldlM (addMissed validatorsByIndex epoch) missedAtts = .ok missedAtts' ↔
      (∀ vid ∈ vids, ∃ v, validatorsByIndex.get? vid = some v ∧ isActiveValidator v epoch = true) ∧
        missedAtts' = missedAtts.addAll (vids.map fun vid => (vid, 1)) := by
  have hstep : ∀ s vid s', True → (addMissed validatorsByIndex epoch s vid = .ok s' ↔
      (∃ v, validatorsByIndex.get? vid = some v ∧ isActiveValidator v epoch = true) ∧ s' = s.addTo vid 1) := by
    intro s vid s' _
    unfold addMissed
    cases validatorsByIndex.get? vid with
    | none => simp
    | some v =>
      dsimp only
      cases hactive : isActiveValidator v epoch with
      | true =>
        constructor
        · intro h
          exact ⟨⟨v, rfl, hactive⟩, (Except.ok.inj h).symm⟩
        · intro h
          exact congrArg Except.ok h.2.symm
      | false =>
        refine iff_of_false (fun h => by cases h) fun h => ?_
        obtain ⟨⟨v', hv', hactive'⟩, -⟩ := h
        cases hv'
        rw [hactive] at hactive'
        cases hactive'
  rw [ExceptRun.foldlM_ok_iff (fun _ => True) hstep (fun _ _ _ => trivial) trivial, Dict.addAll, List.foldl_map]

theorem validateEpochData_eq_ok : validateEpochData duty = .ok () ↔ duty.missedAttestationVids.Nodup ∧
    duty.proposalsVids.length = duty.proposalsFlags.length ∧ duty.syncsVids.length = duty.syncsMisses.length := by
  unfold validateEpochData
  have hnodup : duty.missedAttestationVids.length = duty.missedAttestationVids.toFinset.card ↔
      duty.missedAttestationVids.Nodup :=
    eq_comm.trans (Multiset.toFinset_card_eq_card_iff_nodup (m := (duty.missedAttestationVids : Multiset ℕ)))
  rw [Except.guard_eq_ok, Except.guard_eq_ok, not_not, not_not, hnodup]
  refine and_congr_right fun _ => and_congr_right fun _ => ?_
  by_cases hne : duty.syncsVids.length = duty.syncsMisses.length
  · rw [if_neg (not_not.mpr hne)]
    exact iff_of_true rfl hne
  · rw [if_pos hne]
    exact iff_of_false (fun h => by cases h) hne

/-- A record is taken in exactly when it is consistent and its epoch is new. -/
theorem addEpoch_eq_ok : addEpoch validatorsByIndex acc duty = .ok acc' ↔
    Consistent validatorsByIndex duty ∧ duty.epoch ∉ acc.processedEpochs ∧ acc' = acc.add duty := by
  unfold addEpoch
  constructor
  · intro h
    obtain ⟨_, hvalid, h⟩ := Except.bind_eq_ok.mp h
    obtain ⟨hmissed, hproposals, hsyncs⟩ := validateEpochData_eq_ok.mp hvalid
    obtain ⟨hnew, h⟩ := Except.guard_eq_ok.mp h
    obtain ⟨⟨proposals, blocks⟩, hloop, h⟩ := Except.bind_eq_ok.mp h
    obtain ⟨hknown, heq⟩ := (foldlM_addProposal hproposals).mp hloop
    obtain ⟨rfl, rfl⟩ := Prod.mk.inj heq
    obtain ⟨syncs, hsync, h⟩ := Except.bind_eq_ok.mp h
    obtain ⟨missedAtts, hatts, h⟩ := Except.bind_eq_ok.mp h
    obtain ⟨hactive, rfl⟩ := foldlM_addMissed.mp hatts
    rw [Except.pure_eq_ok] at h
    by_cases hblocks : blocksInEpoch duty.toDutyData = 0
    · rw [if_neg (not_not.mpr hblocks), Except.pure_eq_ok] at hsync
      refine ⟨⟨hmissed, hproposals, hsyncs, hknown, absurd hblocks, absurd hblocks, hactive⟩, hnew, ?_⟩
      rw [← h, ← hsync, FrameAcc.add, syncAmounts, if_pos hblocks]
      rfl
    · rw [if_pos hblocks] at hsync
      obtain ⟨⟨hvids, hle⟩, rfl⟩ := (foldlM_addSync hsyncs).mp hsync
      refine ⟨⟨hmissed, hproposals, hsyncs, hknown, fun _ => hvids, fun _ => hle, hactive⟩, hnew, ?_⟩
      rw [← h, FrameAcc.add, syncAmounts, if_neg hblocks]
  · intro h
    obtain ⟨hconsistent, hnew, rfl⟩ := h
    have hvalid := validateEpochData_eq_ok.mpr
      ⟨hconsistent.missed_nodup, hconsistent.proposals_length, hconsistent.syncs_length⟩
    refine Except.bind_eq_ok.mpr ⟨(), hvalid, Except.guard_eq_ok.mpr ⟨hnew, ?_⟩⟩
    refine Except.bind_eq_ok.mpr ⟨_, (foldlM_addProposal hconsistent.proposals_length).mpr
      ⟨hconsistent.proposals_known, rfl⟩, ?_⟩
    refine Except.bind_eq_ok.mpr ⟨acc.dutiesToSave.syncs.addAll (syncAmounts duty.toDutyData), ?_,
      Except.bind_eq_ok.mpr ⟨_, foldlM_addMissed.mpr ⟨hconsistent.missed_active, rfl⟩, rfl⟩⟩
    unfold syncAmounts
    by_cases hblocks : blocksInEpoch duty.toDutyData = 0
    · rw [if_neg (not_not.mpr hblocks), if_pos hblocks]
      rfl
    · rw [if_pos hblocks, if_neg hblocks]
      exact (foldlM_addSync hconsistent.syncs_length).mpr
        ⟨⟨hconsistent.syncs_known hblocks, hconsistent.syncs_le hblocks⟩, rfl⟩

end Record

/-! The records of a frame, taken together -/

section Frame

variable {validatorsByIndex : ValidatorsByIndex}

/-- What the accumulator holds after some records -/
structure FrameAcc.Holds (validatorsByIndex : ValidatorsByIndex) (records : List Duty) (acc : FrameAcc) : Prop where
  processed : acc.processedEpochs = (records.map (·.epoch)).toFinset
  consistent : ∀ d ∈ records, Consistent validatorsByIndex d
  attestations : acc.dutiesToSave.attestations = Dict.empty
  proposals : ∀ vid : ℕ, acc.dutiesToSave.proposals.totalAt vid =
    (records.map fun d => proposalDuty d.toDutyData vid).sum
  syncs : ∀ vid : ℕ, acc.dutiesToSave.syncs.totalAt vid = (records.map fun d => syncDuty d.toDutyData vid).sum
  missed : ∀ vid : ℕ, acc.missedAtts.totalAt vid =
    (records.map fun d => if vid ∈ d.missedAttestationVids then 1 else 0).sum
  validProposals : ValidDuties acc.dutiesToSave.proposals
  validSyncs : ValidDuties acc.dutiesToSave.syncs

theorem valid_proposalAmounts (data : DutyData) : ∀ a ∈ proposalAmounts data, a.2.Valid := by
  intro a ha
  obtain ⟨proposal, -, rfl⟩ := List.mem_map.mp ha
  exact Bool.toNat_le proposal.2

theorem valid_syncAmounts (data : DutyData) : ∀ a ∈ syncAmounts data, a.2.Valid := by
  intro a ha
  unfold syncAmounts at ha
  split_ifs at ha
  · exact absurd ha List.not_mem_nil
  · obtain ⟨sync, -, rfl⟩ := List.mem_map.mp ha
    exact Nat.sub_le _ _

theorem amountAt_missed {vids : List ValidatorIndex} (h : vids.Nodup) (vid : ℕ) :
    Dict.amountAt (vids.map fun v => (v, 1)) vid = if vid ∈ vids then 1 else 0 := by
  split_ifs with hmem
  · have hkeys : ((vids.map fun v => (v, 1)).map Prod.fst).Nodup := by
      rw [List.map_map]
      exact (List.map_id vids).symm ▸ h
    exact Dict.amountAt_of_nodup hkeys (List.mem_map_of_mem (f := fun v => (v, 1)) hmem)
  · refine List.sum_eq_zero fun x hx => ?_
    obtain ⟨a, ha, rfl⟩ := List.mem_map.mp hx
    obtain ⟨v, hv, rfl⟩ := List.mem_map.mp ha
    exact if_neg fun heq : v = vid => hmem (heq ▸ hv)

theorem FrameAcc.Holds.start : FrameAcc.start.Holds validatorsByIndex [] where
  processed := rfl
  consistent := fun _ hd => absurd hd List.not_mem_nil
  attestations := rfl
  proposals := fun _ => rfl
  syncs := fun _ => rfl
  missed := fun _ => rfl
  validProposals := validDuties_empty
  validSyncs := validDuties_empty

/-- One more record -/
theorem FrameAcc.Holds.add {records : List Duty} {acc : FrameAcc} (h : acc.Holds validatorsByIndex records)
    {duty : Duty} (hduty : Consistent validatorsByIndex duty) :
    (acc.add duty).Holds validatorsByIndex (records ++ [duty]) where
  processed := by
    unfold FrameAcc.add
    rw [h.processed, List.map_append, List.toFinset_append, Finset.union_comm]
    rfl
  consistent := by
    refine List.forall_mem_append.mpr ⟨h.consistent, List.forall_mem_singleton.mpr hduty⟩
  attestations := h.attestations
  proposals := fun vid => by
    unfold FrameAcc.add
    rw [Dict.totalAt_addAll, h.proposals, amountAt_proposals hduty.proposals_length, List.map_append, List.sum_append,
      List.map_singleton, List.sum_singleton]
  syncs := fun vid => by
    unfold FrameAcc.add
    rw [Dict.totalAt_addAll, h.syncs, amountAt_syncs hduty.syncs_length, List.map_append, List.sum_append,
      List.map_singleton, List.sum_singleton]
  missed := fun vid => by
    unfold FrameAcc.add
    rw [Dict.totalAt_addAll, h.missed, amountAt_missed hduty.missed_nodup, List.map_append, List.sum_append,
      List.map_singleton, List.sum_singleton]
  validProposals := h.validProposals.addAll (valid_proposalAmounts duty.toDutyData)
  validSyncs := h.validSyncs.addAll (valid_syncAmounts duty.toDutyData)

theorem foldlM_addEpoch {records : List Duty} {acc : FrameAcc}
    (h : records.foldlM (addEpoch validatorsByIndex) FrameAcc.start = .ok acc) :
    acc.Holds validatorsByIndex records := by
  refine ExceptRun.foldlM_invariant (fun done acc => acc.Holds validatorsByIndex done)
    (fun done duty acc acc' hacc hstep => ?_) FrameAcc.Holds.start h
  obtain ⟨hduty, -, rfl⟩ := addEpoch_eq_ok.mp hstep
  exact hacc.add hduty

/-- The closed form counts the epochs in which the validator is active. -/
theorem countActiveEpochs_eq (v : Validator) (l r : ℕ) :
    countActiveEpochs v l r = ((Finset.Icc l r).filter fun e => isActiveValidator v e = true).card := by
  have hactive : (Finset.Icc l r).filter (fun e => isActiveValidator v e = true) =
      Finset.Ico (max l v.validator.activationEpoch) (min (r + 1) v.validator.exitEpoch) := by
    ext e
    rw [Finset.mem_filter, Finset.mem_Icc, Finset.mem_Ico, isActiveValidator, Bool.and_eq_true, decide_eq_true_eq,
      decide_eq_true_eq, max_le_iff, lt_min_iff, Nat.lt_succ_iff]
    tauto
  rw [hactive, Nat.card_Ico]
  unfold countActiveEpochs
  dsimp only
  generalize v.validator.activationEpoch = activation
  generalize v.validator.exitEpoch = exit
  split_ifs with h <;> omega

/-- The record that is stored for an epoch -/
def recordOf (db : DutiesDB) (epoch : EpochNumber) : DutyData :=
  (db.duties.get? epoch).getD ⟨[], [], [], [], []⟩

/-- A sum over the records of a frame is a sum over its epochs. -/
theorem sum_records {M : Type} [AddCommMonoid M] {records : List Duty} {l r : ℕ}
    (hepochs : (records.map (·.epoch)).Perm (List.range' l (r + 1 - l)))
    (hstored : ∀ row ∈ records, db.duties.get? row.epoch = some row.toDutyData) (f : DutyData → M) :
    (records.map fun d => f d.toDutyData).sum = ∑ e ∈ Finset.Icc l r, f (recordOf db e) := by
  have hrecord : ∀ row ∈ records, f row.toDutyData = f (recordOf db row.epoch) := by
    intro row hrow
    rw [recordOf, hstored row hrow]
    rfl
  have hset : (List.range' l (r + 1 - l)).toFinset = Finset.Icc l r := by
    ext e
    rw [List.mem_toFinset, List.mem_range'_1, Finset.mem_Icc]
    omega
  rw [← hset, List.sum_toFinset _ List.nodup_range', List.map_congr_left hrecord, ← (hepochs.map _).sum_eq,
    List.map_map]
  rfl

theorem get?_getValidatorsByIndexes {validators : List Validator} {v : Validator}
    (h : v ∈ (getValidatorsByIndexes validators).values) : (getValidatorsByIndexes validators).get? v.index = some v := by
  obtain ⟨⟨index, v'⟩, hentry, rfl⟩ := List.mem_map.mp h
  have hmem := Dict.mem_of_mem_entries_ofList hentry
  obtain ⟨v'', -, heq⟩ := List.mem_map.mp hmem
  obtain ⟨rfl, rfl⟩ := Prod.mk.inj heq
  exact Dict.get?_eq_some_iff.mpr hentry

theorem nodup_indexes (validators : List Validator) :
    ((getValidatorsByIndexes validators).values.map (·.index)).Nodup := by
  have hkeys : (getValidatorsByIndexes validators).values.map (·.index) = (getValidatorsByIndexes validators).keys.map id :=
    Dict.map_values_eq_map_keys fun index v hentry => by
      obtain ⟨v', -, heq⟩ := List.mem_map.mp (Dict.mem_of_mem_entries_ofList hentry)
      obtain ⟨rfl, rfl⟩ := Prod.mk.inj heq
      rfl
  rw [hkeys, List.map_id]
  exact Dict.keys_nodup _

/-- The epochs of a frame whose record lists a validator -/
def missedEpochs (db : DutiesDB) (l r : EpochNumber) (vid : ValidatorIndex) : Finset EpochNumber :=
  (Finset.Icc l r).filter fun e => vid ∈ (recordOf db e).missedAttestationVids

/-- The misses of a validator are epochs in which it was active. -/
theorem missedEpochs_le {validators : List Validator} {records : List Duty} {l r : ℕ}
    (hepochs : (records.map (·.epoch)).Perm (List.range' l (r + 1 - l)))
    (hstored : ∀ row ∈ records, db.duties.get? row.epoch = some row.toDutyData)
    (hconsistent : ∀ d ∈ records, Consistent (getValidatorsByIndexes validators) d) {v : Validator}
    (hv : v ∈ (getValidatorsByIndexes validators).values) :
    (missedEpochs db l r v.index).card ≤ countActiveEpochs v l r := by
  rw [countActiveEpochs_eq]
  refine Finset.card_le_card fun (e : ℕ) he => ?_
  obtain ⟨hrange, hmissed⟩ := Finset.mem_filter.mp he
  have hrange' : l ≤ e ∧ e ≤ r := Finset.mem_Icc.mp hrange
  have hmem : e ∈ records.map (·.epoch) := hepochs.mem_iff.mpr (List.mem_range'_1.mpr (by omega))
  obtain ⟨row, hrow, rfl⟩ := List.mem_map.mp hmem
  rw [recordOf, hstored row hrow, Option.getD_some] at hmissed
  obtain ⟨v', hv', hactive⟩ := (hconsistent row hrow).missed_active _ hmissed
  rw [get?_getValidatorsByIndexes hv, Option.some.injEq] at hv'
  exact Finset.mem_filter.mpr ⟨hrange, hv' ▸ hactive⟩

/-- What a validator gets for its attestations -/
def attestationDuty (missedAtts : Dict ValidatorIndex ℕ) (l r : EpochNumber) (v : Validator) : DutyAccumulator where
  assigned := countActiveEpochs v l r
  included := countActiveEpochs v l r - missedAtts.totalAt v.index

/-- The loop over the validators, when no one missed more than was assigned -/
theorem foldlM_addAttestations {missedAtts : Dict ValidatorIndex ℕ} {l r : ℕ} {validators : List Validator}
    (hle : ∀ v ∈ validators, missedAtts.totalAt v.index ≤ countActiveEpochs v l r)
    (attestations : Dict ValidatorIndex DutyAccumulator) (hvalid : ValidDuties attestations) :
    ∃ attestations', validators.foldlM (addAttestations l r missedAtts) attestations = .ok attestations' ∧
      ValidDuties attestations' ∧ ∀ vid : ℕ, attestations'.totalAt vid = attestations.totalAt vid +
        Dict.amountAt (validators.map fun v => (v.index, attestationDuty missedAtts l r v)) vid := by
  induction validators generalizing attestations with
  | nil => exact ⟨attestations, rfl, hvalid, fun _ => (add_zero _).symm⟩
  | cons v validators ih =>
    rw [List.forall_mem_cons] at hle
    by_cases hzero : countActiveEpochs v l r = 0
    · obtain ⟨attestations', hloop, hvalid', htotal⟩ := ih hle.2 attestations hvalid
      have hnone : attestationDuty missedAtts l r v = 0 := by
        rw [attestationDuty, hzero, Nat.zero_sub]
        rfl
      refine ⟨attestations', ?_, hvalid', fun vid => ?_⟩
      · rw [List.foldlM_cons, addAttestations, if_pos hzero, Except.ok_bind, hloop]
      · rw [htotal, List.map_cons, Dict.amountAt_cons, hnone, ite_self, zero_add]
    · obtain ⟨attestations', hloop, hvalid', htotal⟩ := ih hle.2
        (attestations.addTo v.index (attestationDuty missedAtts l r v)) (hvalid.addTo _ (Nat.sub_le _ _))
      refine ⟨attestations', ?_, hvalid', fun vid => ?_⟩
      · rw [List.foldlM_cons, addAttestations, if_neg hzero, if_neg (not_lt.mpr hle.1), Except.ok_bind]
        exact hloop
      · rw [htotal, Dict.totalAt_addTo, List.map_cons, Dict.amountAt_cons, add_assoc]

/-- What a frame that was aggregated holds -/
structure FrameAggregated (db : DutiesDB) (validatorsByIndex : ValidatorsByIndex) (l r : EpochNumber)
    (duties : NetworkDuties) : Prop where
  /-- one duty for each active epoch, missed where the record of the epoch says so -/
  attestations : ∀ v ∈ validatorsByIndex.values,
    (duties.attestations.totalAt v.index).assigned =
      ((Finset.Icc l r).filter fun e => isActiveValidator v e = true).card ∧
    (duties.attestations.totalAt v.index).included + (missedEpochs db l r v.index).card =
      (duties.attestations.totalAt v.index).assigned
  proposals : ∀ vid : ValidatorIndex, duties.proposals.totalAt vid = ∑ e ∈ Finset.Icc l r, proposalDuty (recordOf db e) vid
  syncs : ∀ vid : ValidatorIndex, duties.syncs.totalAt vid = ∑ e ∈ Finset.Icc l r, syncDuty (recordOf db e) vid
  /-- no count of missed blocks was above the number of blocks it is taken from -/
  syncMisses : ∀ e ∈ Finset.Icc l r, blocksInEpoch (recordOf db e) ≠ 0 →
    ∀ misses ∈ (recordOf db e).syncsMisses, misses ≤ blocksInEpoch (recordOf db e)
  valid : duties.Valid

/-- After its loop over the records, a frame either fails on the number of epochs or is aggregated. -/
theorem getFrameDuties_of_records (client : PerformanceClient db) (hbatch : 1 ≤ client.epochsBatchSize)
    (validators : List Validator) {l r : ℕ} (hle : l ≤ r) {acc : FrameAcc}
    (hloop : client.forEachEpochData .performanceClient l r (addEpoch (getValidatorsByIndexes validators))
      FrameAcc.start = .ok acc) :
    ∃ duties, getFrameDuties client (getValidatorsByIndexes validators) l r = .ok duties ∧
      FrameAggregated db (getValidatorsByIndexes validators) l r duties := by
  obtain ⟨records, hfetch, hfold⟩ := client.forEachEpochData_eq_ok.mp hloop
  obtain ⟨hepochs, hstored⟩ := client.getEpochsData_ok hbatch hle hfetch
  have hacc := foldlM_addEpoch hfold
  have hmissed : ∀ vid : ℕ, acc.missedAtts.totalAt vid = (missedEpochs db l r vid).card := by
    intro vid
    rw [hacc.missed, sum_records hepochs hstored fun data => if vid ∈ data.missedAttestationVids then 1 else 0,
      missedEpochs, Finset.card_filter]
  have hmisses : ∀ v ∈ (getValidatorsByIndexes validators).values,
      acc.missedAtts.totalAt v.index ≤ countActiveEpochs v l r := by
    intro v hv
    rw [hmissed]
    exact missedEpochs_le hepochs hstored hacc.consistent hv
  have hcard : (acc.processedEpochs.card : ℤ) = (r : ℤ) - l + 1 := by
    have hlength := hepochs.length_eq
    have hnodup : (records.map (·.epoch)).Nodup := hepochs.nodup_iff.mpr List.nodup_range'
    rw [hacc.processed, List.toFinset_card_of_nodup hnodup, hlength, List.length_range']
    omega
  obtain ⟨attestations, hattestations, hvalid, htotal⟩ :=
    foldlM_addAttestations hmisses acc.dutiesToSave.attestations (hacc.attestations ▸ validDuties_empty)
  refine ⟨{ acc.dutiesToSave with attestations }, ?_, ?_, fun vid => ?_, fun vid => ?_, fun (e : ℕ) he hblocks => ?_,
    hvalid, fun vid => ?_, fun vid => ?_⟩
  · unfold getFrameDuties
    rw [hloop, Except.ok_bind, if_neg (not_not.mpr hcard), hattestations]
    rfl
  · intro v hv
    have hkeys : (((getValidatorsByIndexes validators).values.map fun v =>
        (v.index, attestationDuty acc.missedAtts l r v)).map Prod.fst).Nodup := by
      rw [List.map_map]
      exact nodup_indexes validators
    have hduty := Dict.amountAt_of_nodup hkeys (List.mem_map_of_mem (f := fun v =>
      (v.index, attestationDuty acc.missedAtts l r v)) hv)
    dsimp only at hduty ⊢
    rw [htotal, hacc.attestations, Dict.totalAt_empty, zero_add, hduty, attestationDuty]
    dsimp only
    rw [hmissed]
    refine ⟨countActiveEpochs_eq v l r, Nat.sub_add_cancel ?_⟩
    exact hmissed v.index ▸ hmisses v hv
  · exact (hacc.proposals vid).trans (sum_records hepochs hstored fun data => proposalDuty data vid)
  · exact (hacc.syncs vid).trans (sum_records hepochs hstored fun data => syncDuty data vid)
  · have hrange : l ≤ e ∧ e ≤ r := Finset.mem_Icc.mp he
    have hmem : e ∈ records.map (·.epoch) := hepochs.mem_iff.mpr (List.mem_range'_1.mpr (by omega))
    obtain ⟨row, hrow, rfl⟩ := List.mem_map.mp hmem
    rw [recordOf, hstored row hrow, Option.getD_some] at hblocks ⊢
    exact (hacc.consistent row hrow).syncs_le hblocks
  · exact hacc.validProposals vid
  · exact hacc.validSyncs vid

end Frame

/-! The check of the misses against the duties -/

section Unreachable

open ExceptRun

variable {validatorsByIndex : ValidatorsByIndex} {vid misses assigned : ℕ}

theorem validateEpochData_avoids (duty : Duty) :
    Avoids (.raised (.missesAboveAssigned vid misses assigned)) (validateEpochData duty) := by
  refine Avoids.guard (by simp) (Avoids.guard (by simp) ?_)
  split_ifs
  · exact avoids_error (by simp)
  · exact avoids_ok _

theorem addProposal_avoids (duty : Duty) (acc : Dict ValidatorIndex DutyAccumulator × ℕ) (e : ValidatorIndex × ℕ) :
    Avoids (.raised (.missesAboveAssigned vid misses assigned)) (addProposal validatorsByIndex duty acc e) := by
  refine Avoids.guard (by simp) (Avoids.bind (fun h => ?_) fun _ _ => avoids_ok _)
  cases (Py.listItem_eq_error.mp h).2

theorem addSync_avoids (duty : Duty) (blocks : ℕ) (syncs : Dict ValidatorIndex DutyAccumulator) (e : ValidatorIndex × ℕ) :
    Avoids (.raised (.missesAboveAssigned vid misses assigned)) (addSync validatorsByIndex duty blocks syncs e) := by
  refine Avoids.guard (by simp) (Avoids.bind (fun h => ?_) fun _ _ => Avoids.guard (by simp) (avoids_ok _))
  cases (Py.listItem_eq_error.mp h).2

theorem addMissed_avoids (epoch : ℕ) (missedAtts : Dict ValidatorIndex ℕ) (v : ℕ) :
    Avoids (.raised (.missesAboveAssigned vid misses assigned)) (addMissed validatorsByIndex epoch missedAtts v) := by
  unfold addMissed
  split
  · exact avoids_error (by simp)
  · split_ifs
    · exact avoids_error (by simp)
    · exact avoids_ok _

theorem addEpoch_avoids (acc : FrameAcc) (duty : Duty) :
    Avoids (.raised (.missesAboveAssigned vid misses assigned)) (addEpoch validatorsByIndex acc duty) := by
  refine (validateEpochData_avoids duty).bind fun _ _ => Avoids.guard (by simp) ?_
  refine (avoids_foldlM (addProposal_avoids duty) _ _).bind fun proposals _ => Avoids.bind ?_ fun syncs _ =>
    (avoids_foldlM (addMissed_avoids duty.epoch) _ _).bind fun _ _ => avoids_ok _
  split_ifs
  · exact avoids_foldlM (addSync_avoids duty _) _ _
  · exact avoids_ok _

end Unreachable

/-- Fetching a frame gives each of its epochs once or fails on a missing one. What is made of it counts every
duty of every record, and more misses than duties cannot come out of the records. -/
theorem getFrameDuties_exact (client : PerformanceClient db) (hbatch : 1 ≤ client.epochsBatchSize)
    (validators : List Validator) {lEpoch rEpoch : EpochNumber} (hle : lEpoch ≤ rEpoch) :
    ((∃ rows, client.getEpochsData lEpoch rEpoch = .ok rows ∧
        (rows.map (·.epoch)).Perm (List.range' lEpoch (rEpoch + 1 - lEpoch)) ∧
        ∀ row ∈ rows, db.duties.get? row.epoch = some row.toDutyData) ∨
      ∃ first last missing, client.getEpochsData lEpoch rEpoch =
          .error (.raised (.response (.raised (.incompleteEpochRange first last missing)))) ∧
        missing ≠ [] ∧ ∀ epoch ∈ missing, lEpoch ≤ epoch ∧ epoch ≤ rEpoch ∧ epoch ∉ db.duties) ∧
    (∀ vid misses assigned, getFrameDuties client (getValidatorsByIndexes validators) lEpoch rEpoch ≠
      .error (.raised (.missesAboveAssigned vid misses assigned))) ∧
    ∀ duties, getFrameDuties client (getValidatorsByIndexes validators) lEpoch rEpoch = .ok duties →
      FrameAggregated db (getValidatorsByIndexes validators) lEpoch rEpoch duties ∧
      ∀ table ∈ [duties.attestations, duties.proposals, duties.syncs], ∃ aggr, State.getDutyNetworkAggr table = .ok aggr := by
  refine ⟨?_, fun vid misses assigned herror => ?_, fun duties hduties => ?_⟩
  · cases hfetch : client.getEpochsData lEpoch rEpoch with
    | ok rows => exact Or.inl ⟨rows, rfl, client.getEpochsData_ok hbatch hle hfetch⟩
    | error error =>
      obtain ⟨first, last, missing, rfl, hmissing⟩ := client.getEpochsData_error hbatch hle hfetch
      exact Or.inr ⟨first, last, missing, rfl, hmissing⟩
  · rcases Except.bind_eq_error.mp herror with hloop | ⟨acc, hloop, -⟩
    · exact client.forEachEpochData_avoids (fun _ h => by cases h) addEpoch_avoids _ hloop
    · obtain ⟨duties, hduties, -⟩ := getFrameDuties_of_records client hbatch validators hle hloop
      rw [hduties] at herror
      cases herror
  · obtain ⟨acc, hloop, -⟩ := Except.bind_eq_ok.mp hduties
    obtain ⟨duties', hduties', haggregated⟩ := getFrameDuties_of_records client hbatch validators hle hloop
    rw [hduties, Except.ok.injEq] at hduties'
    subst hduties'
    refine ⟨haggregated, fun table htable => ?_⟩
    have hvalid : ValidDuties table := by
      simp only [List.mem_cons, List.not_mem_nil, or_false] at htable
      rcases htable with rfl | rfl | rfl
      · exact haggregated.valid.attestations
      · exact haggregated.valid.proposals
      · exact haggregated.valid.syncs
    exact ⟨_, State.getDutyNetworkAggr_of_valid hvalid⟩

/-! Four epochs that come in two batches, and three validators, of which one becomes active in the second epoch -/

def dutyValidator (index : ValidatorIndex) (activationEpoch : EpochNumber) : Validator where
  index := index
  balance := 0
  validator := {
    pubkey := "0xa"
    withdrawalCredentials := "0x01"
    effectiveBalance := 0
    slashed := false
    activationEligibilityEpoch := 0
    activationEpoch := activationEpoch
    exitEpoch := 9
    withdrawableEpoch := 9
    effectiveBalance_le := Nat.zero_le _ }

def batchesValidators : List Validator := [dutyValidator 3 5, dutyValidator 4 6, dutyValidator 7 0]

def batchesDB : DutiesDB where
  duties := Dict.ofList [(8, ⟨[3, 4], [3, 4], [false, false], [7], [0]⟩), (5, ⟨[3], [3, 7], [true, false], [3, 7], [1, 0]⟩),
    (7, ⟨[], [3, 4], [false, true], [4, 3], [1, 0]⟩), (6, ⟨[7], [7, 7], [true, true], [4], [1]⟩)]
  demands := Dict.empty
  settings := Dict.empty

/-- The server gives its rows in the reverse order. -/
def batchesClient : PerformanceClient batchesDB :=
  ⟨⟨fun fromEpoch toEpoch => (batchesDB.rowsIn fromEpoch toEpoch).reverse, fun _ _ => List.reverse_perm _⟩, 2⟩

theorem getFrameDuties_exact_sample :
    ∃ duties, getFrameDuties batchesClient (getValidatorsByIndexes batchesValidators) 5 8 = .ok duties ∧
      FrameAggregated batchesDB (getValidatorsByIndexes batchesValidators) 5 8 duties ∧
      [3, 4, 7].map duties.attestations.totalAt = [⟨4, 2⟩, ⟨3, 2⟩, ⟨4, 3⟩] ∧
      [3, 4, 7].map duties.proposals.totalAt = [⟨3, 1⟩, ⟨2, 1⟩, ⟨3, 2⟩] ∧
      [3, 4, 7].map duties.syncs.totalAt = [⟨2, 1⟩, ⟨3, 1⟩, ⟨1, 1⟩] := by
  have hduties : (getFrameDuties batchesClient (getValidatorsByIndexes batchesValidators) 5 8).toOption.map (fun duties =>
      ([3, 4, 7].map duties.attestations.totalAt, [3, 4, 7].map duties.proposals.totalAt,
        [3, 4, 7].map duties.syncs.totalAt)) =
      some ([⟨4, 2⟩, ⟨3, 2⟩, ⟨4, 3⟩], [⟨3, 1⟩, ⟨2, 1⟩, ⟨3, 2⟩], [⟨2, 1⟩, ⟨3, 1⟩, ⟨1, 1⟩]) := by
    decide +kernel
  obtain ⟨duties, hok, hduties⟩ := Option.map_eq_some_iff.mp hduties
  obtain ⟨hattestations, hrest⟩ := Prod.mk.inj hduties
  obtain ⟨hproposals, hsyncs⟩ := Prod.mk.inj hrest
  have hok := Except.toOption_eq_some.mp hok
  have hexact := getFrameDuties_exact batchesClient (by decide) batchesValidators (by decide : 5 ≤ 8)
  exact ⟨duties, hok, (hexact.2.2 duties hok).1, hattestations, hproposals, hsyncs⟩

/-! All frames of a report -/

theorem getFrameDuties_valid {client : PerformanceClient db} {validators : List Validator} {l r : ℕ} {duties : NetworkDuties}
    (h : getFrameDuties client (getValidatorsByIndexes validators) l r = .ok duties) : duties.Valid := by
  obtain ⟨acc, hloop, -⟩ := Except.bind_eq_ok.mp h
  obtain ⟨epochs, hsequence, hbatches⟩ := Except.bind_eq_ok.mp hloop
  obtain ⟨batches, hbatched, -⟩ := Except.bind_eq_ok.mp hbatches
  have hle : l ≤ r := by
    unfold Performance.sequence at hsequence
    split_ifs at hsequence with hgt
    exact not_lt.mp hgt
  have hbatch := (Itertools.batched_eq_ok.mp hbatched).1
  obtain ⟨duties', hduties', haggregated⟩ := getFrameDuties_of_records client hbatch validators hle hloop
  rw [h, Except.ok.injEq] at hduties'
  exact hduties' ▸ haggregated.valid

/-- Every frame of the state holds valid duties. -/
def State.Valid (state : State) : Prop := ∀ frame duties, state.data.get? frame = some duties → duties.Valid

theorem saveFrameDuties_valid {client : PerformanceClient db} {validators : List Validator} {state state' : State}
    {frame : Frame} (hstate : state.Valid)
    (h : saveFrameDuties client (getValidatorsByIndexes validators) state frame = .ok state') : state'.Valid := by
  obtain ⟨duties, hduties, h⟩ := Except.bind_eq_ok.mp h
  obtain ⟨frameData, hframe, h⟩ := Except.bind_eq_ok.mp (Py.lift_eq_ok.mp h)
  rw [Except.pure_eq_ok] at h
  subst h
  have hdata : frameData.Valid := by
    unfold State.frameData at hframe
    split at hframe
    · rename_i stored hstored
      cases hframe
      exact hstate frame _ hstored
    · cases hframe
  intro other data hother
  dsimp only at hother
  rw [Dict.get?_set] at hother
  split_ifs at hother with heq
  · exact Option.some.inj hother ▸ hdata.merge (getFrameDuties_valid hduties)
  · exact hstate other data hother

/-- Once a report has its state, the aggregates of its frames can be read. -/
theorem getDutiesState_aggregates {client : PerformanceClient db} {validators : List Validator} {lEpoch rEpoch : EpochNumber}
    {epochsPerFrame : ℕ} {state : State} (h : getDutiesState client validators lEpoch rEpoch epochsPerFrame = .ok state) :
    ∀ frame ∈ state.frames, (∃ aggr, state.getAttNetworkAggr frame = .ok aggr) ∧
      (∃ aggr, state.getPropNetworkAggr frame = .ok aggr) ∧ ∃ aggr, state.getSyncNetworkAggr frame = .ok aggr := by
  obtain ⟨start, hstart, hfold⟩ := Except.bind_eq_ok.mp h
  have hempty : start.Valid := by
    obtain ⟨epochs, -, hinit⟩ := Except.bind_eq_ok.mp (Py.lift_eq_ok.mp hstart)
    obtain ⟨frames, -, hinit⟩ := Except.bind_eq_ok.mp hinit
    rw [Except.pure_eq_ok] at hinit
    subst hinit
    intro frame duties hget
    have hmem := Dict.mem_of_mem_entries_ofList (Dict.get?_eq_some_iff.mp hget)
    obtain ⟨_, -, heq⟩ := List.mem_map.mp hmem
    obtain ⟨-, rfl⟩ := Prod.mk.inj heq
    exact ⟨validDuties_empty, validDuties_empty, validDuties_empty⟩
  have hvalid : state.Valid := ExceptRun.foldlM_preserves State.Valid
    (fun _ _ _ hstate hstep => saveFrameDuties_valid hstate hstep) hempty hfold
  intro frame hframe
  obtain ⟨duties, hduties⟩ := Dict.mem_iff_exists_get?.mp (Dict.mem_keys.mp hframe)
  have hdata := hvalid frame duties hduties
  have hread : state.frameData frame = .ok duties := by
    unfold State.frameData
    rw [hduties]
  refine ⟨⟨duties.attestations.values.sum, ?_⟩, ⟨duties.proposals.values.sum, ?_⟩, ⟨duties.syncs.values.sum, ?_⟩⟩
  · rw [State.getAttNetworkAggr, hread, Except.ok_bind, State.getDutyNetworkAggr_of_valid hdata.attestations]
  · rw [State.getPropNetworkAggr, hread, Except.ok_bind, State.getDutyNetworkAggr_of_valid hdata.proposals]
  · rw [State.getSyncNetworkAggr, hread, Except.ok_bind, State.getDutyNetworkAggr_of_valid hdata.syncs]

end StakingModules

end LidoOracle
