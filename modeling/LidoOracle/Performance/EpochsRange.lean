import LidoOracle.Performance.Checkpoints
import LidoOracle.Performance.ConcurrentStore
import LidoOracle.Performance.EpochsData

/-! Which epochs a pass of the collector fetches, and what a whole pass leaves
behind. The start of the range comes from the oldest stored epoch, the demands
and the gaps; storing prunes from the bottom on the way. -/

namespace LidoOracle

namespace Performance

namespace DutiesDB

/-- The oldest stored epoch; epoch 0 is falsy and reads as none. -/
def minEpoch (db : DutiesDB) : Option EpochNumber :=
  match db.duties.keys.min? with
  | some result => if result ≠ 0 then some result else none
  | none => none

def missingEpochsIn (db : DutiesDB) (fromEpoch toEpoch : EpochNumber) : Db (List EpochNumber) := do
  if fromEpoch > toEpoch then throw (.raised .invalidEpochRange)
  let present := (db.duties.keys.filter fun e => fromEpoch ≤ e ∧ e ≤ toEpoch).toFinset
  let epochs ← sequence fromEpoch toEpoch
  return epochs.filter fun epoch => epoch ∉ present

def deleteDemand (db : DutiesDB) (consumer : String) : DutiesDB :=
  { db with demands := db.demands.erase consumer }

end DutiesDB

inductive RangeError where
  | db (error : DbError)
  | notSynced (maxEpochInDb : EpochNumber)
  | emptyWithoutMissing
  deriving DecidableEq, Repr

abbrev Ranging := Py RangeError

/-- A demand that is satisfied goes, another one lowers the start. -/
def considerDemand (acc : DutiesDB × EpochNumber) (demand : String × EpochsDemand) : Ranging (DutiesDB × EpochNumber) := do
  let isRangeAvailable ← Py.lift .db (acc.1.isRangeAvailable demand.2.fromEpoch demand.2.toEpoch)
  return if isRangeAvailable then (acc.1.deleteDemand demand.1, acc.2) else (acc.1, min acc.2 demand.2.fromEpoch)

/-- With the start that the demands ask for, the range itself -/
def rangeFrom (maxAvailableEpochToCheck : EpochNumber) (maxEpochInDb : Option EpochNumber)
    (acc : DutiesDB × EpochNumber) : Ranging (DutiesDB × Option (EpochNumber × EpochNumber)) := do
  let missingEpochs ← Py.lift .db (acc.1.missingEpochsIn acc.2 maxAvailableEpochToCheck)
  let startEpoch ← (match missingEpochs.min?, maxEpochInDb with
    | some first, _ => pure first
    | none, some newest => pure (newest + 1)
    | none, none => throw (.raised .emptyWithoutMissing))
  return (acc.1, if startEpoch > maxAvailableEpochToCheck then none
    else some (startEpoch, maxAvailableEpochToCheck))

def defineEpochsToProcessRange (db : DutiesDB) (finalizedEpoch : EpochNumber) :
    Ranging (DutiesDB × Option (EpochNumber × EpochNumber)) :=
  if finalizedEpoch < Collector.CHECKPOINT_SLOT_DELAY_EPOCHS then .ok (db, none)
  else do
    let maxAvailableEpochToCheck := finalizedEpoch - Collector.CHECKPOINT_SLOT_DELAY_EPOCHS
    let maxEpochInDb := db.maxEpoch
    if maxEpochInDb.any (maxAvailableEpochToCheck < ·) then throw (.raised (.notSynced (maxEpochInDb.getD 0)))
    let startEpoch := db.minEpoch.getD maxAvailableEpochToCheck
    let acc ← db.demands.entries.foldlM considerDemand (db, startEpoch)
    rangeFrom maxAvailableEpochToCheck maxEpochInDb acc

/-! The processing of the checkpoints -/

def unprocessedEpochs (db : DutiesDB) (dutyEpochs : List EpochNumber) : List EpochNumber :=
  dutyEpochs.filter fun e => e ∉ db.duties

/-- A checkpoint: the epochs that are not stored are fetched, whatever their duties are, and stored by
threads that interleave. -/
inductive CheckpointRun : DutiesDB → List EpochNumber → DutiesDB → Prop where
  | nothing {db : DutiesDB} {dutyEpochs : List EpochNumber} (h : unprocessedEpochs db dutyEpochs = []) :
      CheckpointRun db dutyEpochs db
  | processed {db : DutiesDB} {dutyEpochs : List EpochNumber} {duties : EpochNumber → DutyData} {s : Collector}
      (hne : unprocessedEpochs db dutyEpochs ≠ [])
      (hrun : Collector.Run ⟨db, begin ((unprocessedEpochs db dutyEpochs).map fun e => (e, duties e))⟩ s)
      (hfinished : ∀ call ∈ s.calls, call.stage = .finished) : CheckpointRun db dutyEpochs s.db

inductive CheckpointsRun : DutiesDB → List (List EpochNumber) → DutiesDB → Prop where
  | nil {db : DutiesDB} : CheckpointsRun db [] db
  | cons {db db' db'' : DutiesDB} {dutyEpochs : List EpochNumber} {rest : List (List EpochNumber)}
      (hcheckpoint : CheckpointRun db dutyEpochs db') (hrest : CheckpointsRun db' rest db'') :
      CheckpointsRun db (dutyEpochs :: rest) db''

/-- A complete pass over a range -/
def PassRun (db : DutiesDB) (converter : LidoOracle.Collector.ChainConverter) (startEpoch endEpoch finalizedEpoch : EpochNumber)
    (db' : DutiesDB) : Prop :=
  ∃ it checkpoints, LidoOracle.Collector.FrameCheckpointsIterator.init converter startEpoch endEpoch finalizedEpoch = .ok it ∧
    it.checkpoints = .ok checkpoints ∧ CheckpointsRun db (checkpoints.map (·.dutyEpochs)) db'

/-! What the range is, in terms of the rows and the demands -/

/-- Every epoch of the demand is stored. -/
def Available (db : DutiesDB) (demand : EpochsDemand) : Prop :=
  ∀ e : ℕ, demand.fromEpoch ≤ e → e ≤ demand.toEpoch → e ∈ db.duties

/-- The demands ask for ranges, as the web server has checked. -/
def ValidDemands (db : DutiesDB) : Prop := ∀ d ∈ db.demands.values, d.fromEpoch ≤ d.toEpoch

section Range

variable {db db' : DutiesDB} {maxAvailable : ℕ} {kept rest : List (String × EpochsDemand)}

open Classical in
theorem isRangeAvailable_eq {demand : EpochsDemand} (h : demand.fromEpoch ≤ demand.toEpoch) :
    db.isRangeAvailable demand.fromEpoch demand.toEpoch = .ok (decide (Available db demand)) := by
  by_cases hall : Available db demand
  · rw [DutiesDB.isRangeAvailable_of_stored h hall, decide_eq_true hall]
  · rw [decide_eq_false hall]
    unfold DutiesDB.isRangeAvailable
    rw [if_neg (not_lt.mpr h), Except.ok.injEq, decide_eq_false_iff_not]
    intro hlength
    refine hall fun e hfrom hto => ?_
    have hsub : (db.duties.keys.filter fun e => demand.fromEpoch ≤ e ∧ e ≤ demand.toEpoch) ⊆
        List.range' demand.fromEpoch (demand.toEpoch - demand.fromEpoch + 1) := by
      intro k hk
      have hrange := of_decide_eq_true (List.mem_filter.mp hk).2
      exact List.mem_range'_1.mpr ⟨hrange.1, Nat.lt_of_le_of_lt hrange.2 (by omega)⟩
    have hperm := ((db.duties.keys_nodup.filter _).subperm hsub).perm_of_length_le (by
      rw [List.length_range', hlength])
    have hmem : e ∈ List.range' demand.fromEpoch (demand.toEpoch - demand.fromEpoch + 1) :=
      List.mem_range'_1.mpr ⟨hfrom, by omega⟩
    exact Dict.mem_keys.mp (List.mem_filter.mp (hperm.mem_iff.mpr hmem)).1

open Classical in
/-- The start that the oldest row and the unsatisfied demands ask for -/
noncomputable def firstWanted (db : DutiesDB) (maxAvailable : EpochNumber) : EpochNumber :=
  db.demands.values.foldl (fun start d => if Available db d then start else min start d.fromEpoch)
    (db.minEpoch.getD maxAvailable)

theorem firstWanted_le_iff {e : ℕ} : firstWanted db maxAvailable ≤ e ↔
    db.minEpoch.getD maxAvailable ≤ e ∨ ∃ d ∈ db.demands.values, ¬Available db d ∧ d.fromEpoch ≤ e := by
  unfold firstWanted
  generalize db.minEpoch.getD maxAvailable = start
  generalize db.demands.values = demands
  induction demands generalizing start with
  | nil => simp
  | cons d demands ih =>
    rw [List.foldl_cons, ih]
    simp only [List.exists_mem_cons_iff]
    split_ifs with havailable
    · simp [havailable]
    · rw [min_le_iff, or_assoc]
      simp [havailable]

open Classical in
theorem foldlM_considerDemand_from (hvalid : ∀ e : String × EpochsDemand, e ∈ rest → e.2.fromEpoch ≤ e.2.toEpoch)
    (acc : DutiesDB × EpochNumber) (hentries : acc.1.demands.entries = kept ++ rest)
    (hduties : acc.1.duties = db.duties) : ∃ acc', rest.foldlM considerDemand acc = .ok acc' ∧
      acc'.2 = (rest.map Prod.snd).foldl
        (fun start d => if Available db d then start else min start d.fromEpoch) acc.2 ∧
      acc'.1.duties = db.duties ∧ acc'.1.settings = acc.1.settings ∧
      acc'.1.demands.entries = kept ++ rest.filter fun e => ¬Available db e.2 := by
  induction rest generalizing kept acc with
  | nil => exact ⟨acc, rfl, rfl, hduties, rfl, hentries⟩
  | cons e rest ih =>
    rw [List.forall_mem_cons] at hvalid
    have hsame : Available acc.1 e.2 ↔ Available db e.2 := by
      unfold Available
      rw [hduties]
    have hrange : acc.1.isRangeAvailable e.2.fromEpoch e.2.toEpoch = .ok (decide (Available db e.2)) := by
      rw [isRangeAvailable_eq hvalid.1, decide_eq_decide.mpr hsame]
    by_cases havailable : Available db e.2
    · have herase : (acc.1.deleteDemand e.1).demands.entries = kept ++ rest := by
        have hnodup := acc.1.demands.nodupKeys
        unfold DutiesDB.deleteDemand Dict.erase
        dsimp only
        rw [hentries, List.map_append, List.map_cons] at hnodup
        rw [hentries, List.filter_append, List.filter_cons_of_neg (by simp)]
        have hne : ∀ e' ∈ kept ++ rest, e'.1 ≠ e.1 := by
          intro e' he' heq
          have hmem := List.mem_map_of_mem (f := Prod.fst) he'
          rw [heq, List.map_append] at hmem
          exact (List.nodup_middle.mp hnodup).notMem hmem
        rw [← List.filter_append]
        exact List.filter_eq_self.mpr fun e' he' => decide_eq_true (hne e' he')
      obtain ⟨acc', hloop, hstart, hrest⟩ := ih hvalid.2 (acc.1.deleteDemand e.1, acc.2) herase hduties
      refine ⟨acc', ?_, ?_, ?_⟩
      · rw [List.foldlM_cons, considerDemand, hrange, Py.lift, decide_eq_true havailable]
        exact hloop
      · rw [List.map_cons, List.foldl_cons, if_pos havailable]
        exact hstart
      · rw [List.filter_cons_of_neg (by simpa using havailable)]
        exact hrest
    · obtain ⟨acc', hloop, hstart, hduties', hsettings, hentries'⟩ := @ih (kept ++ [e]) hvalid.2
        (acc.1, min acc.2 e.2.fromEpoch) (by rw [hentries, List.append_assoc]; rfl) hduties
      refine ⟨acc', ?_, ?_, hduties', hsettings, ?_⟩
      · rw [List.foldlM_cons, considerDemand, hrange, Py.lift, decide_eq_false havailable]
        exact hloop
      · rw [List.map_cons, List.foldl_cons, if_neg havailable]
        exact hstart
      · rw [List.filter_cons_of_pos (by simpa using havailable), hentries', List.append_assoc]
        rfl

open Classical in
/-- The loop over the demands -/
theorem foldlM_considerDemand (hvalid : ValidDemands db) : ∃ acc, db.demands.entries.foldlM considerDemand
    (db, db.minEpoch.getD maxAvailable) = .ok acc ∧ acc.2 = firstWanted db maxAvailable ∧
      acc.1.duties = db.duties ∧ acc.1.settings = db.settings ∧
      acc.1.demands.entries = db.demands.entries.filter fun e => ¬Available db e.2 := by
  have hentries : ∀ e ∈ db.demands.entries, e.2.fromEpoch ≤ e.2.toEpoch := fun e he =>
    hvalid e.2 (List.mem_map_of_mem he)
  obtain ⟨acc, hloop, hstart, hduties, hsettings, hkept⟩ :=
    @foldlM_considerDemand_from db [] db.demands.entries hentries (db, db.minEpoch.getD maxAvailable) rfl rfl
  exact ⟨acc, hloop, hstart, hduties, hsettings, hkept⟩

open Classical in
theorem mem_values_of_kept (h : db'.demands.entries = db.demands.entries.filter fun e => ¬Available db e.2)
    (d : EpochsDemand) : d ∈ db'.demands.values ↔ d ∈ db.demands.values ∧ ¬Available db d := by
  unfold Dict.values
  rw [h, List.mem_map, List.mem_map]
  constructor
  · intro hkept
    obtain ⟨e, he, rfl⟩ := hkept
    rw [List.mem_filter, decide_eq_true_eq] at he
    exact ⟨⟨e, he.1, rfl⟩, he.2⟩
  · intro hkept
    obtain ⟨⟨e, he, rfl⟩, hd⟩ := hkept
    exact ⟨e, List.mem_filter.mpr ⟨he, decide_eq_true hd⟩, rfl⟩

theorem missingEpochsIn_eq {fromEpoch toEpoch : ℕ} (hle : fromEpoch ≤ toEpoch) :
    db.missingEpochsIn fromEpoch toEpoch = .ok ((List.range' fromEpoch (toEpoch + 1 - fromEpoch)).filter
      fun epoch => decide (epoch ∉ db.duties)) := by
  unfold DutiesDB.missingEpochsIn
  rw [if_neg (not_lt.mpr hle), sequence_of_le hle]
  refine congrArg Except.ok (List.filter_congr fun (e : ℕ) he => decide_eq_decide.mpr (not_congr ?_))
  have hrange := List.mem_range'_1.mp he
  have hto : e ≤ toEpoch := by omega
  rw [List.mem_toFinset, List.mem_filter, decide_eq_true_eq]
  exact and_iff_left ⟨hrange.1, hto⟩

/-- Epochs of the range up to the last available one that are wanted but not stored -/
noncomputable def missing (db : DutiesDB) (maxAvailable : EpochNumber) : List EpochNumber :=
  (List.range' (firstWanted db maxAvailable) (maxAvailable + 1 - firstWanted db maxAvailable)).filter
    fun epoch => epoch ∉ db.duties

theorem mem_missing {e : ℕ} : e ∈ missing db maxAvailable ↔
    firstWanted db maxAvailable ≤ e ∧ e ≤ maxAvailable ∧ e ∉ db.duties := by
  unfold missing
  rw [List.mem_filter, List.mem_range'_1, decide_eq_true_eq]
  constructor
  · intro h
    exact ⟨h.1.1, by have := h.1.2; omega, h.2⟩
  · intro h
    exact ⟨⟨h.1, by have := h.2.1; have := h.1; omega⟩, h.2.2⟩

theorem minEpoch_spec : (db.minEpoch = none ∧ (0 ∈ db.duties ∨ ∀ e, e ∉ db.duties)) ∨
    ∃ oldest, db.minEpoch = some oldest ∧ oldest ≠ 0 ∧ oldest ∈ db.duties ∧ ∀ e ∈ db.duties, oldest ≤ e := by
  unfold DutiesDB.minEpoch
  cases hmin : db.duties.keys.min? with
  | none =>
    refine Or.inl ⟨rfl, Or.inr fun e he => ?_⟩
    rw [List.min?_eq_none_iff] at hmin
    exact absurd (Dict.mem_keys.mpr he) (hmin ▸ List.not_mem_nil)
  | some oldest =>
    obtain ⟨hmem, hle⟩ := List.min?_eq_some_iff.mp hmin
    by_cases hzero : oldest = 0
    · subst hzero
      exact Or.inl ⟨rfl, Or.inl hmem⟩
    · exact Or.inr ⟨oldest, if_pos hzero, hzero, hmem, fun e he => hle e he⟩

theorem maxEpoch_spec : (db.maxEpoch = none ∧ ∀ e ∈ db.duties, e = 0) ∨
    ∃ newest, db.maxEpoch = some newest ∧ newest ≠ 0 ∧ newest ∈ db.duties ∧ ∀ e ∈ db.duties, e ≤ newest := by
  unfold DutiesDB.maxEpoch
  cases hmax : db.duties.keys.max? with
  | none =>
    refine Or.inl ⟨rfl, fun e he => ?_⟩
    rw [List.max?_eq_none_iff] at hmax
    exact absurd (Dict.mem_keys.mpr he) (hmax ▸ List.not_mem_nil)
  | some newest =>
    obtain ⟨hmem, hle⟩ := List.max?_eq_some_iff.mp hmax
    by_cases hzero : newest = 0
    · subst hzero
      exact Or.inl ⟨rfl, fun e he => Nat.le_zero.mp (hle e he)⟩
    · exact Or.inr ⟨newest, if_pos hzero, hzero, hmem, fun e he => hle e he⟩

open Classical in
/-- What a call computes once the rows are not ahead of finality -/
theorem defineEpochsToProcessRange_eq (hvalid : ValidDemands db) (hstored : ∀ e ∈ db.duties, e ≤ maxAvailable) :
    ∃ db', db'.duties = db.duties ∧ db'.settings = db.settings ∧
      db'.demands.entries = (db.demands.entries.filter fun e => ¬Available db e.2) ∧
      defineEpochsToProcessRange db (maxAvailable + 2) =
        (match (missing db maxAvailable).min?, db.maxEpoch with
        | some first, _ => .ok (db', some (first, maxAvailable))
        | none, some _ => .ok (db', none)
        | none, none => .error (.raised .emptyWithoutMissing)) := by
  obtain ⟨acc, hloop, hstart, hduties, hsettings, hdemands⟩ := @foldlM_considerDemand db maxAvailable hvalid
  refine ⟨acc.1, hduties, hsettings, hdemands, ?_⟩
  have hwanted : firstWanted db maxAvailable ≤ maxAvailable := by
    refine firstWanted_le_iff.mpr (Or.inl ?_)
    rcases @minEpoch_spec db with ⟨hmin, -⟩ | ⟨oldest, hmin, -, hmem, -⟩
    · rw [hmin]
      exact le_refl maxAvailable
    · rw [hmin]
      exact hstored oldest hmem
  have hmissing : acc.1.missingEpochsIn acc.2 maxAvailable = .ok (missing db maxAvailable) := by
    rw [hstart, missingEpochsIn_eq hwanted, missing, hduties]
  have hahead : ¬(db.maxEpoch.any (maxAvailable < ·)) = true := by
    rcases @maxEpoch_spec db with ⟨hmax, -⟩ | ⟨newest, hmax, -, hmem, -⟩
    · simp [hmax]
    · rw [hmax]
      simpa using hstored newest hmem
  unfold defineEpochsToProcessRange
  simp only [Collector.CHECKPOINT_SLOT_DELAY_EPOCHS, Nat.add_sub_cancel]
  rw [if_neg (not_lt.mpr (Nat.le_add_left 2 maxAvailable)), if_neg hahead, hloop, Except.ok_bind]
  unfold rangeFrom
  rw [hmissing, Py.lift, Except.ok_bind]
  cases hfirst : (missing db maxAvailable).min? with
  | some first =>
    have hle := (mem_missing.mp (List.min?_eq_some_iff.mp hfirst).1).2.1
    exact congrArg (fun range => Except.ok (acc.1, range)) (if_neg (not_lt.mpr hle))
  | none =>
    rcases @maxEpoch_spec db with ⟨hmax, -⟩ | ⟨newest, hmax, -, -, hnewest⟩
    · rw [hmax]
      rfl
    · rw [hmax]
      have hlast : maxAvailable ∈ db.duties := by
        by_contra hnot
        rw [List.min?_eq_none_iff] at hfirst
        exact absurd (hfirst ▸ mem_missing.mpr ⟨hwanted, le_refl _, hnot⟩) List.not_mem_nil
      exact congrArg (fun range => Except.ok (acc.1, range)) (if_pos (Nat.lt_succ_of_le (hnewest _ hlast)))

/-- No range is left exactly when every wanted epoch is stored, and an epoch other than 0 is. -/
theorem defineEpochsToProcessRange_none (hvalid : ValidDemands db) (hstored : ∀ e ∈ db.duties, e ≤ maxAvailable) :
    (∃ db', defineEpochsToProcessRange db (maxAvailable + 2) = .ok (db', none)) ↔
      (∃ e ∈ db.duties, e ≠ 0) ∧ ∀ e : ℕ, firstWanted db maxAvailable ≤ e → e ≤ maxAvailable → e ∈ db.duties := by
  obtain ⟨db', -, -, -, heq⟩ := defineEpochsToProcessRange_eq hvalid hstored
  have hnonzero : db.maxEpoch ≠ none ↔ ∃ e ∈ db.duties, e ≠ 0 := by
    rcases @maxEpoch_spec db with ⟨hmax, hzero⟩ | ⟨newest, hmax, hne, hmem, -⟩
    · refine iff_of_false (not_not.mpr hmax) fun h => ?_
      obtain ⟨e, he, hne⟩ := h
      exact hne (hzero e he)
    · rw [hmax]
      exact iff_of_true (Option.some_ne_none _) ⟨newest, hmem, hne⟩
  have hmissing : missing db maxAvailable = [] ↔
      ∀ e : ℕ, firstWanted db maxAvailable ≤ e → e ≤ maxAvailable → e ∈ db.duties := by
    rw [List.eq_nil_iff_forall_not_mem]
    refine forall_congr' fun e => ?_
    rw [mem_missing]
    tauto
  rw [heq, ← hnonzero, ← hmissing, ← List.min?_eq_none_iff]
  cases hfirst : (missing db maxAvailable).min? with
  | some first => simp
  | none =>
    cases hmax : db.maxEpoch with
    | none => simp
    | some newest => simp

/-- A range that is returned starts at the oldest missing epoch and ends at the last available one. -/
theorem defineEpochsToProcessRange_some (hvalid : ValidDemands db) {finalizedEpoch startEpoch endEpoch : ℕ}
    (h : defineEpochsToProcessRange db finalizedEpoch = .ok (db', some (startEpoch, endEpoch))) :
    finalizedEpoch = endEpoch + 2 ∧ (∀ e ∈ db.duties, e ≤ endEpoch) ∧ startEpoch ∈ missing db endEpoch ∧
      (∀ e ∈ missing db endEpoch, startEpoch ≤ e) ∧ db'.duties = db.duties ∧ db'.settings = db.settings ∧
      ∀ d, d ∈ db'.demands.values ↔ d ∈ db.demands.values ∧ ¬Available db d := by
  have hlate : ¬finalizedEpoch < 2 := by
    intro hearly
    rw [defineEpochsToProcessRange, if_pos (show finalizedEpoch < Collector.CHECKPOINT_SLOT_DELAY_EPOCHS from hearly)] at h
    cases h
  obtain ⟨maxAvailable, rfl⟩ : ∃ maxAvailable, finalizedEpoch = maxAvailable + 2 := ⟨finalizedEpoch - 2, by omega⟩
  have hstored : ∀ e ∈ db.duties, e ≤ maxAvailable := by
    have hahead : ¬(db.maxEpoch.any (maxAvailable < ·)) = true := by
      intro hahead
      unfold defineEpochsToProcessRange at h
      simp only [Collector.CHECKPOINT_SLOT_DELAY_EPOCHS, Nat.add_sub_cancel] at h
      rw [if_neg hlate, if_pos hahead] at h
      cases h
    rcases @maxEpoch_spec db with ⟨-, hzero⟩ | ⟨newest, hmax, -, -, hle⟩
    · intro e he
      rw [hzero e he]
      exact Nat.zero_le _
    · rw [hmax] at hahead
      intro e he
      exact (hle e he).trans (by simpa using hahead)
  obtain ⟨db'', hduties, hsettings, hdemands, heq⟩ := defineEpochsToProcessRange_eq hvalid hstored
  rw [heq] at h
  cases hfirst : (missing db maxAvailable).min? with
  | some first =>
    rw [hfirst] at h
    obtain ⟨rfl, hrange⟩ := Prod.mk.inj (Except.ok.inj h)
    obtain ⟨rfl, rfl⟩ := Prod.mk.inj (Option.some.inj hrange)
    obtain ⟨hmem, hle⟩ := List.min?_eq_some_iff.mp hfirst
    exact ⟨rfl, hstored, hmem, hle, hduties, hsettings, mem_values_of_kept hdemands⟩
  | none =>
    rw [hfirst] at h
    cases hmax : db.maxEpoch with
    | none =>
      rw [hmax] at h
      cases h
    | some newest =>
      rw [hmax] at h
      cases h

end Range

/-! What a pass leaves -/

section Pass

variable {db db' : DutiesDB} {retention : ℤ} {bound : ℕ} {dutyEpochs : List EpochNumber}
  {checkpoints : List (List EpochNumber)}

theorem step_demands {s s' : Collector} (h : Collector.Step s s') : s'.db.demands = s.db.demands := by
  cases h with
  | @commit db db' before after call call' hcommit =>
    unfold StoreCall.next at hcommit
    cases hstage : call.stage with
    | stored =>
      rw [hstage] at hcommit
      obtain ⟨minEpoch, -, hcommit⟩ := Except.bind_eq_ok.mp hcommit
      obtain ⟨rfl, -⟩ := Prod.mk.inj (Except.ok.inj hcommit)
      rfl
    | _ =>
      rw [hstage] at hcommit
      obtain ⟨rfl, -⟩ := Prod.mk.inj (Except.ok.inj hcommit)
      rfl

theorem run_demands {s s' : Collector} (h : Collector.Run s s') : s'.db.demands = s.db.demands := by
  induction h with
  | refl => rfl
  | tail _ hstep ih => exact (step_demands hstep).trans ih

/-- Rows up to a bound, and the demands as they were -/
structure Holds (db : DutiesDB) (retention : ℤ) (bound : ℕ) (db' : DutiesDB) : Prop where
  retains : DutiesDB.Retains db' retention
  stored : ∀ e ∈ db'.duties, e ≤ bound
  demands : db'.demands = db.demands

theorem lastStored_ne_none {calls : List (EpochNumber × DutyData)} {e : ℕ} :
    lastStored db calls e ≠ none ↔ e ∈ db.duties ∨ e ∈ calls.map Prod.fst := by
  unfold lastStored
  cases hfind : calls.find? fun call => call.1 = e with
  | some call =>
    have hepoch : call.1 = e := by simpa using List.find?_some hfind
    exact iff_of_true (Option.some_ne_none _)
      (Or.inr (hepoch ▸ List.mem_map_of_mem (List.mem_of_find?_eq_some hfind)))
  | none =>
    have hnot : e ∉ calls.map Prod.fst := by
      intro hmem
      obtain ⟨call, hcall, hepoch⟩ := List.mem_map.mp hmem
      exact List.find?_eq_none.mp hfind call hcall (decide_eq_true hepoch)
    dsimp only
    rw [or_iff_left hnot, Ne, Dict.get?_eq_none_iff, not_not]

/-- What is left when all calls have finished -/
theorem mem_of_finished {calls : List (EpochNumber × DutyData)} (hretains : DutiesDB.Retains db retention)
    (hne : calls ≠ []) (hdistinct : (calls.map Prod.fst).Nodup) {s : Collector}
    (hrun : Collector.Run ⟨db, begin calls⟩ s) (hfinished : ∀ call ∈ s.calls, call.stage = .finished) :
    DutiesDB.Retains s.db retention ∧ ∀ e : ℕ, e ∈ s.db.duties ↔
      firstKept db calls retention ≤ e ∧ (e ∈ db.duties ∨ e ∈ calls.map Prod.fst) := by
  have hconverging := (converging_begin hretains hne).run hdistinct hne hrun
  refine ⟨hconverging.retains, fun e => ?_⟩
  by_cases hkeep : firstKept db calls retention ≤ e
  · rw [and_iff_right hkeep, ← lastStored_ne_none, ← rowOf_eq_lastStored hconverging hfinished,
      ← hconverging.kept e hkeep, Ne, Dict.get?_eq_none_iff, not_not]
  · refine iff_of_false (fun hmem => ?_) fun h => hkeep h.1
    obtain ⟨call, hcall, hwill⟩ := hconverging.expired e hmem (not_le.mp hkeep)
    rw [hfinished call hcall] at hwill
    exact hwill

/-- One checkpoint: below the bound that its newest epoch sets nothing stays if anything was stored; above
the bound of the whole pass nothing goes. -/
theorem CheckpointRun.holds (hretains : DutiesDB.Retains db retention) (hstored : ∀ e ∈ db.duties, e ≤ bound)
    (hnodup : dutyEpochs.Nodup) (hepochs : ∀ e ∈ dutyEpochs, e ≤ bound) (h : CheckpointRun db dutyEpochs db') :
    Holds db retention bound db' ∧
    (∀ e : ℕ, (bound : ℤ) - retention + 1 ≤ e → (e ∈ db'.duties ↔ e ∈ db.duties ∨ e ∈ dutyEpochs)) ∧
    (∀ e ∈ db'.duties, e ∈ db.duties ∨ e ∈ dutyEpochs) ∧
    ((∃ e ∈ dutyEpochs, e ∉ db.duties) → bound ∈ db.duties ∨ bound ∈ dutyEpochs →
      ∀ e ∈ db'.duties, (bound : ℤ) - retention + 1 ≤ e) ∧
    ((∀ e ∈ dutyEpochs, e ∈ db.duties) → db' = db) := by
  cases h with
  | nothing h =>
    have hall : ∀ e ∈ dutyEpochs, e ∈ db.duties := by
      intro e he
      by_contra hnot
      have hmem : e ∈ unprocessedEpochs db dutyEpochs := List.mem_filter.mpr ⟨he, decide_eq_true hnot⟩
      exact List.not_mem_nil (h ▸ hmem)
    refine ⟨⟨hretains, hstored, rfl⟩, fun e _ => ?_, fun e he => Or.inl he, fun hmissing => ?_, fun _ => rfl⟩
    · exact ⟨Or.inl, fun he => he.elim id (hall e)⟩
    · obtain ⟨e, he, hnot⟩ := hmissing
      exact absurd (hall e he) hnot
  | @processed duties s hne hrun hfinished =>
    set calls := (unprocessedEpochs db dutyEpochs).map fun e => (e, duties e)
    have hepochsOf : calls.map Prod.fst = unprocessedEpochs db dutyEpochs := by
      rw [List.map_map]
      exact List.map_id _
    have hunprocessed : ∀ e : ℕ, e ∈ calls.map Prod.fst ↔ e ∈ dutyEpochs ∧ e ∉ db.duties := by
      intro e
      rw [hepochsOf, unprocessedEpochs, List.mem_filter, decide_eq_true_eq]
    have hboth : ∀ e : ℕ, e ∈ db.duties ∨ e ∈ calls.map Prod.fst ↔ e ∈ db.duties ∨ e ∈ dutyEpochs := by
      intro e
      rw [hunprocessed]
      tauto
    have hcalls : calls ≠ [] := fun hnil => hne (by rw [← hepochsOf, hnil]; rfl)
    have hdistinct : (calls.map Prod.fst).Nodup := hepochsOf ▸ hnodup.filter _
    obtain ⟨hretains', hmem⟩ := mem_of_finished hretains hcalls hdistinct hrun hfinished
    simp only [hboth] at hmem
    have hle : ∀ e : ℕ, e ∈ db.duties ∨ e ∈ dutyEpochs → e ≤ bound := fun e he => he.elim (hstored e) (hepochs e)
    have hnewest : ((newestEpoch db calls : ℕ) : ℤ) ≤ bound :=
      Int.ofNat_le.mpr (hle _ ((hboth _).mp (newestEpoch_mem hcalls)))
    refine ⟨⟨hretains', fun e he => hle e ((hmem e).mp he).2, run_demands hrun⟩, fun e he => ?_,
      fun e he => ((hmem e).mp he).2, fun _ hbound e he => ?_, fun hall => ?_⟩
    · have hkeep : firstKept db calls retention ≤ e := by
        unfold firstKept
        omega
      rw [hmem, and_iff_right hkeep]
    · have hge : (bound : ℤ) ≤ (newestEpoch db calls : ℕ) :=
        Int.ofNat_le.mpr (le_newestEpoch ((hboth bound).mpr hbound))
      have hkeep := ((hmem e).mp he).1
      unfold firstKept at hkeep
      omega
    · obtain ⟨e, he⟩ := List.exists_mem_of_ne_nil _ hne
      obtain ⟨hmemEpochs, hnot⟩ := List.mem_filter.mp he
      exact absurd (hall e hmemEpochs) (of_decide_eq_true hnot)

/-- Rows below the bound of the pass do not come back once the newest epoch of the pass is stored. -/
theorem CheckpointsRun.pruned (hretains : DutiesDB.Retains db retention) (hstored : ∀ e ∈ db.duties, e ≤ bound)
    (hnodup : checkpoints.flatten.Nodup) (hepochs : ∀ e ∈ checkpoints.flatten, e ≤ bound)
    (h : CheckpointsRun db checkpoints db') (hbound : bound ∈ db.duties)
    (hpruned : ∀ e ∈ db.duties, (bound : ℤ) - retention + 1 ≤ e) :
    ∀ e ∈ db'.duties, (bound : ℤ) - retention + 1 ≤ e := by
  induction h with
  | nil => exact hpruned
  | @cons db db' db'' dutyEpochs rest hcheckpoint _ ih =>
    rw [List.flatten_cons] at hnodup hepochs
    rw [List.forall_mem_append] at hepochs
    obtain ⟨hholds, habove, -, hbelow, hsame⟩ :=
      hcheckpoint.holds hretains hstored (List.nodup_append.mp hnodup).1 hepochs.1
    have hkept : (bound : ℤ) - retention + 1 ≤ bound := by
      have := hretains.2
      omega
    refine ih hholds.retains hholds.stored (List.nodup_append.mp hnodup).2.1 hepochs.2
      ((habove bound hkept).mpr (Or.inl hbound)) ?_
    by_cases hnew : ∃ e ∈ dutyEpochs, e ∉ db.duties
    · exact hbelow hnew (Or.inl hbound)
    · push Not at hnew
      rw [hsame hnew]
      exact hpruned

/-- All checkpoints: the rows of the pass and the old ones, from the final bound on -/
theorem CheckpointsRun.rows (hretains : DutiesDB.Retains db retention) (hstored : ∀ e ∈ db.duties, e ≤ bound)
    (hnodup : checkpoints.flatten.Nodup) (hepochs : ∀ e ∈ checkpoints.flatten, e ≤ bound)
    (h : CheckpointsRun db checkpoints db') :
    Holds db retention bound db' ∧
    (∀ e : ℕ, (bound : ℤ) - retention + 1 ≤ e → (e ∈ db'.duties ↔ e ∈ db.duties ∨ e ∈ checkpoints.flatten)) ∧
    ((∃ e ∈ checkpoints.flatten, e ∉ db.duties) → bound ∈ db.duties ∨ bound ∈ checkpoints.flatten →
      ∀ e ∈ db'.duties, (bound : ℤ) - retention + 1 ≤ e) := by
  induction h with
  | nil =>
    refine ⟨⟨hretains, hstored, rfl⟩, fun e _ => by simp, fun hmissing => ?_⟩
    obtain ⟨e, he, -⟩ := hmissing
    exact absurd he List.not_mem_nil
  | @cons db db' db'' dutyEpochs rest hcheckpoint hrest ih =>
    rw [List.flatten_cons] at hnodup hepochs ⊢
    rw [List.forall_mem_append] at hepochs
    obtain ⟨hnodupFirst, hnodupRest, hdisjoint⟩ := List.nodup_append.mp hnodup
    obtain ⟨hholds, habove, hsub, hbelow, hsame⟩ := hcheckpoint.holds hretains hstored hnodupFirst hepochs.1
    obtain ⟨hholds', habove', hbelow'⟩ := ih hholds.retains hholds.stored hnodupRest hepochs.2
    refine ⟨⟨hholds'.retains, hholds'.stored, hholds'.demands.trans hholds.demands⟩, fun e he => ?_,
      fun hmissing hbound => ?_⟩
    · rw [habove' e he, habove e he, List.mem_append, or_assoc]
    · have hkept : (bound : ℤ) - retention + 1 ≤ bound := by
        have := hretains.2
        omega
      by_cases hfirst : (∃ e ∈ dutyEpochs, e ∉ db.duties) ∧ (bound ∈ db.duties ∨ bound ∈ dutyEpochs)
      · exact hrest.pruned hholds.retains hholds.stored hnodupRest hepochs.2
          ((habove bound hkept).mpr hfirst.2) (hbelow hfirst.1 hfirst.2)
      · -- the newest epoch is still to come, or this checkpoint had nothing to fetch
        by_cases hnew : ∃ e ∈ dutyEpochs, e ∉ db.duties
        · have hnot : ¬(bound ∈ db.duties ∨ bound ∈ dutyEpochs) := fun h => hfirst ⟨hnew, h⟩
          have hlater : bound ∈ rest.flatten := by
            rcases hbound with hbound | hbound
            · exact absurd (Or.inl hbound) hnot
            · exact (List.mem_append.mp hbound).resolve_left fun h => hnot (Or.inr h)
          refine hbelow' ⟨bound, hlater, fun hmem => hnot ?_⟩ (Or.inr hlater)
          exact hsub bound hmem
        · push Not at hnew
          have heq := hsame hnew
          subst heq
          refine hbelow' ?_ ?_
          · obtain ⟨e, he, hnot⟩ := hmissing
            exact ⟨e, (List.mem_append.mp he).resolve_left fun h => hnot (hnew e h), hnot⟩
          · rcases hbound with hbound | hbound
            · exact Or.inl hbound
            · exact (List.mem_append.mp hbound).imp (hnew bound) id

theorem dutyEpochs_of_mapM {converter : LidoOracle.Collector.ChainConverter} {batches : List (List EpochNumber)}
    {points : List LidoOracle.Collector.FrameCheckpoint}
    (h : batches.mapM (LidoOracle.Collector.checkpointOf converter) = .ok points) :
    points.map (·.dutyEpochs) = batches := by
  have hmap := ExceptRun.mapM_ok_iff.mp h
  clear h
  induction hmap with
  | nil => rfl
  | cons hfirst _ ih =>
    obtain ⟨maxEpoch, -, hpoint⟩ := Except.bind_eq_ok.mp hfirst
    rw [Except.pure_eq_ok] at hpoint
    rw [List.map_cons, ih, ← hpoint]

/-- The epochs of the checkpoints are those of the range. -/
theorem checkpoints_epochs {converter : LidoOracle.Collector.ChainConverter} {startEpoch endEpoch : ℕ}
    {it : LidoOracle.Collector.FrameCheckpointsIterator}
    {points : List LidoOracle.Collector.FrameCheckpoint}
    (hinit : LidoOracle.Collector.FrameCheckpointsIterator.init converter startEpoch endEpoch (endEpoch + 2) = .ok it)
    (hpoints : it.checkpoints = .ok points) :
    startEpoch ≤ endEpoch ∧
      (points.map (·.dutyEpochs)).flatten = List.range' startEpoch (endEpoch + 1 - startEpoch) := by
  unfold LidoOracle.Collector.FrameCheckpointsIterator.init at hinit
  split_ifs at hinit with hlt
  dsimp only at hinit
  have hlast : min (endEpoch : ℤ) (((endEpoch + 2 : ℕ) : ℤ) - Collector.CHECKPOINT_SLOT_DELAY_EPOCHS) = endEpoch := by
    have hdelay : ((Collector.CHECKPOINT_SLOT_DELAY_EPOCHS : ℕ) : ℤ) = 2 := rfl
    omega
  rw [hlast] at hinit
  split_ifs at hinit
  cases hinit
  obtain ⟨epochs, hsequence, hpoints⟩ := Except.bind_eq_ok.mp hpoints
  obtain ⟨batches, hbatches, hpoints⟩ := Except.bind_eq_ok.mp hpoints
  unfold LidoOracle.Collector.sequence at hsequence
  split_ifs at hsequence
  cases hsequence
  obtain ⟨-, rfl⟩ := Itertools.batched_eq_ok.mp hbatches
  refine ⟨not_lt.mp hlt, ?_⟩
  rw [dutyEpochs_of_mapM hpoints, Itertools.batches_flatten (by decide), Int.toNat_natCast]

/-- After a pass: what was stored and what the range asked for, from the retained part on -/
theorem PassRun.rows {converter : LidoOracle.Collector.ChainConverter} {startEpoch endEpoch : ℕ}
    (hretains : DutiesDB.Retains db retention) (hstored : ∀ e ∈ db.duties, e ≤ endEpoch)
    (hstart : startEpoch ∉ db.duties) (h : PassRun db converter startEpoch endEpoch (endEpoch + 2) db') :
    Holds db retention endEpoch db' ∧ ∀ e : ℕ, e ∈ db'.duties ↔
      (endEpoch : ℤ) - retention + 1 ≤ e ∧ (e ∈ db.duties ∨ startEpoch ≤ e ∧ e ≤ endEpoch) := by
  obtain ⟨it, points, hinit, hpoints, hrun⟩ := h
  obtain ⟨hle, hflatten⟩ := checkpoints_epochs hinit hpoints
  have hmem : ∀ e : ℕ, e ∈ (points.map (·.dutyEpochs)).flatten ↔ startEpoch ≤ e ∧ e ≤ endEpoch := by
    intro e
    rw [hflatten, List.mem_range'_1]
    omega
  have hnodup : (points.map (·.dutyEpochs)).flatten.Nodup := hflatten ▸ List.nodup_range'
  obtain ⟨hholds, habove, hbelow⟩ := hrun.rows hretains hstored hnodup fun e he => ((hmem e).mp he).2
  have hpruned := hbelow ⟨startEpoch, (hmem startEpoch).mpr ⟨le_refl _, hle⟩, hstart⟩
    (Or.inr ((hmem endEpoch).mpr ⟨hle, le_refl _⟩))
  refine ⟨hholds, fun e => ?_⟩
  constructor
  · intro he
    have hkept := hpruned e he
    exact ⟨hkept, ((habove e hkept).mp he).imp id (hmem e).mp⟩
  · intro h
    exact (habove e h.1).mpr (h.2.imp id (hmem e).mpr)

end Pass

/-! Whether a second call has anything left -/

/-- What the state before a pass has to be for the pass to be the last one: the last available epoch is not
epoch 0, which reads as an empty table; no unsatisfied demand starts before the epochs that are retained then;
and where epoch 0 is stored and goes, which hides the oldest row, there is no gap above the first retained row. -/
structure Settles (db : DutiesDB) (retention : ℤ) (maxAvailable : EpochNumber) : Prop where
  pos : 0 < maxAvailable
  demands : ∀ d ∈ db.demands.values, ¬Available db d → (maxAvailable : ℤ) - retention + 1 ≤ d.fromEpoch
  oldest : 0 ∈ db.duties → 0 < (maxAvailable : ℤ) - retention + 1 → ∀ e ∈ db.duties,
    (maxAvailable : ℤ) - retention + 1 ≤ e → ∀ e', e < e' → e' < maxAvailable →
      (∀ d ∈ db.demands.values, ¬Available db d → e' < d.fromEpoch) → e' ∈ db.duties

section Second

variable {db first after : DutiesDB} {retention : ℤ} {startEpoch endEpoch : ℕ}

/-- The second call has nothing left exactly when the state settled. -/
theorem secondRange_none_iff (hretains : DutiesDB.Retains db retention) (hvalid : ValidDemands db)
    {converter : LidoOracle.Collector.ChainConverter} {finalizedEpoch : ℕ}
    (hfirst : defineEpochsToProcessRange db finalizedEpoch = .ok (first, some (startEpoch, endEpoch)))
    (hpass : PassRun first converter startEpoch endEpoch finalizedEpoch after) :
    (∃ last, defineEpochsToProcessRange after finalizedEpoch = .ok (last, none)) ↔ Settles db retention endEpoch := by
  obtain ⟨rfl, hstored, hmissing, hleast, hduties, hsettings, hdemands⟩ := defineEpochsToProcessRange_some hvalid hfirst
  obtain ⟨hwanted, hstartLe, hstart⟩ := mem_missing.mp hmissing
  have hretains' : DutiesDB.Retains first retention := ⟨hsettings ▸ hretains.1, hretains.2⟩
  obtain ⟨hholds, hrows⟩ := hpass.rows hretains' (hduties ▸ hstored) (hduties ▸ hstart)
  rw [hduties] at hrows
  have hvalid' : ValidDemands after := by
    intro d hd
    rw [hholds.demands] at hd
    exact hvalid d ((hdemands d).mp hd).1
  rw [defineEpochsToProcessRange_none hvalid' hholds.stored]
  have hpos := hretains.2
  -- between the wanted start and the end everything that is retained is there
  have hpresent : ∀ e : ℕ, firstWanted db endEpoch ≤ e → e ≤ endEpoch → (endEpoch : ℤ) - retention + 1 ≤ e →
      e ∈ after.duties := by
    intro e hfrom hto hkept
    refine (hrows e).mpr ⟨hkept, ?_⟩
    by_contra hnot
    push Not at hnot
    have hle := hleast e (mem_missing.mpr ⟨hfrom, hto, hnot.1⟩)
    have hlt := hnot.2 hle
    omega
  constructor
  · intro h
    obtain ⟨⟨e, he, hne⟩, hnone⟩ := h
    have hpositive : 0 < endEpoch := Nat.lt_of_lt_of_le (Nat.pos_of_ne_zero hne) (hholds.stored e he)
    refine ⟨hpositive, fun d hd hunsatisfied => ?_, fun hzero hpruned e he hkept (e' : ℕ) hlt hlast hdemand => ?_⟩
    · by_contra hold
      push Not at hold
      have hgone : d.fromEpoch ∉ after.duties := fun hmem => not_le.mpr hold ((hrows _).mp hmem).1
      have hunsatisfied' : ¬Available after d := fun h => hgone (h _ (le_refl _) (hvalid d hd))
      have hd' : d ∈ after.demands.values := hholds.demands ▸ (hdemands d).mpr ⟨hd, hunsatisfied⟩
      have hfrom : ((d.fromEpoch : ℕ) : ℤ) ≤ endEpoch := by omega
      exact hgone (hnone _ (firstWanted_le_iff.mpr (Or.inr ⟨d, hd', hunsatisfied', le_refl _⟩)) (Int.ofNat_le.mp hfrom))
    · have hmem : e ∈ after.duties := (hrows e).mpr ⟨hkept, Or.inl he⟩
      have hmin : after.minEpoch.getD endEpoch ≤ e' := by
        rcases @minEpoch_spec after with ⟨-, hnozero | hempty⟩ | ⟨oldest, hmin, -, -, hle⟩
        · have hkeptZero := ((hrows 0).mp hnozero).1
          omega
        · exact absurd hmem (hempty e)
        · rw [hmin]
          exact (hle e hmem).trans hlt.le
      have hmem' := hnone e' (firstWanted_le_iff.mpr (Or.inl hmin)) hlast.le
      refine ((hrows e').mp hmem').2.resolve_right fun hrange => ?_
      rcases firstWanted_le_iff.mp (hwanted.trans hrange.1) with hstartLe | ⟨d, hd, hunsatisfied, hfrom⟩
      · rcases @minEpoch_spec db with ⟨hnone, -⟩ | ⟨oldest, -, hne, -, hle⟩
        · rw [hnone] at hstartLe
          exact absurd hstartLe (not_le.mpr hlast)
        · exact hne (Nat.le_zero.mp (hle 0 hzero))
      · exact absurd hfrom (not_le.mpr (hdemand d hd hunsatisfied))
  · intro h
    have hlast : endEpoch ∈ after.duties := (hrows endEpoch).mpr ⟨by omega, Or.inr ⟨hstartLe, le_refl _⟩⟩
    refine ⟨⟨endEpoch, hlast, h.pos.ne'⟩, fun e hfrom hto => ?_⟩
    rcases firstWanted_le_iff.mp hfrom with hmin | ⟨d, hd, -, hd'⟩
    · rcases @minEpoch_spec after with ⟨hnone, -⟩ | ⟨oldest, hsome, hne, hmem, hle⟩
      · rw [hnone] at hmin
        exact (Nat.le_antisymm hto hmin) ▸ hlast
      · rw [hsome] at hmin
        have hmin' : ((oldest : ℕ) : ℤ) ≤ e := Int.ofNat_le.mpr hmin
        obtain ⟨hkept, horigin⟩ := (hrows oldest).mp hmem
        have hkept' : (endEpoch : ℤ) - retention + 1 ≤ e := by omega
        by_cases hwantedLe : firstWanted db endEpoch ≤ e
        · exact hpresent e hwantedLe hto hkept'
        refine (hrows e).mpr ⟨hkept', ?_⟩
        rw [firstWanted_le_iff] at hwantedLe
        push Not at hwantedLe
        obtain ⟨holdestLt, hdemandsLt⟩ := hwantedLe
        rcases horigin with hold | hrange
        · rcases @minEpoch_spec db with ⟨hnone, hzero | hempty⟩ | ⟨m, hm, -, -, hmle⟩
          · by_cases hall : (endEpoch : ℤ) - retention + 1 ≤ 0
            · exact absurd (Nat.le_zero.mp (hle 0 ((hrows 0).mpr ⟨hall, Or.inl hzero⟩))) hne
            · rw [hnone] at holdestLt
              by_cases heq : oldest = e
              · exact Or.inl (heq ▸ hold)
              · exact Or.inl (h.oldest hzero (by omega) oldest hold hkept e (Nat.lt_of_le_of_ne hmin heq) holdestLt
                  hdemandsLt)
          · exact absurd hold (hempty oldest)
          · rw [hm] at holdestLt
            exact absurd (hmle oldest hold) (not_le.mpr (Nat.lt_of_le_of_lt hmin holdestLt))
        · exact Or.inr ⟨hrange.1.trans hmin, hto⟩
    · rw [hholds.demands] at hd
      obtain ⟨hdb, hunsatisfied⟩ := (hdemands d).mp hd
      have hfromLe : ((d.fromEpoch : ℕ) : ℤ) ≤ e := Int.ofNat_le.mpr hd'
      exact hpresent e (firstWanted_le_iff.mpr (Or.inr ⟨d, hdb, hunsatisfied, hd'⟩)) hto
        ((h.demands d hdb hunsatisfied).trans hfromLe)

/-- Three rows with gaps, of which the last three epochs are kept, a demand that waits for epochs, and one that is
satisfied -/
def gapsDB : DutiesDB :=
  ⟨Dict.ofList [(0, DutiesDB.dutyData [7] [] []), (2, DutiesDB.dutyData [] [] []), (4, DutiesDB.dutyData [8] [] [])],
    Dict.ofList [("csm", ⟨3, 5⟩), ("cm", ⟨2, 2⟩)], Dict.empty.set RETENTION_EPOCHS_KEY (.int 3)⟩

def gapsFirst : DutiesDB := { gapsDB with demands := Dict.ofList [("csm", ⟨3, 5⟩)] }

/-- The threads of epochs 3 and 5 take turns. -/
def gapsRun : Collector :=
  [1, 0, 1, 0, 0, 1].foldl Collector.commitAt ⟨gapsFirst, begin [(3, DutiesDB.dutyData [] [] []), (5, DutiesDB.dutyData [] [] [])]⟩

/-- The pass stores epochs 3 and 5 and prunes epochs 0 and 2. -/
theorem secondRange_none_iff_gaps : defineEpochsToProcessRange gapsDB 7 = .ok (gapsFirst, some (3, 5)) ∧
    PassRun gapsFirst ⟨32⟩ 3 5 7 gapsRun.db ∧ gapsRun.db.duties.keys = [4, 5, 3] ∧
    ∃ last, defineEpochsToProcessRange gapsRun.db 7 = .ok (last, none) := by
  have hfirst : defineEpochsToProcessRange gapsDB 7 = .ok (gapsFirst, some (3, 5)) := rfl
  have hpass : PassRun gapsFirst ⟨32⟩ 3 5 7 gapsRun.db := by
    refine ⟨⟨⟨32⟩, 3, 5, 5⟩, [⟨224, [3, 4, 5]⟩], rfl, rfl, .cons ?_ .nil⟩
    exact @CheckpointRun.processed _ _ (fun _ => DutiesDB.dutyData [] [] []) gapsRun (by decide)
      (Collector.run_commits _ _) (by decide +kernel)
  have hvalid : ValidDemands gapsDB := by
    unfold ValidDemands
    decide
  refine ⟨hfirst, hpass, by decide +kernel, (@secondRange_none_iff gapsDB _ _ 3 _ _ ⟨rfl, by decide⟩ hvalid _ _ hfirst
    hpass).mpr ⟨by decide, ?_, ?_⟩⟩
  · intro d hd hnot
    rcases List.mem_pair.mp hd with rfl | rfl
    · decide
    · refine absurd (fun e hfrom hto => ?_) hnot
      rw [Nat.le_antisymm hto hfrom]
      decide
  · intro _ _ (e : ℕ) he hkept (e' : ℕ) (hlt : e < e') (hlast : e' < 5) _
    have hrow : e = 0 ∨ e = 2 ∨ e = 4 := by simpa using (show e ∈ [0, 2, 4] from he)
    omega

/-- An empty table that keeps one epoch -/
def oneEpochDB : DutiesDB :=
  ⟨Dict.empty, Dict.empty, Dict.empty.set RETENTION_EPOCHS_KEY (.int 1)⟩

/-- A demand for epoch 0, accepted while nothing was stored -/
def oldDemandDB : DutiesDB := oneEpochDB.storeDemand "csm" ⟨0, 0⟩

def prunedDB : DutiesDB := { oldDemandDB with duties := Dict.ofList [(1, DutiesDB.dutyData [] [] [])] }

/-- With epoch 1 available the demand is behind the retained epochs: the pass fetches and prunes epoch 0, and
the next call asks for the same range again. -/
theorem secondRange_oldDemand : oneEpochDB.setEpochsDemand "csm" ⟨0, 0⟩ = .ok oldDemandDB ∧
    defineEpochsToProcessRange oldDemandDB 3 = .ok (oldDemandDB, some (0, 1)) ∧
    PassRun oldDemandDB ⟨32⟩ 0 1 3 prunedDB ∧
    defineEpochsToProcessRange prunedDB 3 = .ok (prunedDB, some (0, 1)) := by
  refine ⟨rfl, rfl, ⟨⟨⟨32⟩, 0, 1, 1⟩, [⟨96, [0, 1]⟩], rfl, rfl, .cons ?_ .nil⟩, rfl⟩
  have hrun : Collector.Run
      ⟨oldDemandDB, begin ((unprocessedEpochs oldDemandDB [0, 1]).map fun e => (e, DutiesDB.dutyData [] [] []))⟩
      ⟨prunedDB, [⟨0, DutiesDB.dutyData [] [] [], .finished⟩, ⟨1, DutiesDB.dutyData [] [] [], .finished⟩]⟩ := by
    refine .head (@Collector.Step.commit _ _ [] _ ⟨0, _, .waiting⟩ _ rfl) ?_
    refine .head (@Collector.Step.commit _ _ [] _ ⟨0, _, .stored⟩ ⟨0, _, .finished⟩ rfl) ?_
    refine .head (@Collector.Step.commit _ _ [_] _ ⟨1, _, .waiting⟩ _ rfl) ?_
    refine .head (@Collector.Step.commit _ _ [_] _ ⟨1, _, .stored⟩ ⟨1, _, .pruning 1⟩ rfl) ?_
    exact .single (@Collector.Step.commit _ _ [_] _ ⟨1, _, .pruning 1⟩ _ rfl)
  exact CheckpointRun.processed (by decide) hrun (by decide)

end Second

end Performance

end LidoOracle
