import LidoOracle.Lib.Python
import LidoOracle.Types

/-! The duties database of the performance collector and the demands of its
web server. One row an epoch; storing an epoch prunes the rows that lie a
retention interval behind the newest one. -/

namespace LidoOracle

namespace Performance

structure ProposalDuty where
  validatorIndex : ValidatorIndex
  isProposed : Bool
  deriving DecidableEq

structure SyncDuty where
  validatorIndex : ValidatorIndex
  missedCount : ℕ
  deriving DecidableEq

/-- The columns of a row besides its epoch -/
structure DutyData where
  missedAttestationVids : List ValidatorIndex
  proposalsVids : List ValidatorIndex
  proposalsFlags : List Bool
  syncsVids : List ValidatorIndex
  syncsMisses : List ℕ
  deriving DecidableEq

structure Duty extends DutyData where
  epoch : EpochNumber
  deriving DecidableEq

structure EpochsDemand where
  fromEpoch : EpochNumber
  toEpoch : EpochNumber
  deriving DecidableEq

inductive SettingValue where
  | int (value : ℤ)
  | other
  deriving DecidableEq

def RETENTION_EPOCHS_KEY : String := "retention_epochs"

inductive DbError where
  | settingNotFound
  | settingNotInt
  | settingNotPositive
  | invalidEpochRange
  | incompleteEpochRange (fromEpoch toEpoch : EpochNumber) (missing : List EpochNumber)
  | demandExceedsRetention
  | demandBelowRetained
  deriving DecidableEq, Repr

abbrev Db := Py DbError

structure DutiesDB where
  duties : Dict EpochNumber DutyData
  demands : Dict String EpochsDemand
  settings : Dict String SettingValue

namespace DutiesDB

def getRetentionEpochs (db : DutiesDB) : Db ℤ :=
  match db.settings.get? RETENTION_EPOCHS_KEY with
  | none => .error (.raised .settingNotFound)
  | some .other => .error (.raised .settingNotInt)
  | some (.int value) => if value ≤ 0 then .error (.raised .settingNotPositive) else .ok value

/-- The newest stored epoch; epoch 0 is falsy and reads as none. -/
def maxEpoch (db : DutiesDB) : Option EpochNumber :=
  match db.duties.keys.max? with
  | some result => if result ≠ 0 then some result else none
  | none => none

def dutyData (attMisses : List ValidatorIndex) (proposals : List ProposalDuty) (syncs : List SyncDuty) :
    DutyData where
  missedAttestationVids := attMisses
  proposalsVids := proposals.map (·.validatorIndex)
  proposalsFlags := proposals.map (·.isProposed)
  syncsVids := syncs.map (·.validatorIndex)
  syncsMisses := syncs.map (·.missedCount)

def storeData (db : DutiesDB) (epoch : EpochNumber) (data : DutyData) : DutiesDB :=
  { db with duties := db.duties.set epoch data }

/-- The first part of pruning: the bound, read off the newest stored epoch -/
def minEpochToKeep (db : DutiesDB) (currentEpoch : EpochNumber) : Db ℤ := do
  let retention ← db.getRetentionEpochs
  let anchorEpoch := (db.maxEpoch).getD currentEpoch
  return (anchorEpoch : ℤ) - retention + 1

/-- The second part: rows below the bound go. -/
def deleteBelow (db : DutiesDB) (minEpoch : ℤ) : DutiesDB :=
  { db with duties := db.duties.filterKeys fun epoch => decide (minEpoch ≤ (epoch : ℤ)) }

def prune (db : DutiesDB) (currentEpoch : EpochNumber) : Db DutiesDB := do
  let minEpoch ← db.minEpochToKeep currentEpoch
  return if minEpoch ≤ 0 then db else db.deleteBelow minEpoch

def storeEpoch (db : DutiesDB) (epoch : EpochNumber) (data : DutyData) : Db DutiesDB :=
  (db.storeData epoch data).prune epoch

def isRangeAvailable (db : DutiesDB) (fromEpoch toEpoch : EpochNumber) : Db Bool :=
  if fromEpoch > toEpoch then .error (.raised .invalidEpochRange)
  else .ok (decide ((db.duties.keys.filter fun e => fromEpoch ≤ e ∧ e ≤ toEpoch).length =
    toEpoch - fromEpoch + 1))

def storeDemand (db : DutiesDB) (consumer : String) (demand : EpochsDemand) : DutiesDB :=
  { db with demands := db.demands.set consumer demand }

/-- The web server's check of a demand against what pruning keeps -/
def setEpochsDemand (db : DutiesDB) (consumer : String) (demand : EpochsDemand) : Db DutiesDB := do
  let retention ← db.getRetentionEpochs
  let demandSpan : ℤ := (demand.toEpoch : ℤ) - demand.fromEpoch + 1
  if demandSpan > retention then throw (.raised .demandExceedsRetention)
  match db.maxEpoch with
  | some maxStoredEpoch =>
    let minEpoch : ℤ := (maxStoredEpoch : ℤ) - retention + 1
    if minEpoch > 0 ∧ (demand.fromEpoch : ℤ) < minEpoch then throw (.raised .demandBelowRetained)
    return db.storeDemand consumer demand
  | none => return db.storeDemand consumer demand

/-! What the operations keep and what they change -/

section Basics

variable {db db' : DutiesDB} {epoch : ℕ} {data : DutyData} {retention : ℤ}

/-- The retention setting is a positive number. -/
def Retains (db : DutiesDB) (retention : ℤ) : Prop :=
  db.settings.get? RETENTION_EPOCHS_KEY = some (.int retention) ∧ 1 ≤ retention

theorem Retains.getRetentionEpochs (h : Retains db retention) : db.getRetentionEpochs = .ok retention := by
  unfold DutiesDB.getRetentionEpochs
  rw [h.1]
  exact if_neg (by have := h.2; omega)

/-- Every stored epoch is at most the newest one; where that reads as none, only epoch 0 is stored. -/
theorem le_anchor {e : ℕ} (he : e ∈ db.duties) (current : ℕ) : e ≤ (db.maxEpoch).getD current := by
  unfold maxEpoch
  obtain ⟨newest, hnewest⟩ := Option.isSome_iff_exists.mp (List.isSome_max?_of_mem (Dict.mem_keys.mpr he))
  have hle : e ≤ newest := (List.max?_eq_some_iff.mp hnewest).2 e (Dict.mem_keys.mpr he)
  rw [hnewest]
  dsimp only
  by_cases hzero : newest = 0
  · rw [if_neg (not_not.mpr hzero), Option.getD_none]
    omega
  · rwa [if_pos hzero, Option.getD_some]

theorem anchor_le {bound current : ℕ} (hstored : ∀ e ∈ db.duties, e ≤ bound) (hcurrent : current ≤ bound) :
    (db.maxEpoch).getD current ≤ bound := by
  unfold maxEpoch
  cases hnewest : db.duties.keys.max? with
  | none => exact hcurrent
  | some newest =>
    dsimp only
    split_ifs
    · exact hstored newest (List.max?_eq_some_iff.mp hnewest).1
    · exact hcurrent

theorem get?_storeData (db : DutiesDB) (epoch : ℕ) (data : DutyData) (e : ℕ) :
    (db.storeData epoch data).duties.get? e = if e = epoch then some data else db.duties.get? e :=
  Dict.get?_set _ _ _ _

theorem get?_deleteBelow (db : DutiesDB) (minEpoch : ℤ) (e : ℕ) :
    (db.deleteBelow minEpoch).duties.get? e = if minEpoch ≤ (e : ℤ) then db.duties.get? e else none := by
  rw [deleteBelow, Dict.get?_filterKeys]
  simp only [decide_eq_true_eq]

theorem minEpochToKeep_eq (h : Retains db retention) (current : ℕ) :
    db.minEpochToKeep current = .ok ((db.maxEpoch).getD current - retention + 1) := by
  rw [minEpochToKeep, h.getRetentionEpochs]
  rfl

/-- Pruning keeps exactly the rows from the bound on. -/
theorem prune_ok (h : Retains db retention) (current : ℕ) :
    ∃ db', db.prune current = .ok db' ∧ Retains db' retention ∧
      ∀ e : ℕ, db'.duties.get? e =
        if ((db.maxEpoch).getD current : ℤ) - retention + 1 ≤ e then db.duties.get? e else none := by
  unfold prune
  rw [minEpochToKeep_eq h, Except.ok_bind]
  by_cases hall : ((db.maxEpoch).getD current : ℤ) - retention + 1 ≤ 0
  · refine ⟨db, congrArg Except.ok (if_pos hall), h, fun e => ?_⟩
    rw [if_pos (by omega)]
  · exact ⟨_, congrArg Except.ok (if_neg hall), h, get?_deleteBelow db _⟩

theorem mem_iff_of_get? {d d' : Dict EpochNumber DutyData} {e : ℕ} (h : d'.get? e = d.get? e) :
    e ∈ d' ↔ e ∈ d := by
  rw [Dict.mem_iff_exists_get?, Dict.mem_iff_exists_get?, h]

theorem isRangeAvailable_of_stored {fromEpoch toEpoch : ℕ} (hle : fromEpoch ≤ toEpoch)
    (hstored : ∀ e, fromEpoch ≤ e → e ≤ toEpoch → e ∈ db.duties) :
    db.isRangeAvailable fromEpoch toEpoch = .ok true := by
  have hperm : (db.duties.keys.filter fun e => fromEpoch ≤ e ∧ e ≤ toEpoch).Perm
      (List.range' fromEpoch (toEpoch - fromEpoch + 1)) := by
    refine (List.perm_ext_iff_of_nodup (db.duties.keys_nodup.filter _) List.nodup_range').mpr fun e => ?_
    rw [List.mem_filter, List.mem_range'_1, decide_eq_true_eq]
    constructor
    · rintro ⟨-, h⟩
      omega
    · intro h
      exact ⟨hstored e h.1 (by omega), by omega⟩
  have hlength := hperm.length_eq
  rw [List.length_range'] at hlength
  unfold isRangeAvailable
  rw [if_neg (not_lt.mpr hle)]
  exact congrArg Except.ok (decide_eq_true hlength)

end Basics

/-! A demand that was accepted -/

section Demand

variable {db : DutiesDB} {retention : ℤ} {consumer : String} {demand : EpochsDemand}

/-- What the web server has checked when it stores a demand -/
theorem setEpochsDemand_ok (h : Retains db retention) {accepted : DutiesDB}
    (haccepted : db.setEpochsDemand consumer demand = .ok accepted) :
    accepted = db.storeDemand consumer demand ∧
      (demand.toEpoch : ℤ) - retention + 1 ≤ demand.fromEpoch ∧
      ∀ newest, db.maxEpoch = some newest → (newest : ℤ) - retention + 1 ≤ demand.fromEpoch := by
  unfold setEpochsDemand at haccepted
  rw [h.getRetentionEpochs, Except.ok_bind] at haccepted
  dsimp only at haccepted
  obtain ⟨hspan, haccepted⟩ := Except.guard_eq_ok.mp haccepted
  have hspan' : (demand.toEpoch : ℤ) - retention + 1 ≤ demand.fromEpoch := by omega
  cases hmax : db.maxEpoch with
  | none =>
    rw [hmax] at haccepted
    refine ⟨(Except.ok.inj haccepted).symm, hspan', fun newest h => ?_⟩
    cases h
  | some maxStored =>
    rw [hmax] at haccepted
    obtain ⟨hold, haccepted⟩ := Except.guard_eq_ok.mp haccepted
    refine ⟨(Except.ok.inj haccepted).symm, hspan', fun newest h => ?_⟩
    cases h
    by_contra hlt
    exact hold ⟨by omega, by omega⟩

/-- The calls of `store_epoch`, one after the other -/
def storeEpochs (db : DutiesDB) (stores : List (EpochNumber × DutyData)) : Db DutiesDB :=
  stores.foldlM (fun db store => db.storeEpoch store.1 store.2) db

/-- Nothing at or above a fixed epoch is pruned while no newer epoch than `bound` is stored. -/
structure Below (db : DutiesDB) (retention : ℤ) (bound : ℕ) : Prop where
  retains : Retains db retention
  stored : ∀ e ∈ db.duties, e ≤ bound

theorem Below.storeEpoch {bound : ℕ} (h : Below db retention bound) {epoch : ℕ} (hepoch : epoch ≤ bound)
    (data : DutyData) :
    ∃ next, db.storeEpoch epoch data = .ok next ∧ Below next retention bound ∧
      ∀ e : ℕ, (bound : ℤ) - retention + 1 ≤ e →
        next.duties.get? e = (db.storeData epoch data).duties.get? e := by
  have hretains : Retains (db.storeData epoch data) retention := h.retains
  have hstored : ∀ e ∈ (db.storeData epoch data).duties, e ≤ bound := by
    intro e he
    rcases Dict.mem_set.mp he with rfl | he
    · exact hepoch
    · exact h.stored e he
  obtain ⟨next, hnext, hkept, hget⟩ := prune_ok hretains epoch
  have hanchor : (((db.storeData epoch data).maxEpoch.getD epoch : ℕ) : ℤ) ≤ bound :=
    Int.ofNat_le.mpr (anchor_le hstored hepoch)
  refine ⟨next, hnext, ⟨hkept, fun e he => ?_⟩, fun e he => ?_⟩
  · obtain ⟨v, hv⟩ := Dict.mem_iff_exists_get?.mp he
    rw [hget] at hv
    split_ifs at hv
    exact hstored e (Dict.mem_of_get? hv)
  · rw [hget, if_pos (by omega)]

theorem Below.storeEpochs {bound : ℕ} (h : Below db retention bound) {stores : List (EpochNumber × DutyData)}
    (hstores : ∀ s ∈ stores, s.1 ≤ bound) :
    ∃ now, db.storeEpochs stores = .ok now ∧ Below now retention bound ∧
      ∀ e : ℕ, (bound : ℤ) - retention + 1 ≤ e → (e ∈ db.duties ∨ ∃ s ∈ stores, s.1 = e) → e ∈ now.duties := by
  induction stores generalizing db with
  | nil =>
    refine ⟨db, rfl, h, fun e _ he => ?_⟩
    rcases he with he | ⟨s, hs, -⟩
    · exact he
    · exact absurd hs List.not_mem_nil
  | cons store stores ih =>
    rw [List.forall_mem_cons] at hstores
    obtain ⟨next, hstep, hnext, hget⟩ := h.storeEpoch hstores.1 store.2
    obtain ⟨now, hrun, hnow, hkept⟩ := ih hnext hstores.2
    refine ⟨now, ExceptRun.foldlM_cons_ok.mpr ⟨next, hstep, hrun⟩, hnow, fun e hbound he => hkept e hbound ?_⟩
    have hmem : e ∈ next.duties ↔ e = store.1 ∨ e ∈ db.duties := by
      rw [mem_iff_of_get? (hget e hbound)]
      exact Dict.mem_set
    rcases he with he | ⟨s, hs, rfl⟩
    · exact .inl (hmem.mpr (.inr he))
    · rcases List.mem_cons.mp hs with rfl | hs
      · exact .inl (hmem.mpr (.inl rfl))
      · exact .inr ⟨s, hs, rfl⟩

/-- An accepted demand: whatever is stored later, up to the end of the demand or the newest epoch of the
time, pruning takes no row of the demanded range, and once all of it has been stored it stays available. -/
theorem acceptedDemand_kept (h : Retains db retention) (hrange : demand.fromEpoch ≤ demand.toEpoch)
    {accepted : DutiesDB} (haccepted : db.setEpochsDemand consumer demand = .ok accepted)
    {stores : List (EpochNumber × DutyData)}
    (hstores : ∀ s ∈ stores, s.1 ≤ max demand.toEpoch (db.duties.keys.max?.getD 0)) :
    ∀ done rest, stores = done ++ rest → ∃ now, accepted.storeEpochs done = .ok now ∧
      (∀ s ∈ rest, ∃ next, now.storeEpoch s.1 s.2 = .ok next ∧
        ∀ e, demand.fromEpoch ≤ e → e ≤ demand.toEpoch →
          next.duties.get? e = (now.storeData s.1 s.2).duties.get? e) ∧
      ((∀ e, demand.fromEpoch ≤ e → e ≤ demand.toEpoch → e ∈ db.duties ∨ ∃ s ∈ done, s.1 = e) →
        now.isRangeAvailable demand.fromEpoch demand.toEpoch = .ok true) := by
  obtain ⟨rfl, hspan, hnewest⟩ := setEpochsDemand_ok h haccepted
  set newest : ℕ := db.duties.keys.max?.getD 0 with hdef
  set bound : ℕ := max demand.toEpoch newest with hbound
  have hstored : ∀ e ∈ db.duties, e ≤ newest := by
    intro e he
    obtain ⟨m, hm⟩ := Option.isSome_iff_exists.mp (List.isSome_max?_of_mem (Dict.mem_keys.mpr he))
    rw [hdef, hm]
    exact (List.max?_eq_some_iff.mp hm).2 e (Dict.mem_keys.mpr he)
  have hkept : (newest : ℤ) - retention + 1 ≤ demand.fromEpoch := by
    by_cases hzero : newest = 0
    · have hpos := h.2
      omega
    · refine hnewest newest ?_
      unfold maxEpoch
      cases hmax : db.duties.keys.max? with
      | none => exact absurd (by rw [hdef, hmax]; rfl) hzero
      | some m =>
        rw [hmax, Option.getD_some] at hdef
        rw [hdef] at hzero
        rw [hdef]
        exact if_pos hzero
  have hrangeKept : ∀ e : ℕ, demand.fromEpoch ≤ e → (bound : ℤ) - retention + 1 ≤ e := by
    intro e he
    have hfrom : ((demand.fromEpoch : ℕ) : ℤ) ≤ e := Int.ofNat_le.mpr he
    rcases le_total demand.toEpoch newest with hle | hle
    · rw [hbound, max_eq_right hle]
      omega
    · rw [hbound, max_eq_left hle]
      omega
  have hbelow : Below (db.storeDemand consumer demand) retention bound :=
    ⟨h, fun e he => (hstored e he).trans (le_max_right _ _)⟩
  intro done rest hsplit
  rw [hsplit, List.forall_mem_append] at hstores
  obtain ⟨now, hrun, hnow, hmem⟩ := hbelow.storeEpochs hstores.1
  refine ⟨now, hrun, fun s hs => ?_, fun hall => ?_⟩
  · obtain ⟨next, hstep, -, hget⟩ := hnow.storeEpoch (hstores.2 s hs) s.2
    exact ⟨next, hstep, fun e hfrom _ => hget e (hrangeKept e hfrom)⟩
  · exact isRangeAvailable_of_stored hrange fun e hfrom hto => hmem e (hrangeKept e hfrom) (hall e hfrom hto)

/-- An empty table that keeps two epochs -/
def emptyDB : DutiesDB :=
  ⟨Dict.empty, Dict.empty, Dict.empty.set RETENTION_EPOCHS_KEY (.int 2)⟩

theorem acceptedDemand_kept_emptyDB :
    ∃ now, (emptyDB.storeDemand "csm" ⟨3, 4⟩).storeEpochs [(4, dutyData [] [] [])] = .ok now ∧
      (∀ s ∈ [(3, dutyData [7] [] [])], ∃ next, now.storeEpoch s.1 s.2 = .ok next ∧
        ∀ e, 3 ≤ e → e ≤ 4 → next.duties.get? e = (now.storeData s.1 s.2).duties.get? e) ∧
      ((∀ e, 3 ≤ e → e ≤ 4 → e ∈ emptyDB.duties ∨ ∃ s ∈ [(4, dutyData [] [] [])], s.1 = e) →
        now.isRangeAvailable 3 4 = .ok true) :=
  @acceptedDemand_kept emptyDB 2 "csm" ⟨3, 4⟩ ⟨rfl, by decide⟩ (by decide) _ rfl
    [(4, dutyData [] [] []), (3, dutyData [7] [] [])] (by decide) _ _ rfl

end Demand

end DutiesDB

end Performance

end LidoOracle
