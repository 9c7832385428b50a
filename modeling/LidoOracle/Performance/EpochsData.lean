import LidoOracle.Lib.Itertools
import LidoOracle.Performance.DutiesDB

/-! Fetching the records of a range of epochs: the query on the server, which
answers a complete range or not at all, and the client, which asks batch by
batch while its caller consumes the records. -/

namespace LidoOracle

namespace Performance

/-- The inclusive range -/
def sequence {χ : Type} (start stop : ℕ) : Py χ (List ℕ) :=
  if start > stop then .error .valueError else .ok (List.range' start (stop + 1 - start))

namespace DutiesDB

/-- The rows that the range condition selects -/
def rowsIn (db : DutiesDB) (fromEpoch toEpoch : EpochNumber) : List Duty :=
  (db.duties.entries.filter fun e => fromEpoch ≤ e.1 ∧ e.1 ≤ toEpoch).map fun e => ⟨e.2, e.1⟩

end DutiesDB

/-- A server over the database. A query without an order gives its rows in any order, which need not be
the same twice. -/
structure EpochsServer (db : DutiesDB) where
  getEpochsData : EpochNumber → EpochNumber → List Duty
  perm : ∀ fromEpoch toEpoch, (getEpochsData fromEpoch toEpoch).Perm (db.rowsIn fromEpoch toEpoch)

variable {db : DutiesDB}

def EpochsServer.getCompleteEpochsData (server : EpochsServer db) (fromEpoch toEpoch : EpochNumber) :
    Db (List Duty) := do
  if fromEpoch > toEpoch then throw (.raised .invalidEpochRange)
  let duties := server.getEpochsData fromEpoch toEpoch
  let expectedCount := toEpoch - fromEpoch + 1
  if duties.length = expectedCount then return duties
  let presentEpochs := (duties.map (·.epoch)).toFinset
  let epochs ← sequence fromEpoch toEpoch
  let missingEpochs := epochs.filter fun epoch => epoch ∉ presentEpochs
  if missingEpochs ≠ [] then throw (.raised (.incompleteEpochRange fromEpoch toEpoch missingEpochs))
  return duties

/-- A response of the server that is not OK -/
inductive PerformanceClientError where
  | response (error : PyError DbError)
  deriving DecidableEq, Repr

structure PerformanceClient (db : DutiesDB) where
  server : EpochsServer db
  epochsBatchSize : ℕ

namespace PerformanceClient

variable {χ σ : Type}

def request (client : PerformanceClient db) (fromEpoch toEpoch : EpochNumber) : Py PerformanceClientError (List Duty) :=
  match client.server.getCompleteEpochsData fromEpoch toEpoch with
  | .ok data => .ok data
  | .error error => .error (.raised (.response error))

/-- The request for one batch, from its first epoch to its last -/
def requestBatch (client : PerformanceClient db) (epochsBatch : List EpochNumber) :
    Py PerformanceClientError (List Duty) := do
  let fromEpoch ← Py.listItem epochsBatch 0
  let toEpoch ← Py.listItem epochsBatch (epochsBatch.length - 1)
  client.request fromEpoch toEpoch

def consumeBatch (client : PerformanceClient db) (lift : PerformanceClientError → χ) (body : σ → Duty → Py χ σ)
    (acc : σ) (epochsBatch : List EpochNumber) : Py χ σ := do
  let data ← Py.lift lift (client.requestBatch epochsBatch)
  data.foldlM body acc

/-- `for duty in get_epochs_data(from_epoch, to_epoch): body`. A batch is only requested once the body has
run on all records before it. -/
def forEachEpochData (client : PerformanceClient db) (lift : PerformanceClientError → χ)
    (fromEpoch toEpoch : EpochNumber) (body : σ → Duty → Py χ σ) (start : σ) : Py χ σ := do
  let epochs ← sequence fromEpoch toEpoch
  let batches ← Itertools.batched epochs client.epochsBatchSize
  batches.foldlM (client.consumeBatch lift body) start

/-- The records themselves: a loop that only collects them -/
def getEpochsData (client : PerformanceClient db) (fromEpoch toEpoch : EpochNumber) :
    Py PerformanceClientError (List Duty) :=
  client.forEachEpochData id fromEpoch toEpoch (fun duties duty => .ok (duties ++ [duty])) []

end PerformanceClient

/-! What a request answers -/

section Request

variable {fromEpoch toEpoch : ℕ}

theorem sequence_of_le {χ : Type} (h : fromEpoch ≤ toEpoch) :
    (sequence fromEpoch toEpoch : Py χ _) = .ok (List.range' fromEpoch (toEpoch + 1 - fromEpoch)) :=
  if_neg (not_lt.mpr h)

theorem DutiesDB.mem_rowsIn {row : Duty} :
    row ∈ db.rowsIn fromEpoch toEpoch ↔
      db.duties.get? row.epoch = some row.toDutyData ∧ fromEpoch ≤ row.epoch ∧ row.epoch ≤ toEpoch := by
  unfold DutiesDB.rowsIn
  rw [List.mem_map, Dict.get?_eq_some_iff]
  constructor
  · intro h
    obtain ⟨e, he, rfl⟩ := h
    rw [List.mem_filter, decide_eq_true_eq] at he
    exact he
  · intro h
    exact ⟨(row.epoch, row.toDutyData), List.mem_filter.mpr ⟨h.1, decide_eq_true h.2⟩, rfl⟩

theorem DutiesDB.rowsIn_nodup : ((db.rowsIn fromEpoch toEpoch).map (·.epoch)).Nodup := by
  unfold DutiesDB.rowsIn
  rw [List.map_map]
  exact (List.filter_sublist.map Prod.fst).nodup db.duties.nodupKeys

namespace EpochsServer

variable (server : EpochsServer db)

theorem mem_getEpochsData {row : Duty} : row ∈ server.getEpochsData fromEpoch toEpoch ↔
    db.duties.get? row.epoch = some row.toDutyData ∧ fromEpoch ≤ row.epoch ∧ row.epoch ≤ toEpoch :=
  (server.perm fromEpoch toEpoch).mem_iff.trans DutiesDB.mem_rowsIn

theorem epochs_nodup : ((server.getEpochsData fromEpoch toEpoch).map (·.epoch)).Nodup :=
  ((server.perm fromEpoch toEpoch).map _).nodup_iff.mpr DutiesDB.rowsIn_nodup

theorem mem_epochs {epoch : ℕ} : epoch ∈ (server.getEpochsData fromEpoch toEpoch).map (·.epoch) ↔
    epoch ∈ db.duties ∧ fromEpoch ≤ epoch ∧ epoch ≤ toEpoch := by
  rw [List.mem_map]
  constructor
  · intro h
    obtain ⟨row, hrow, rfl⟩ := h
    rw [mem_getEpochsData] at hrow
    exact ⟨Dict.mem_of_get? hrow.1, hrow.2⟩
  · intro ⟨hepoch, hrange⟩
    obtain ⟨data, hdata⟩ := Dict.mem_iff_exists_get?.mp hepoch
    exact ⟨⟨data, epoch⟩, (server.mem_getEpochsData).mpr ⟨hdata, hrange⟩, rfl⟩

/-- As many rows as the range is long, exactly when no epoch of it is missing -/
theorem length_eq_iff (hle : fromEpoch ≤ toEpoch) :
    (server.getEpochsData fromEpoch toEpoch).length = toEpoch - fromEpoch + 1 ↔
      ((server.getEpochsData fromEpoch toEpoch).map (·.epoch)).Perm
        (List.range' fromEpoch (toEpoch + 1 - fromEpoch)) := by
  have hsub : (server.getEpochsData fromEpoch toEpoch).map (·.epoch) ⊆
      List.range' fromEpoch (toEpoch + 1 - fromEpoch) := by
    intro epoch hepoch
    have hrange := (server.mem_epochs.mp hepoch).2
    exact List.mem_range'_1.mpr (by omega)
  constructor
  · intro h
    refine (server.epochs_nodup.subperm hsub).perm_of_length_le ?_
    rw [List.length_range', List.length_map, h]
    omega
  · intro h
    have hlength := h.length_eq
    rw [List.length_map, List.length_range'] at hlength
    omega

theorem getCompleteEpochsData_complete (hle : fromEpoch ≤ toEpoch)
    (hcomplete : ∀ epoch : ℕ, fromEpoch ≤ epoch → epoch ≤ toEpoch → epoch ∈ db.duties) :
    server.getCompleteEpochsData fromEpoch toEpoch = .ok (server.getEpochsData fromEpoch toEpoch) ∧
      ((server.getEpochsData fromEpoch toEpoch).map (·.epoch)).Perm
        (List.range' fromEpoch (toEpoch + 1 - fromEpoch)) := by
  have hperm : ((server.getEpochsData fromEpoch toEpoch).map (·.epoch)).Perm
      (List.range' fromEpoch (toEpoch + 1 - fromEpoch)) := by
    refine (List.perm_ext_iff_of_nodup server.epochs_nodup List.nodup_range').mpr fun (epoch : ℕ) => ?_
    rw [server.mem_epochs, List.mem_range'_1]
    constructor
    · intro h
      omega
    · intro h
      exact ⟨hcomplete epoch (by omega) (by omega), by omega, by omega⟩
  refine ⟨?_, hperm⟩
  unfold getCompleteEpochsData
  rw [if_neg (not_lt.mpr hle), if_pos ((server.length_eq_iff hle).mpr hperm)]
  rfl

/-- A range with a gap is refused, and the gap is named. -/
theorem getCompleteEpochsData_gap (hle : fromEpoch ≤ toEpoch) {epoch : ℕ} (hfrom : fromEpoch ≤ epoch)
    (hto : epoch ≤ toEpoch) (hgap : epoch ∉ db.duties) :
    server.getCompleteEpochsData fromEpoch toEpoch = .error (.raised (.incompleteEpochRange fromEpoch toEpoch
      ((List.range' fromEpoch (toEpoch + 1 - fromEpoch)).filter fun epoch => decide (epoch ∉ db.duties)))) := by
  have hlength : ¬(server.getEpochsData fromEpoch toEpoch).length = toEpoch - fromEpoch + 1 := by
    intro h
    have hmem : epoch ∈ (server.getEpochsData fromEpoch toEpoch).map (·.epoch) :=
      ((server.length_eq_iff hle).mp h).mem_iff.mpr (List.mem_range'_1.mpr (by omega))
    exact hgap (server.mem_epochs.mp hmem).1
  have hmissing : ((List.range' fromEpoch (toEpoch + 1 - fromEpoch)).filter fun epoch =>
      decide (epoch ∉ ((server.getEpochsData fromEpoch toEpoch).map (·.epoch)).toFinset)) =
      (List.range' fromEpoch (toEpoch + 1 - fromEpoch)).filter fun epoch => decide (epoch ∉ db.duties) := by
    refine List.filter_congr fun (e : ℕ) he => decide_eq_decide.mpr (not_congr ?_)
    rw [List.mem_toFinset, server.mem_epochs]
    have hrange := List.mem_range'_1.mp he
    exact and_iff_left ⟨hrange.1, by omega⟩
  have hne : (List.range' fromEpoch (toEpoch + 1 - fromEpoch)).filter (fun epoch => decide (epoch ∉ db.duties)) ≠ [] :=
    List.ne_nil_of_mem (List.mem_filter.mpr ⟨List.mem_range'_1.mpr (by omega), decide_eq_true hgap⟩)
  unfold getCompleteEpochsData
  rw [if_neg (not_lt.mpr hle), if_neg hlength, sequence_of_le hle]
  simp only [Except.ok_bind, hmissing]
  exact if_pos hne

end EpochsServer

end Request

/-! What the loop over a range sees -/

section Client

variable {χ σ : Type} (client : PerformanceClient db) {fromEpoch toEpoch : ℕ}

namespace PerformanceClient

theorem consumeBatch_eq_ok {lift : PerformanceClientError → χ} {body : σ → Duty → Py χ σ} {acc acc' : σ}
    {epochsBatch : List EpochNumber} : client.consumeBatch lift body acc epochsBatch = .ok acc' ↔
      ∃ data, client.requestBatch epochsBatch = .ok data ∧ data.foldlM body acc = .ok acc' := by
  unfold consumeBatch
  rw [Except.bind_eq_ok]
  simp only [Py.lift_eq_ok]

theorem foldlM_consumeBatch {lift : PerformanceClientError → χ} {body : σ → Duty → Py χ σ} {acc acc' : σ}
    {batches : List (List EpochNumber)} : batches.foldlM (client.consumeBatch lift body) acc = .ok acc' ↔
      ∃ data, batches.mapM client.requestBatch = .ok data ∧ data.flatten.foldlM body acc = .ok acc' := by
  induction batches generalizing acc with
  | nil =>
    constructor
    · intro h
      exact ⟨[], rfl, h⟩
    · intro h
      obtain ⟨data, hdata, hfold⟩ := h
      cases hdata
      exact hfold
  | cons batch batches ih =>
    rw [ExceptRun.foldlM_cons_ok, List.mapM_cons]
    constructor
    · intro h
      obtain ⟨t, ht, hrest⟩ := h
      obtain ⟨first, hfirst, hfold⟩ := client.consumeBatch_eq_ok.mp ht
      obtain ⟨rest, hmap, hrest⟩ := ih.mp hrest
      refine ⟨first :: rest, ?_, ?_⟩
      · rw [hfirst, Except.ok_bind, hmap]
        rfl
      · rw [List.flatten_cons, ExceptRun.foldlM_append_ok]
        exact ⟨t, hfold, hrest⟩
    · intro h
      obtain ⟨data, hdata, hfold⟩ := h
      obtain ⟨first, hfirst, hdata⟩ := Except.bind_eq_ok.mp hdata
      obtain ⟨rest, hrest, hdata⟩ := Except.bind_eq_ok.mp hdata
      rw [Except.pure_eq_ok] at hdata
      rw [← hdata, List.flatten_cons, ExceptRun.foldlM_append_ok] at hfold
      obtain ⟨t, ht, hfold⟩ := hfold
      exact ⟨t, client.consumeBatch_eq_ok.mpr ⟨first, hfirst, ht⟩, ih.mpr ⟨rest, hrest, hfold⟩⟩

theorem foldlM_collect (rows : List Duty) (acc : List Duty) :
    (rows.foldlM (fun duties duty => .ok (duties ++ [duty])) acc : Py χ _) = .ok (acc ++ rows) := by
  induction rows generalizing acc with
  | nil => exact congrArg Except.ok (List.append_nil acc).symm
  | cons row rows ih =>
    rw [List.foldlM_cons, Except.ok_bind, ih, List.append_assoc]
    rfl

/-- A loop over the range that ends has seen exactly the records that fetching the range gives. -/
theorem forEachEpochData_eq_ok {lift : PerformanceClientError → χ} {body : σ → Duty → Py χ σ} {start acc : σ} :
    client.forEachEpochData lift fromEpoch toEpoch body start = .ok acc ↔
      ∃ rows, client.getEpochsData fromEpoch toEpoch = .ok rows ∧ rows.foldlM body start = .ok acc := by
  unfold getEpochsData forEachEpochData sequence
  split_ifs with hle
  · simp [Except.error_bind]
  · simp only [Except.ok_bind]
    unfold Itertools.batched
    split_ifs with hn
    · simp [Except.error_bind]
    · simp only [Except.ok_bind, foldlM_consumeBatch]
      constructor
      · intro h
        obtain ⟨data, hdata, hfold⟩ := h
        exact ⟨data.flatten, ⟨data, hdata, foldlM_collect _ _⟩, hfold⟩
      · intro h
        obtain ⟨rows, ⟨data, hdata, hrows⟩, hfold⟩ := h
        rw [foldlM_collect, List.nil_append, Except.ok.injEq] at hrows
        exact ⟨data, hdata, hrows ▸ hfold⟩

/-- The batches of a range, and the request made for each of them -/
theorem requestBatch_range' {start count : ℕ} (hpos : 0 < count) :
    client.requestBatch (List.range' start count) = client.request start (start + count - 1) := by
  unfold requestBatch
  have hfirst : (List.range' start count)[0]? = some start := by
    rw [List.getElem?_range' (by omega)]
    rfl
  have hlast : (List.range' start count)[count - 1]? = some (start + count - 1) := by
    rw [List.getElem?_range' (by omega), Option.some.injEq]
    omega
  rw [Py.listItem_eq_ok.mpr hfirst, Except.ok_bind, List.length_range', Py.listItem_eq_ok.mpr hlast, Except.ok_bind]

/-- The answer to one batch: its records, or the gap that the server has named -/
theorem requestBatch_cases {count : ℕ} {epochsBatch : List EpochNumber} (hn : 0 < client.epochsBatchSize)
    (hbatch : epochsBatch ∈ Itertools.batches client.epochsBatchSize (List.range' fromEpoch count)) :
    (∃ rows, client.requestBatch epochsBatch = .ok rows ∧ (rows.map (·.epoch)).Perm epochsBatch ∧
      ∀ row ∈ rows, db.duties.get? row.epoch = some row.toDutyData) ∨
    ∃ first last missing, client.requestBatch epochsBatch =
        .error (.raised (.response (.raised (.incompleteEpochRange first last missing)))) ∧
      missing ≠ [] ∧ ∀ epoch ∈ missing, epoch ∈ List.range' fromEpoch count ∧ epoch ∉ db.duties := by
  obtain ⟨start, length, rfl, hstart, hend, hpos, -⟩ := Itertools.mem_batches_range' hn hbatch
  rw [client.requestBatch_range' hpos, request]
  have hle : start ≤ start + length - 1 := by omega
  have hlength : start + length - 1 + 1 - start = length := by omega
  by_cases hcomplete : ∀ epoch : ℕ, start ≤ epoch → epoch ≤ start + length - 1 → epoch ∈ db.duties
  · obtain ⟨hok, hperm⟩ := client.server.getCompleteEpochsData_complete hle hcomplete
    rw [hlength] at hperm
    rw [hok]
    exact Or.inl ⟨_, rfl, hperm, fun row hrow => (client.server.mem_getEpochsData.mp hrow).1⟩
  · push Not at hcomplete
    obtain ⟨epoch, hfrom, hto, hgap⟩ := hcomplete
    rw [client.server.getCompleteEpochsData_gap hle hfrom hto hgap, hlength]
    refine Or.inr ⟨_, _, _, rfl, ?_, fun (e : ℕ) he => ?_⟩
    · exact List.ne_nil_of_mem (List.mem_filter.mpr ⟨List.mem_range'_1.mpr (by omega), decide_eq_true hgap⟩)
    · obtain ⟨hrange, hmissing⟩ := List.mem_filter.mp he
      have hrange' := List.mem_range'_1.mp hrange
      exact ⟨List.mem_range'_1.mpr (by omega), of_decide_eq_true hmissing⟩

/-- Fetching a range gives every epoch of it once, with the record that is stored. -/
theorem getEpochsData_ok (hn : 0 < client.epochsBatchSize) (hle : fromEpoch ≤ toEpoch) {rows : List Duty}
    (h : client.getEpochsData fromEpoch toEpoch = .ok rows) :
    (rows.map (·.epoch)).Perm (List.range' fromEpoch (toEpoch + 1 - fromEpoch)) ∧
      ∀ row ∈ rows, db.duties.get? row.epoch = some row.toDutyData := by
  unfold getEpochsData forEachEpochData at h
  rw [sequence_of_le hle, Except.ok_bind, Itertools.batched_eq_ok.mpr ⟨hn, rfl⟩, Except.ok_bind] at h
  obtain ⟨data, hdata, hrows⟩ := client.foldlM_consumeBatch.mp h
  rw [foldlM_collect, List.nil_append, Except.ok.injEq] at hrows
  have hbatches := ExceptRun.mapM_ok_iff.mp hdata
  have hspec : List.Forall₂ (fun epochsBatch rows => (List.map (·.epoch) rows).Perm epochsBatch ∧
      ∀ row ∈ rows, db.duties.get? row.epoch = some row.toDutyData)
      (Itertools.batches client.epochsBatchSize (List.range' fromEpoch (toEpoch + 1 - fromEpoch))) data := by
    refine List.forall₂_iff_get.mpr ⟨hbatches.length_eq, fun i hi hi' => ?_⟩
    have hok := (List.forall₂_iff_get.mp hbatches).2 i hi hi'
    rcases client.requestBatch_cases hn (List.get_mem _ ⟨i, hi⟩) with hcase | hcase
    · obtain ⟨rows, hrows, hrest⟩ := hcase
      rw [hok, Except.ok.injEq] at hrows
      exact hrows ▸ hrest
    · obtain ⟨_, _, _, herror, _⟩ := hcase
      rw [hok] at herror
      cases herror
  rw [← hrows, ← Itertools.batches_flatten hn (List.range' fromEpoch (toEpoch + 1 - fromEpoch))]
  clear hdata hrows hbatches h
  generalize Itertools.batches client.epochsBatchSize (List.range' fromEpoch (toEpoch + 1 - fromEpoch)) = batches at hspec ⊢
  induction hspec with
  | nil => exact ⟨List.Perm.refl _, fun row hrow => absurd hrow List.not_mem_nil⟩
  | cons hfirst _ ih =>
    simp only [List.flatten_cons, List.map_append]
    exact ⟨hfirst.1.append ih.1, List.forall_mem_append.mpr ⟨hfirst.2, ih.2⟩⟩

/-- Fetching a range fails for one reason only: an epoch of it is not stored. -/
theorem getEpochsData_error (hn : 0 < client.epochsBatchSize) (hle : fromEpoch ≤ toEpoch)
    {error : PyError PerformanceClientError} (h : client.getEpochsData fromEpoch toEpoch = .error error) :
    ∃ first last missing, error = .raised (.response (.raised (.incompleteEpochRange first last missing))) ∧
      missing ≠ [] ∧ ∀ epoch ∈ missing, fromEpoch ≤ epoch ∧ epoch ≤ toEpoch ∧ epoch ∉ db.duties := by
  unfold getEpochsData forEachEpochData at h
  rw [sequence_of_le hle, Except.ok_bind, Itertools.batched_eq_ok.mpr ⟨hn, rfl⟩, Except.ok_bind] at h
  obtain ⟨pre, epochsBatch, post, acc, hsplit, -, herror⟩ := ExceptRun.foldlM_error h
  have hmem := hsplit ▸ List.mem_append_right pre (List.mem_cons_self (a := epochsBatch) (l := post))
  unfold consumeBatch at herror
  rcases client.requestBatch_cases hn hmem with hcase | hcase
  · obtain ⟨rows, hrows, -⟩ := hcase
    rw [hrows, Py.lift_eq_ok.mpr rfl, Except.ok_bind, foldlM_collect] at herror
    cases herror
  · obtain ⟨first, last, missing, hrequest, hne, hmissing⟩ := hcase
    rw [hrequest, Py.lift, Except.error_bind, Except.error.injEq] at herror
    refine ⟨first, last, missing, herror.symm, hne, fun (epoch : ℕ) hepoch => ?_⟩
    obtain ⟨hrange, hgap⟩ := hmissing epoch hepoch
    have hrange' := List.mem_range'_1.mp hrange
    have hto : epoch ≤ toEpoch := by omega
    exact ⟨hrange'.1, hto, hgap⟩

/-- The loop itself raises nothing but what its body raises and what the client does. -/
theorem forEachEpochData_avoids {lift : PerformanceClientError → χ} {body : σ → Duty → Py χ σ} {exc : χ}
    (hlift : ∀ error, lift error ≠ exc) (hbody : ∀ s d, ExceptRun.Avoids (.raised exc) (body s d)) (start : σ) :
    ExceptRun.Avoids (.raised exc) (client.forEachEpochData lift fromEpoch toEpoch body start) := by
  unfold forEachEpochData
  refine ExceptRun.Avoids.bind ?_ fun epochs _ => ExceptRun.Avoids.bind ?_ fun batches _ =>
    ExceptRun.avoids_foldlM (fun acc epochsBatch => ?_) batches start
  · unfold sequence
    split_ifs
    · exact ExceptRun.avoids_error fun h => by cases h
    · exact ExceptRun.avoids_ok _
  · unfold Itertools.batched
    split_ifs
    · exact ExceptRun.avoids_error fun h => by cases h
    · exact ExceptRun.avoids_ok _
  · exact (Py.lift_avoids hlift _).bind fun data _ => ExceptRun.avoids_foldlM hbody data acc

end PerformanceClient

end Client

end Performance

end LidoOracle
