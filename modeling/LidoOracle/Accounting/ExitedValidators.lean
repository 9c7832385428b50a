import LidoOracle.ExitOrder.Exitable
import LidoOracle.Lib.Delta
import LidoOracle.Lib.Tally

/-! Exited validators in the two phases of a report. The first phase reports
them by module, the second one by operator, and each leaves out what the
router has recorded already. -/

namespace LidoOracle

namespace StakingState

variable {χ : Type} (st : StakingState) (refEpoch : EpochNumber)

def getExitedLidoValidators : Py χ (Dict NodeOperatorGlobalIndex ℕ) := do
  let lidoValidators ← st.getLidoValidatorsByNodeOperators
  return lidoValidators.mapKV fun _ validators =>
    validators.foldl (fun total validator => total + (isExitedValidator validator.toValidator refEpoch).toNat) 0

/-- Skip the report for an operator whose number has not changed. -/
def skipUnchangedOperator (lidoValidators : Dict NodeOperatorGlobalIndex ℕ) (operator : NodeOperator) :
    Py χ (Dict NodeOperatorGlobalIndex ℕ) := do
  let exited ← Py.getItem lidoValidators operator.globalIndex
  return if exited = operator.totalExitedValidators then lidoValidators.erase operator.globalIndex else lidoValidators

def getLidoNewlyExitedValidators : Py χ (Dict NodeOperatorGlobalIndex ℕ) := do
  let lidoValidators ← st.getExitedLidoValidators refEpoch
  st.getLidoNodeOperators.foldlM skipUnchangedOperator lidoValidators

/-- Looking at a module without exits leaves a zero behind. -/
def skipUnchangedModule (moduleStats : Dict StakingModuleId ℕ) (module : StakingModule) : Dict StakingModuleId ℕ :=
  let moduleStats := moduleStats.addTo module.id 0
  if moduleStats.totalAt module.id = module.exitedValidatorsCount then moduleStats.erase module.id else moduleStats

def getNewlyExitedValidatorsByModules : Py χ (List StakingModuleId × List ℕ) := do
  let exitedValidators ← st.getExitedLidoValidators refEpoch
  let moduleStats := exitedValidators.entries.foldl (fun stats e => stats.addTo e.1.1 e.2) Dict.empty
  let items := Sorted.sortedBy Prod.fst (st.stakingModules.foldl skipUnchangedModule moduleStats).entries
  return (items.map Prod.fst, items.map Prod.snd)

/-! The router, and what it should come to hold -/

/-- Modules have ids and addresses of their own, and the operators of a module have ids of their own. -/
structure Registered : Prop where
  moduleIds : (st.stakingModules.map (·.id)).Nodup
  moduleAddresses : (st.stakingModules.map (·.stakingModuleAddress)).Nodup
  operatorIds : ∀ module ∈ st.stakingModules, ((st.nodeOperatorDigests module.id).map (·.id)).Nodup

/-- The counters of the router before the report -/
def recordedByModules : Dict StakingModuleId ℕ :=
  Dict.ofList (st.stakingModules.map fun module => (module.id, module.exitedValidatorsCount))

def recordedByOperators : Dict NodeOperatorGlobalIndex ℕ :=
  Dict.ofList (st.getLidoNodeOperators.map fun no => (no.globalIndex, no.totalExitedValidators))

/-- The validators of an operator that have exited by the reference epoch -/
def exitedCount (no : NodeOperator) : ℕ :=
  (st.activeLidoValidators.filter fun v => v.lidoId.moduleAddress = no.stakingModule.stakingModuleAddress ∧
    v.lidoId.operatorIndex = no.id ∧ v.validator.exitEpoch ≤ refEpoch).length

/-- Written over the counters of the router, the reports of the two phases give the true numbers. -/
structure Reconstructs (ids : List StakingModuleId) (counts : List ℕ) (newlyExited : Dict NodeOperatorGlobalIndex ℕ) :
    Prop where
  operators : ∀ no ∈ st.getLidoNodeOperators,
    (st.recordedByOperators.overwrite newlyExited.entries).get? no.globalIndex = some (st.exitedCount refEpoch no)
  modules : ∀ module ∈ st.stakingModules, (st.recordedByModules.overwrite (ids.zip counts)).get? module.id =
    some ((st.getAllNodeOperatorDigests module).map (st.exitedCount refEpoch)).sum
  agree : ∀ module ∈ st.stakingModules, (st.recordedByModules.overwrite (ids.zip counts)).get? module.id =
    some ((st.getAllNodeOperatorDigests module).map fun no =>
      ((st.recordedByOperators.overwrite newlyExited.entries).get? no.globalIndex).getD 0).sum
  ascending : ids.Pairwise (· < ·)
  length : ids.length = counts.length
  moduleChanged : ∀ e ∈ ids.zip counts, ∃ module ∈ st.stakingModules, module.id = e.1 ∧
    e.2 ≠ module.exitedValidatorsCount
  operatorChanged : ∀ e ∈ newlyExited.entries, ∃ no ∈ st.getLidoNodeOperators, no.globalIndex = e.1 ∧
    e.2 ≠ no.totalExitedValidators

section Registered

variable {st} {refEpoch}

theorem stakingModule_of_mem {module : StakingModule} {no : NodeOperator} (h : no ∈ st.getAllNodeOperatorDigests module) :
    no.stakingModule = module := by
  obtain ⟨digest, -, rfl⟩ := List.mem_map.mp h
  rfl

theorem Registered.lidoNodeOperators (h : st.Registered) :
    st.getLidoNodeOperators = st.stakingModules.flatMap st.getAllNodeOperatorDigests := by
  have hids : ((st.stakingModules.map fun m => (m.id, st.getAllNodeOperatorDigests m)).map Prod.fst).Nodup := by
    rw [List.map_map]
    exact h.moduleIds
  rw [getLidoNodeOperators, getLidoNodeOperatorsByModules, Dict.values, Dict.entries_ofList hids, List.map_map]
  rfl

theorem Registered.module_mem (h : st.Registered) {no : NodeOperator} (hno : no ∈ st.getLidoNodeOperators) :
    no.stakingModule ∈ st.stakingModules ∧ no ∈ st.getAllNodeOperatorDigests no.stakingModule := by
  rw [h.lidoNodeOperators] at hno
  obtain ⟨module, hmodule, hno⟩ := List.mem_flatMap.mp hno
  rw [stakingModule_of_mem hno]
  exact ⟨hmodule, hno⟩

theorem Registered.globalIndexes (h : st.Registered) : (st.getLidoNodeOperators.map NodeOperator.globalIndex).Nodup := by
  have hmodule : ∀ (module : StakingModule) gid, gid ∈ (st.getAllNodeOperatorDigests module).map NodeOperator.globalIndex →
      gid.1 = module.id := by
    intro module gid hgid
    obtain ⟨no, hno, rfl⟩ := List.mem_map.mp hgid
    rw [NodeOperator.globalIndex, stakingModule_of_mem hno]
  rw [h.lidoNodeOperators, List.map_flatMap, List.nodup_flatMap]
  refine ⟨fun module hm => ?_, (List.pairwise_map.mp h.moduleIds).imp fun hne gid hgid hgid' => ?_⟩
  · refine List.Nodup.of_map Prod.snd ?_
    rw [getAllNodeOperatorDigests, List.map_map, List.map_map]
    exact h.operatorIds module hm
  · exact hne ((hmodule _ _ hgid).symm.trans (hmodule _ _ hgid'))

/-- A validator is filed under the operator that its key names. -/
theorem Registered.gidOf_eq (h : st.Registered) {no : NodeOperator} (hno : no ∈ st.getLidoNodeOperators)
    (v : LidoValidator) : st.gidOf v = some no.globalIndex ↔
      v.lidoId.moduleAddress = no.stakingModule.stakingModuleAddress ∧ v.lidoId.operatorIndex = no.id := by
  have hlisted : ∀ address id, st.moduleIdByAddress.get? address = some id →
      ∃ no' ∈ st.getLidoNodeOperators, no'.stakingModule.stakingModuleAddress = address ∧ no'.stakingModule.id = id := by
    intro address id hget
    obtain ⟨no', hno', heq⟩ := List.mem_map.mp (Dict.mem_of_mem_entries_ofList (Dict.get?_eq_some_iff.mp hget))
    obtain ⟨haddress, hid⟩ := Prod.mk.inj heq
    exact ⟨no', hno', haddress, hid⟩
  have hsame : ∀ no' ∈ st.getLidoNodeOperators, no'.stakingModule.id = no.stakingModule.id ↔
      no'.stakingModule.stakingModuleAddress = no.stakingModule.stakingModuleAddress := by
    intro no' hno'
    have hm' := (h.module_mem hno').1
    have hm := (h.module_mem hno).1
    constructor
    · intro hid
      rw [List.inj_on_of_nodup_map h.moduleIds hm' hm hid]
    · intro haddress
      rw [List.inj_on_of_nodup_map h.moduleAddresses hm' hm haddress]
  rw [gidOf, Option.map_eq_some_iff]
  constructor
  · rintro ⟨id, hget, hgid⟩
    obtain ⟨hid, hoperator⟩ := Prod.mk.inj hgid
    obtain ⟨no', hno', haddress, hid'⟩ := hlisted _ _ hget
    exact ⟨haddress.symm.trans ((hsame no' hno').mp (hid'.trans hid)), hoperator⟩
  · rintro ⟨haddress, hoperator⟩
    have hmem : v.lidoId.moduleAddress ∈ st.moduleIdByAddress := by
      rw [moduleIdByAddress, Dict.mem_ofList, List.map_map, haddress]
      exact List.mem_map.mpr ⟨no, hno, rfl⟩
    obtain ⟨id, hget⟩ := Dict.mem_iff_exists_get?.mp hmem
    obtain ⟨no', hno', haddress', hid'⟩ := hlisted _ _ hget
    refine ⟨id, hget, Prod.ext ?_ hoperator⟩
    rw [← hid']
    exact (hsame no' hno').mpr (haddress'.trans haddress)

theorem foldl_exited (validators : List LidoValidator) (total : ℕ) :
    validators.foldl (fun total v => total + (isExitedValidator v.toValidator refEpoch).toNat) total =
      total + (validators.filter fun v => isExitedValidator v.toValidator refEpoch).length := by
  induction validators generalizing total with
  | nil => rfl
  | cons v validators ih =>
    rw [List.foldl_cons, ih, List.filter_cons]
    cases isExitedValidator v.toValidator refEpoch
    · rfl
    · simp only [Bool.toNat_true, if_true, List.length_cons]
      omega

/-- A dictionary with a value for each operator has an entry for each of them. -/
theorem Registered.entries_perm (h : st.Registered) {α : Type} {d : Dict NodeOperatorGlobalIndex α} {f : NodeOperator → α}
    (hkeys : ∀ gid, gid ∈ d ↔ ∃ no ∈ st.getLidoNodeOperators, no.globalIndex = gid)
    (hget : ∀ no ∈ st.getLidoNodeOperators, d.get? no.globalIndex = some (f no)) :
    d.entries.Perm (st.getLidoNodeOperators.map fun no => (no.globalIndex, f no)) := by
  have hfst : (st.getLidoNodeOperators.map fun no => (no.globalIndex, f no)).map Prod.fst =
      st.getLidoNodeOperators.map NodeOperator.globalIndex := List.map_map
  refine (List.perm_ext_iff_of_nodup (List.Nodup.of_map Prod.fst (Dict.nodupKeys _))
    (List.Nodup.of_map Prod.fst (hfst ▸ h.globalIndexes))).mpr fun e => ?_
  rw [List.mem_map]
  constructor
  · intro he
    obtain ⟨no, hno, hkey⟩ := (hkeys e.1).mp (Dict.mem_of_mem_entries he)
    have hvalue := hget no hno
    rw [hkey, Dict.get?_eq_some_iff.mpr he, Option.some.injEq] at hvalue
    exact ⟨no, hno, Prod.ext hkey hvalue.symm⟩
  · rintro ⟨no, hno, rfl⟩
    exact Dict.get?_eq_some_iff.mp (hget no hno)

/-- The services know every operator's number of exited validators. -/
theorem Registered.exited_perm (h : st.Registered) {exited : Dict NodeOperatorGlobalIndex ℕ}
    (hexited : (st.getExitedLidoValidators refEpoch : Py χ _) = .ok exited) :
    exited.entries.Perm (st.getLidoNodeOperators.map fun no => (no.globalIndex, st.exitedCount refEpoch no)) := by
  obtain ⟨validators, hvalidators, hexited⟩ := Except.bind_eq_ok.mp hexited
  cases hexited
  have hget : ∀ no ∈ st.getLidoNodeOperators, (validators.mapKV fun _ validators => validators.foldl
      (fun total v => total + (isExitedValidator v.toValidator refEpoch).toNat) 0).get? no.globalIndex =
        some (st.exitedCount refEpoch no) := by
    intro no hno
    rw [Dict.get?_mapKV, lidoValidators_get? hvalidators ⟨no, hno, rfl⟩, Option.map_some, foldl_exited, zero_add,
      validatorsOf, List.filter_filter]
    refine congrArg (fun l : List LidoValidator => some l.length) (List.filter_congr fun v _ => ?_)
    rw [Bool.eq_iff_iff, Bool.and_eq_true, decide_eq_true_iff, decide_eq_true_iff, h.gidOf_eq hno, isExitedValidator,
      decide_eq_true_iff, and_comm, and_assoc]
  exact h.entries_perm (fun gid => Dict.mem_mapKV.trans (mem_lidoValidators hvalidators)) hget

/-- What is kept of a number next to the one recorded -/
def unlessRecorded (recorded : ℕ) (current : Option ℕ) : Option ℕ :=
  if current.getD 0 = recorded then none else some (current.getD 0)

theorem skipUnchangedOperator_get? {lidoValidators : Dict NodeOperatorGlobalIndex ℕ} {no : NodeOperator}
    (h : lidoValidators.get? no.globalIndex ≠ none) :
    ∃ kept, (skipUnchangedOperator lidoValidators no : Py χ _) = .ok kept ∧
      kept.get? = Function.update lidoValidators.get? no.globalIndex
        (unlessRecorded no.totalExitedValidators (lidoValidators.get? no.globalIndex)) := by
  obtain ⟨exited, hexited⟩ := Option.ne_none_iff_exists'.mp h
  refine ⟨_, by rw [skipUnchangedOperator, Py.getItem_eq_ok.mpr hexited]; rfl, ?_⟩
  funext gid
  rw [unlessRecorded, hexited, Option.getD_some]
  by_cases hgid : gid = no.globalIndex
  · rw [hgid, Function.update_self]
    split_ifs with hsame
    · rw [Dict.get?_erase, if_pos rfl]
    · exact hexited
  · rw [Function.update_of_ne hgid]
    split_ifs with hsame
    · rw [Dict.get?_erase, if_neg hgid]
    · rfl

theorem skipUnchangedModule_get? (moduleStats : Dict StakingModuleId ℕ) (module : StakingModule) :
    (skipUnchangedModule moduleStats module).get? = Function.update moduleStats.get? module.id
      (unlessRecorded module.exitedValidatorsCount (moduleStats.get? module.id)) := by
  have htotal : (moduleStats.addTo module.id 0).totalAt module.id = (moduleStats.get? module.id).getD 0 := by
    rw [Dict.totalAt_addTo, if_pos rfl, add_zero]
    rfl
  have hadded : ∀ id, (moduleStats.addTo module.id 0).get? id =
      if id = module.id then some ((moduleStats.get? module.id).getD 0) else moduleStats.get? id := fun id => by
    rw [Dict.addTo, Dict.get?_set, add_zero]
    rfl
  funext id
  unfold skipUnchangedModule unlessRecorded
  dsimp only
  rw [htotal]
  by_cases hid : id = module.id
  · rw [hid, Function.update_self]
    split_ifs with hsame
    · rw [Dict.get?_erase, if_pos rfl]
    · rw [hadded, if_pos rfl]
  · rw [Function.update_of_ne hid]
    split_ifs with hsame
    · rw [Dict.get?_erase, if_neg hid, hadded, if_neg hid]
    · rw [hadded, if_neg hid]

/-- The second phase: a delta against the counters of the operators -/
theorem Registered.newlyExited (h : st.Registered) {exited : Dict NodeOperatorGlobalIndex ℕ}
    (hexited : (st.getExitedLidoValidators refEpoch : Py χ _) = .ok exited) :
    ∃ newlyExited, (st.getLidoNewlyExitedValidators refEpoch : Py χ _) = .ok newlyExited ∧
      st.recordedByOperators.IsDelta (fun gid => exited.totalAt gid) newlyExited := by
  have hperm := h.exited_perm hexited
  have hget : ∀ no ∈ st.getLidoNodeOperators, exited.get? no.globalIndex = some (st.exitedCount refEpoch no) :=
    fun no hno => Dict.get?_eq_some_iff.mpr (hperm.mem_iff.mpr (List.mem_map.mpr ⟨no, hno, rfl⟩))
  obtain ⟨newlyExited, hloop, hmem, hnot⟩ := @ExceptRun.foldlM_updateBy (PyError χ) _ _ skipUnchangedOperator
    NodeOperatorGlobalIndex (Option ℕ) _ NodeOperator.globalIndex Dict.get? (fun _ current => current ≠ none)
    (fun no => unlessRecorded no.totalExitedValidators) (fun _ _ hcurrent => skipUnchangedOperator_get? hcurrent)
    st.getLidoNodeOperators h.globalIndexes exited fun no hno => by
      rw [hget no hno]
      exact Option.some_ne_none _
  refine ⟨newlyExited, ?_, ?_⟩
  · rw [getLidoNewlyExitedValidators, hexited, Except.ok_bind]
    exact hloop
  · refine Dict.isDelta_of_changed h.globalIndexes (fun no hno => ?_) fun gid hgid => ?_
    · rw [hmem no hno, unlessRecorded]
      rfl
    · rw [hnot gid hgid, Dict.get?_eq_none_iff]
      intro hin
      refine hgid ?_
      obtain ⟨e, he, rfl⟩ := List.mem_map.mp hin
      obtain ⟨no, hno, rfl⟩ := List.mem_map.mp (hperm.mem_iff.mp he)
      exact List.mem_map_of_mem hno

/-- The sum over the operators of a module -/
theorem Registered.sum_module (h : st.Registered) {module : StakingModule} (hmodule : module ∈ st.stakingModules)
    (f : NodeOperator → ℕ) :
    (st.getLidoNodeOperators.map fun no => if no.stakingModule.id = module.id then f no else 0).sum =
      ((st.getAllNodeOperatorDigests module).map f).sum := by
  have hone : ∀ m ∈ st.stakingModules, ((st.getAllNodeOperatorDigests m).map fun no =>
      if no.stakingModule.id = module.id then f no else 0).sum =
        if m.id = module.id then ((st.getAllNodeOperatorDigests module).map f).sum else 0 := by
    intro m hm
    by_cases hid : m.id = module.id
    · have hsame : m = module := List.inj_on_of_nodup_map h.moduleIds hm hmodule hid
      rw [if_pos hid, hsame]
      refine congrArg List.sum (List.map_congr_left fun no hno => ?_)
      rw [stakingModule_of_mem hno, if_pos rfl]
    · rw [if_neg hid]
      refine List.sum_eq_zero fun x hx => ?_
      obtain ⟨no, hno, rfl⟩ := List.mem_map.mp hx
      rw [stakingModule_of_mem hno, if_neg hid]
  have hkeys : ((st.stakingModules.map fun m => (m.id, ())).map Prod.fst).Nodup := by
    rw [List.map_map]
    exact h.moduleIds
  have hin : module.id ∈ (st.stakingModules.map fun m => (m.id, ())).map Prod.fst := by
    rw [List.map_map]
    exact List.mem_map.mpr ⟨module, hmodule, rfl⟩
  have hsum := Dict.sum_single_key hkeys hin ((st.getAllNodeOperatorDigests module).map f).sum
  rw [List.map_map] at hsum
  rw [h.lidoNodeOperators, List.map_flatMap, List.flatMap_def, List.sum_flatten, List.map_map, ← hsum]
  exact congrArg List.sum (List.map_congr_left hone)

/-- The first phase: a delta against the counters of the modules, in the order of the ids -/
theorem Registered.newlyExitedByModules (h : st.Registered) {exited : Dict NodeOperatorGlobalIndex ℕ}
    (hexited : (st.getExitedLidoValidators refEpoch : Py χ _) = .ok exited) :
    ∃ (items : List (StakingModuleId × ℕ)) (delta : Dict StakingModuleId ℕ),
      (st.getNewlyExitedValidatorsByModules refEpoch : Py χ _) = .ok (items.map Prod.fst, items.map Prod.snd) ∧
      (items.Pairwise fun e e' => e.1 < e'.1) ∧ items.Perm delta.entries ∧
      st.recordedByModules.IsDelta (fun id => (st.getLidoNodeOperators.map fun no =>
        if no.stakingModule.id = id then st.exitedCount refEpoch no else 0).sum) delta := by
  have hperm := h.exited_perm hexited
  have hstats : exited.entries.foldl (fun stats e => stats.addTo e.1.1 e.2) Dict.empty =
      (Dict.empty : Dict StakingModuleId ℕ).addAll (exited.entries.map fun e => (e.1.1, e.2)) := by
    rw [Dict.addAll, List.foldl_map]
  have hmap : ((exited.entries.map fun e => (e.1.1, e.2)) : List (StakingModuleId × ℕ)).Perm
      (st.getLidoNodeOperators.map fun no => (no.stakingModule.id, st.exitedCount refEpoch no)) := by
    have hboth := hperm.map fun e => (e.1.1, e.2)
    rw [List.map_map] at hboth
    exact hboth
  generalize hmoduleStats : (Dict.empty : Dict StakingModuleId ℕ).addAll (exited.entries.map fun e => (e.1.1, e.2)) =
    moduleStats at hstats
  have htotal : ∀ id, (moduleStats.get? id).getD 0 = (st.getLidoNodeOperators.map fun no =>
      if no.stakingModule.id = id then st.exitedCount refEpoch no else 0).sum := by
    intro id
    have hsum := Dict.totalAt_addAll (Dict.empty : Dict StakingModuleId ℕ) (exited.entries.map fun e => (e.1.1, e.2)) id
    rw [hmoduleStats, Dict.totalAt_empty, zero_add, Dict.amountAt_perm hmap, Dict.amountAt, List.map_map] at hsum
    exact hsum
  have hnone : ∀ id ∉ st.stakingModules.map (·.id), moduleStats.get? id = none := by
    intro id hid
    rw [Dict.get?_eq_none_iff, ← hmoduleStats, Dict.mem_addAll, not_or]
    refine ⟨List.not_mem_nil, fun hin => hid ?_⟩
    rw [(hmap.map Prod.fst).mem_iff, List.map_map] at hin
    obtain ⟨no, hno, rfl⟩ := List.mem_map.mp hin
    exact List.mem_map_of_mem (h.module_mem hno).1
  obtain ⟨delta, hloop, hmem, hnot⟩ := @ExceptRun.foldlM_updateBy Empty _ _
    (fun stats module => .ok (skipUnchangedModule stats module)) StakingModuleId (Option ℕ) _ StakingModule.id Dict.get?
    (fun _ _ => True) (fun module => unlessRecorded module.exitedValidatorsCount)
    (fun stats module _ => ⟨_, rfl, skipUnchangedModule_get? stats module⟩) st.stakingModules h.moduleIds moduleStats
    fun _ _ => trivial
  have hdelta : st.stakingModules.foldl skipUnchangedModule moduleStats = delta :=
    Except.ok.inj ((List.foldlM_pure (m := Except Empty)).symm.trans hloop)
  refine ⟨Sorted.sortedBy Prod.fst delta.entries, delta, ?_, Sorted.pairwise_lt_sortedBy delta.nodupKeys,
    Sorted.perm_sortedBy, Dict.isDelta_of_changed h.moduleIds (fun module hmodule => ?_) fun id hid => ?_⟩
  · rw [getNewlyExitedValidatorsByModules, hexited, Except.ok_bind, hstats, ← hdelta]
    rfl
  · rw [hmem module hmodule, unlessRecorded, htotal]
  · rw [hnot id hid, hnone id hid]

/-- The services fail only on a validator of a module that has no operator. -/
theorem getExitedLidoValidators_total (st : StakingState) (refEpoch : EpochNumber) :
    (∃ exited, (st.getExitedLidoValidators refEpoch : Py χ _) = .ok exited) ∨
      (st.getExitedLidoValidators refEpoch : Py χ _) = .error .keyError ∧
        ∃ v ∈ st.activeLidoValidators, ∀ no ∈ st.getLidoNodeOperators,
          no.stakingModule.stakingModuleAddress ≠ v.lidoId.moduleAddress := by
  cases hvalidators : (st.getLidoValidatorsByNodeOperators : Py χ _) with
  | ok validators => exact Or.inl ⟨_, by rw [getExitedLidoValidators, hvalidators]; rfl⟩
  | error e =>
    obtain ⟨pre, v, post, filed, hsplit, -, herror⟩ := ExceptRun.foldlM_error hvalidators
    unfold fileValidator at herror
    rcases Except.bind_eq_error.mp herror with hmodule | ⟨moduleId, -, hpure⟩
    · unfold Py.getItem at hmodule
      split at hmodule
      · cases hmodule
      · rename_i hget
        cases hmodule
        refine Or.inr ⟨by rw [getExitedLidoValidators, hvalidators]; rfl, v, ?_, fun no hno haddress => ?_⟩
        · rw [hsplit]
          exact List.mem_append_right _ List.mem_cons_self
        · refine (Dict.get?_eq_none_iff.mp hget) (Dict.mem_ofList.mpr ?_)
          rw [List.map_map]
          exact List.mem_map.mpr ⟨no, hno, haddress⟩
    · cases hpure

/-- The two phases of a report agree: both leave the router with the number of exited validators of every operator and
with the sums of these in its modules, unless a validator belongs to no operator's module. -/
theorem exitedValidators_reconstruct {st : StakingState} (h : st.Registered) (refEpoch : EpochNumber) :
    (∃ ids counts newlyExited, (st.getNewlyExitedValidatorsByModules refEpoch : Py χ _) = .ok (ids, counts) ∧
      (st.getLidoNewlyExitedValidators refEpoch : Py χ _) = .ok newlyExited ∧
      st.Reconstructs refEpoch ids counts newlyExited) ∨
    ((st.getNewlyExitedValidatorsByModules refEpoch : Py χ _) = .error .keyError ∧
      (st.getLidoNewlyExitedValidators refEpoch : Py χ _) = .error .keyError ∧
      ∃ v ∈ st.activeLidoValidators, ∀ no ∈ st.getLidoNodeOperators,
        no.stakingModule.stakingModuleAddress ≠ v.lidoId.moduleAddress) := by
  rcases @getExitedLidoValidators_total χ st refEpoch with ⟨exited, hexited⟩ | ⟨herror, hunknown⟩
  · obtain ⟨newlyExited, hnewly, hoperators⟩ := h.newlyExited hexited
    obtain ⟨items, delta, hitems, hsorted, hperm, hmodules⟩ := h.newlyExitedByModules hexited
    have hzip : (items.map Prod.fst).zip (items.map Prod.snd) = items := by
      rw [List.zip_map', List.map_id']
    have hcount : ∀ no ∈ st.getLidoNodeOperators, exited.totalAt no.globalIndex = st.exitedCount refEpoch no :=
      fun no hno => Dict.totalAt_of_mem_entries ((h.exited_perm hexited).mem_iff.mpr (List.mem_map.mpr ⟨no, hno, rfl⟩))
    have hoperator : ∀ no ∈ st.getLidoNodeOperators,
        (st.recordedByOperators.overwrite newlyExited.entries).get? no.globalIndex =
          some (st.exitedCount refEpoch no) := by
      intro no hno
      rw [← hcount no hno]
      refine hoperators.overwrite (Dict.mem_ofList.mpr ?_) (List.Perm.refl _)
      rw [List.map_map]
      exact List.mem_map.mpr ⟨no, hno, rfl⟩
    have hmodule : ∀ module ∈ st.stakingModules, (st.recordedByModules.overwrite items).get? module.id =
        some ((st.getAllNodeOperatorDigests module).map (st.exitedCount refEpoch)).sum := by
      intro module hm
      rw [← h.sum_module hm]
      refine hmodules.overwrite (Dict.mem_ofList.mpr ?_) hperm
      rw [List.map_map]
      exact List.mem_map.mpr ⟨module, hm, rfl⟩
    refine Or.inl ⟨_, _, newlyExited, hitems, hnewly, hoperator, ?_, ?_, ?_, ?_, ?_, ?_⟩
    · rw [hzip]
      exact hmodule
    · rw [hzip]
      intro module hm
      rw [hmodule module hm]
      refine congrArg (fun l : List ℕ => some l.sum) (List.map_congr_left fun no hno => ?_)
      have hmem : no ∈ st.getLidoNodeOperators := by
        rw [h.lidoNodeOperators]
        exact List.mem_flatMap.mpr ⟨module, hm, hno⟩
      rw [hoperator no hmem, Option.getD_some]
    · exact List.pairwise_map.mpr hsorted
    · rw [List.length_map, List.length_map]
    · rw [hzip]
      intro e he
      obtain ⟨-, r, hrecorded, hne⟩ := hmodules.changed (hperm.mem_iff.mp he)
      obtain ⟨module, hm, heq⟩ := List.mem_map.mp (Dict.mem_of_mem_entries_ofList (Dict.get?_eq_some_iff.mp hrecorded))
      obtain ⟨hid, hr⟩ := Prod.mk.inj heq
      exact ⟨module, hm, hid, hr ▸ hne⟩
    · intro e he
      obtain ⟨-, r, hrecorded, hne⟩ := hoperators.changed he
      obtain ⟨no, hno, heq⟩ := List.mem_map.mp (Dict.mem_of_mem_entries_ofList (Dict.get?_eq_some_iff.mp hrecorded))
      obtain ⟨hgid, hr⟩ := Prod.mk.inj heq
      exact ⟨no, hno, hgid, hr ▸ hne⟩
  · refine Or.inr ⟨?_, ?_, hunknown⟩
    · rw [getNewlyExitedValidatorsByModules, herror]
      rfl
    · rw [getLidoNewlyExitedValidators, herror]
      rfl

/-- The sample state, with one of the three validators exited -/
def exitedState : StakingState :=
  { ValidatorExitIterator.sampleState [1, 3] with
    activeLidoValidators := (ValidatorExitIterator.sampleState [1, 3]).activeLidoValidators.map fun v =>
      if v.index = 5 then { v with validator := { v.validator with exitEpoch := 9 } } else v }

theorem exitedState_registered : exitedState.Registered where
  moduleIds := by decide
  moduleAddresses := by decide
  operatorIds := by decide

theorem exitedValidators_reconstruct_sample :
    ∃ ids counts newlyExited, (exitedState.getNewlyExitedValidatorsByModules 9 : Py Empty _) = .ok (ids, counts) ∧
      (exitedState.getLidoNewlyExitedValidators 9 : Py Empty _) = .ok newlyExited ∧
      exitedState.Reconstructs 9 ids counts newlyExited := by
  rcases @exitedValidators_reconstruct Empty _ exitedState_registered 9 with h | ⟨-, -, hunknown⟩
  · exact h
  · exact absurd hunknown (by decide)

end Registered

end StakingState

end LidoOracle
