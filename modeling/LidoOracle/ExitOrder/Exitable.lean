import LidoOracle.ExitOrder.Selection

/-! Whom the services file where. Each operator has its own active validators,
its own recent exit requests, and from both the list it can be asked to exit. -/

namespace LidoOracle

namespace StakingState

variable (st : StakingState)

def moduleIdByAddress : Dict ChecksumAddress StakingModuleId :=
  Dict.ofList (st.getLidoNodeOperators.map fun no =>
    (no.stakingModule.stakingModuleAddress, no.stakingModule.id))

/-- The operator a validator is filed under, if its module is known -/
def gidOf (v : LidoValidator) : Option NodeOperatorGlobalIndex :=
  (st.moduleIdByAddress.get? v.lidoId.moduleAddress).map fun id => (id, v.lidoId.operatorIndex)

def validatorsOf (gid : NodeOperatorGlobalIndex) : List LidoValidator :=
  st.activeLidoValidators.filter fun v => st.gidOf v = some gid

/-- The indexes asked to exit recently -/
def requestedOf (gid : NodeOperatorGlobalIndex) : Finset ValidatorIndex :=
  ((st.validatorExitRequests.filter fun event =>
    (event.stakingModuleId, event.nodeOperatorId) = gid).map (·.validatorIndex)).toFinset

/-- The validators an operator can be asked to exit, lowest index first -/
def exitableOf (gid : NodeOperatorGlobalIndex) : List LidoValidator :=
  Sorted.sortedBy (fun v => v.index) ((st.validatorsOf gid).filter (canExit (st.requestedOf gid)))

def IsOperator (gid : NodeOperatorGlobalIndex) : Prop :=
  ∃ no ∈ st.getLidoNodeOperators, no.globalIndex = gid

variable {st} {χ : Type} {gid : NodeOperatorGlobalIndex} {v : LidoValidator}

theorem mem_validatorsOf : v ∈ st.validatorsOf gid ↔ v ∈ st.activeLidoValidators ∧ st.gidOf v = some gid := by
  rw [validatorsOf, List.mem_filter, decide_eq_true_iff]

theorem mem_requestedOf {index : ValidatorIndex} : index ∈ st.requestedOf gid ↔
    ∃ event ∈ st.validatorExitRequests, (event.stakingModuleId, event.nodeOperatorId) = gid ∧
      event.validatorIndex = index := by
  rw [requestedOf, List.mem_toFinset, List.mem_map]
  constructor
  · rintro ⟨event, hevent, hindex⟩
    obtain ⟨hmem, hgid⟩ := List.mem_filter.mp hevent
    exact ⟨event, hmem, of_decide_eq_true hgid, hindex⟩
  · rintro ⟨event, hmem, hgid, hindex⟩
    exact ⟨event, List.mem_filter.mpr ⟨hmem, decide_eq_true hgid⟩, hindex⟩

theorem mem_exitableOf : v ∈ st.exitableOf gid ↔
    v ∈ st.validatorsOf gid ∧ canExit (st.requestedOf gid) v = true := by
  rw [exitableOf, Sorted.mem_sortedBy, List.mem_filter]

/-- A dictionary that starts with one value for every operator -/
theorem get?_ofOperators {α : Type} {a : α} (h : st.IsOperator gid) :
    (Dict.ofList (st.getLidoNodeOperators.map fun no => (no.globalIndex, a))).get? gid = some a := by
  obtain ⟨b, hb⟩ := Dict.mem_iff_exists_get?.mp (mem_ofOperators.mpr h)
  have hmem := Dict.mem_of_mem_entries_ofList (Dict.get?_eq_some_iff.mp hb)
  obtain ⟨no, -, heq⟩ := List.mem_map.mp hmem
  rw [hb, ← (Prod.mk.inj heq).2]

/-- Filing appends each active validator to the list of its own operator. -/
theorem lidoValidators_get? {validators : Dict NodeOperatorGlobalIndex (List LidoValidator)}
    (h : (st.getLidoValidatorsByNodeOperators : Py χ _) = .ok validators) (hgid : st.IsOperator gid) :
    validators.get? gid = some (st.validatorsOf gid) := by
  refine ExceptRun.foldlM_invariant (fun filed d => d.get? gid = some (filed.filter fun v =>
    decide (st.gidOf v = some gid))) (fun filed v d d' hd hstep => ?_) (get?_ofOperators hgid) h
  obtain ⟨moduleId, hmodule, hstep⟩ := Except.bind_eq_ok.mp hstep
  rw [Except.pure_eq_ok] at hstep
  have hv : st.gidOf v = some (moduleId, v.lidoId.operatorIndex) := by
    rw [gidOf, moduleIdByAddress, Py.getItem_eq_ok.mp hmodule, Option.map_some]
  rw [← hstep, Dict.get?_modify, hd, List.filter_append, List.filter_singleton, hv]
  by_cases hkey : gid = (moduleId, v.lidoId.operatorIndex)
  · simp [hkey]
  · simp [hkey, Ne.symm hkey]

theorem recentlyRequested_get? {indexes : Dict NodeOperatorGlobalIndex (Finset ValidatorIndex)}
    (h : (st.getRecentlyRequestedToExitValidatorsByNodeOperator : Py χ _) = .ok indexes)
    (hgid : st.IsOperator gid) : indexes.get? gid = some (st.requestedOf gid) := by
  refine ExceptRun.foldlM_invariant (fun seen d => d.get? gid = some
    ((seen.filter fun event => decide ((event.stakingModuleId, event.nodeOperatorId) = gid)).map
      (·.validatorIndex)).toFinset) (fun seen event d d' hd hstep => ?_) (get?_ofOperators hgid) h
  obtain ⟨-, rfl⟩ := Py.updateItem_eq_ok.mp hstep
  rw [Dict.get?_modify, hd, List.filter_append, List.filter_singleton]
  by_cases hkey : gid = (event.stakingModuleId, event.nodeOperatorId)
  · ext index
    simp [hkey]
  · simp [hkey, Ne.symm hkey]

section Distinct

variable (hindex : (st.activeLidoValidators.map (·.index)).Nodup)
include hindex

theorem validatorsOf_nodup : ((st.validatorsOf gid).map (·.index)).Nodup :=
  hindex.sublist (List.filter_sublist.map _)

/-- An operator's list is in strictly ascending order of the index. -/
theorem exitableOf_ascending : (st.exitableOf gid).Pairwise fun a b => a.index < b.index :=
  Sorted.pairwise_lt_sortedBy ((validatorsOf_nodup hindex).sublist (List.filter_sublist.map _))

/-- Lists filed under different operators have no index in common. -/
theorem filed_nodup {d : Dict NodeOperatorGlobalIndex (List LidoValidator)}
    (hmem : ∀ e ∈ d.entries, ∀ v ∈ e.2, v ∈ st.validatorsOf e.1)
    (hnodup : ∀ e ∈ d.entries, (e.2.map (·.index)).Nodup) :
    ((d.entries.flatMap fun e => e.2).map (·.index)).Nodup := by
  rw [List.map_flatMap, List.nodup_flatMap]
  refine ⟨hnodup, (List.pairwise_map.mp d.nodupKeys).imp_of_mem fun {a b} ha hb hne => ?_⟩
  intro index hia hib
  obtain ⟨v, hv, rfl⟩ := List.mem_map.mp hia
  obtain ⟨w, hw, heq⟩ := List.mem_map.mp hib
  obtain ⟨hvActive, hvGid⟩ := mem_validatorsOf.mp (hmem a ha v hv)
  obtain ⟨hwActive, hwGid⟩ := mem_validatorsOf.mp (hmem b hb w hw)
  have hvw : w = v := List.inj_on_of_nodup_map hindex hwActive hvActive heq
  rw [hvw, hvGid, Option.some.injEq] at hwGid
  exact hne hwGid

end Distinct

end StakingState

namespace ValidatorExitIterator

variable {st : StakingState} {gid : NodeOperatorGlobalIndex}

/-- A started iterator holds every operator's list. -/
theorem iter_exitable {it : ValidatorExitIterator} (h : iter st = .ok it) :
    it.exitableValidators.get? gid = some (st.exitableOf gid) ∧ st.IsOperator gid ∨
      it.exitableValidators.get? gid = none ∧ ¬ st.IsOperator gid := by
  obtain ⟨-, -, -, hprep, -, -⟩ := iter_ready h
  obtain ⟨indexes, validators, hidx, hval, hget⟩ := prepareValidatorStats_ok hprep
  by_cases hgid : st.IsOperator gid
  · refine .inl ⟨?_, hgid⟩
    rw [hget, StakingState.lidoValidators_get? hval hgid, StakingState.recentlyRequested_get? hidx hgid]
    rfl
  · refine .inr ⟨?_, hgid⟩
    have hnone : validators.get? gid = none :=
      Dict.get?_eq_none_iff.mpr fun hmem => hgid ((StakingState.mem_lidoValidators hval).mp hmem)
    rw [hget, hnone]
    rfl

theorem mem_stock_iter {it : ValidatorExitIterator} (h : iter st = .ok it)
    {y : NodeOperatorGlobalIndex × LidoValidator} :
    y ∈ stock it.exitableValidators ↔ st.IsOperator y.1 ∧ y.2 ∈ st.exitableOf y.1 := by
  rw [mem_stock]
  rcases @iter_exitable st y.1 it h with ⟨hget, hop⟩ | ⟨hget, hop⟩
  · simp [hget, hop]
  · simp [hget, hop]

/-- No index is on offer twice. -/
theorem stock_iter_nodup {it : ValidatorExitIterator} (h : iter st = .ok it)
    (hindex : (st.activeLidoValidators.map (·.index)).Nodup) :
    ((stock it.exitableValidators).map fun y => y.2.index).Nodup := by
  have hlist : ∀ e ∈ it.exitableValidators.entries, e.2 = st.exitableOf e.1 := by
    intro e he
    have hget := Dict.get?_eq_some_iff.mpr (show (e.1, e.2) ∈ it.exitableValidators.entries from he)
    rcases @iter_exitable st e.1 it h with ⟨hget', -⟩ | ⟨hget', -⟩
    · rw [hget, Option.some.injEq] at hget'
      exact hget'
    · rw [hget] at hget'
      cases hget'
  have hfiled := @StakingState.filed_nodup st hindex it.exitableValidators (fun e he v hv => by
    rw [hlist e he, StakingState.mem_exitableOf] at hv
    exact hv.1) fun e he => by
      rw [hlist e he]
      exact List.pairwise_map.mpr ((StakingState.exitableOf_ascending hindex).imp fun hlt => ne_of_lt hlt)
  rw [List.map_flatMap] at hfiled
  rw [stock, List.map_flatMap]
  simpa only [List.map_map, Function.comp_def] using hfiled

end ValidatorExitIterator

end LidoOracle
