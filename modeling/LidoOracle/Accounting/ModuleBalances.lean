import LidoOracle.Accounting.ExitedValidators
import LidoOracle.LidoValidators.Provider

/-! The balances of a report by staking module, next to its flat sum over the
active validators. A validator whose operator the router does not know is in the
flat sum only. -/

namespace LidoOracle

namespace StakingState

variable {χ : Type} (st : StakingState)

/-- `module_stats[module_id] += validator.balance` -/
def addBalance (moduleId : StakingModuleId) (moduleStats : Dict StakingModuleId Gwei) (validator : LidoValidator) :
    Py χ (Dict StakingModuleId Gwei) :=
  Py.updateItem moduleStats moduleId (· + validator.balance)

def addBalances (moduleStats : Dict StakingModuleId Gwei) (e : NodeOperatorGlobalIndex × List LidoValidator) :
    Py χ (Dict StakingModuleId Gwei) :=
  e.2.foldlM (addBalance e.1.1) moduleStats

/-- `sm_by_address[module.staking_module_address].id` -/
def moduleIdAt (smByAddress : Dict ChecksumAddress StakingModule) (module : StakingModule) : Py χ StakingModuleId := do
  let sm ← Py.getItem smByAddress module.stakingModuleAddress
  return sm.id

def getBalancesByModules : Py χ (List StakingModuleId × List Gwei) := do
  let smByAddress := st.getStakingModulesByAddress
  let moduleIds ← smByAddress.values.mapM (moduleIdAt smByAddress)
  let moduleStats := Dict.ofList (moduleIds.map fun id => (id, 0))
  let validatorsByNo ← st.getLidoValidatorsByNodeOperators
  let moduleStats ← validatorsByNo.entries.foldlM addBalances moduleStats
  let items := Sorted.sortedBy Prod.fst moduleStats.entries
  return (items.map Prod.fst, items.map Prod.snd)

/-- The key names the module, and an operator that the router lists in it. -/
def InModule (module : StakingModule) (v : LidoValidator) : Prop :=
  v.lidoId.moduleAddress = module.stakingModuleAddress ∧
    ∃ no ∈ st.getAllNodeOperatorDigests module, no.id = v.lidoId.operatorIndex

instance (module : StakingModule) (v : LidoValidator) : Decidable (st.InModule module v) := by
  unfold InModule
  infer_instance

def HasOperator (v : LidoValidator) : Prop := ∃ module ∈ st.stakingModules, st.InModule module v

instance (v : LidoValidator) : Decidable (st.HasOperator v) := by
  unfold HasOperator
  infer_instance

section Balances

variable {st}

def balanceSum (validators : List LidoValidator) : Gwei := (validators.map (·.balance)).sum

theorem addBalances_ok {moduleStats moduleStats' : Dict StakingModuleId Gwei}
    {e : NodeOperatorGlobalIndex × List LidoValidator}
    (h : (addBalances moduleStats e : Py χ _) = .ok moduleStats') : moduleStats'.keys = moduleStats.keys ∧
      ∀ id, moduleStats'.totalAt id = moduleStats.totalAt id + if e.1.1 = id then balanceSum e.2 else 0 := by
  refine ExceptRun.foldlM_invariant (fun (pre : List LidoValidator) (stats : Dict StakingModuleId Gwei) =>
    stats.keys = moduleStats.keys ∧
      ∀ id, stats.totalAt id = moduleStats.totalAt id + if e.1.1 = id then balanceSum pre else 0)
    (fun pre v stats stats' hpre hstep => ?_) ⟨rfl, fun id => by simp [balanceSum]⟩ h
  obtain ⟨hmem, rfl⟩ := Py.updateItem_eq_ok.mp hstep
  refine ⟨by rw [Dict.keys_modify, hpre.1], fun id => ?_⟩
  rw [Dict.totalAt_modify hmem, hpre.2]
  by_cases hid : e.1.1 = id
  · simp [balanceSum, hid, add_assoc]
  · simp [hid, Ne.symm hid]

theorem foldlM_addBalances_ok {moduleStats moduleStats' : Dict StakingModuleId Gwei}
    {es : List (NodeOperatorGlobalIndex × List LidoValidator)}
    (h : (es.foldlM addBalances moduleStats : Py χ _) = .ok moduleStats') : moduleStats'.keys = moduleStats.keys ∧
      ∀ id, moduleStats'.totalAt id =
        moduleStats.totalAt id + Dict.amountAt (es.map fun e => (e.1.1, balanceSum e.2)) id := by
  refine ExceptRun.foldlM_invariant (fun pre (stats : Dict StakingModuleId Gwei) => stats.keys = moduleStats.keys ∧
      ∀ id, stats.totalAt id = moduleStats.totalAt id + Dict.amountAt (pre.map fun e => (e.1.1, balanceSum e.2)) id)
    (fun pre e stats stats' hpre hstep => ?_) ⟨rfl, fun id => by simp⟩ h
  obtain ⟨hkeys, htotal⟩ := addBalances_ok hstep
  refine ⟨hkeys.trans hpre.1, fun id => ?_⟩
  rw [htotal, hpre.2, List.map_append, Dict.amountAt_append, List.map_singleton, Dict.amountAt_singleton, add_assoc]

theorem Registered.values_stakingModules (h : st.Registered) :
    st.getStakingModulesByAddress.values = st.stakingModules := by
  have haddresses : ((st.stakingModules.map fun m => (m.stakingModuleAddress, m)).map Prod.fst).Nodup := by
    rw [List.map_map]
    exact h.moduleAddresses
  rw [getStakingModulesByAddress, Dict.values, Dict.entries_ofList haddresses, List.map_map]
  exact List.map_id' _

theorem Registered.moduleIds_eq (h : st.Registered) :
    (st.getStakingModulesByAddress.values.mapM (moduleIdAt st.getStakingModulesByAddress) : Py χ _) =
      .ok (st.stakingModules.map (·.id)) := by
  have haddresses : ((st.stakingModules.map fun m => (m.stakingModuleAddress, m)).map Prod.fst).Nodup := by
    rw [List.map_map]
    exact h.moduleAddresses
  have hid : ∀ module ∈ st.stakingModules,
      (moduleIdAt st.getStakingModulesByAddress module : Py χ _) = .ok module.id := by
    intro module hmodule
    have hmem : (module.stakingModuleAddress, module) ∈ st.getStakingModulesByAddress.entries := by
      rw [getStakingModulesByAddress, Dict.entries_ofList haddresses]
      exact List.mem_map_of_mem hmodule
    rw [moduleIdAt, Py.getItem_eq_ok.mpr (Dict.get?_eq_some_iff.mpr hmem)]
    rfl
  rw [h.values_stakingModules]
  exact ExceptRun.mapM_of_ok hid

/-- The services file each operator's validators under it. -/
theorem Registered.filed_perm (h : st.Registered) {validators : Dict NodeOperatorGlobalIndex (List LidoValidator)}
    (hvalidators : (st.getLidoValidatorsByNodeOperators : Py χ _) = .ok validators) :
    validators.entries.Perm (st.getLidoNodeOperators.map fun no => (no.globalIndex, st.validatorsOf no.globalIndex)) :=
  h.entries_perm (fun _ => mem_lidoValidators hvalidators) fun no hno => lidoValidators_get? hvalidators ⟨no, hno, rfl⟩

/-- What is filed under the operators of a module -/
theorem Registered.sum_validatorsOf (h : st.Registered) {module : StakingModule} (hmodule : module ∈ st.stakingModules) :
    ((st.getAllNodeOperatorDigests module).map fun no => balanceSum (st.validatorsOf no.globalIndex)).sum =
      balanceSum (st.activeLidoValidators.filter (st.InModule module)) := by
  have hnos : ∀ no ∈ st.getAllNodeOperatorDigests module, no ∈ st.getLidoNodeOperators := by
    intro no hno
    rw [h.lidoNodeOperators]
    exact List.mem_flatMap.mpr ⟨module, hmodule, hno⟩
  have hgroups : ((st.getAllNodeOperatorDigests module).map NodeOperator.globalIndex).Nodup := by
    refine List.Nodup.of_map Prod.snd ?_
    rw [getAllNodeOperatorDigests, List.map_map, List.map_map]
    exact h.operatorIds module hmodule
  have hsum := Dict.sum_groups hgroups st.gidOf (fun v => v.balance) st.activeLidoValidators
  rw [List.map_map] at hsum
  refine hsum.trans (congrArg balanceSum (List.filter_congr fun v _ => ?_))
  rw [decide_eq_decide, InModule]
  refine ⟨fun hfiled => ?_, fun hin => ?_⟩
  · obtain ⟨gid, hgid, hv⟩ := hfiled
    obtain ⟨no, hno, rfl⟩ := List.mem_map.mp hgid
    obtain ⟨haddress, hoperator⟩ := (h.gidOf_eq (hnos no hno) v).mp hv
    rw [stakingModule_of_mem hno] at haddress
    exact ⟨haddress, no, hno, hoperator.symm⟩
  · obtain ⟨haddress, no, hno, hid⟩ := hin
    refine ⟨no.globalIndex, List.mem_map_of_mem hno, (h.gidOf_eq (hnos no hno) v).mpr ⟨?_, hid.symm⟩⟩
    rw [stakingModule_of_mem hno, haddress]

/-- The modules' validators together are those with an operator. -/
theorem Registered.sum_inModule (h : st.Registered) :
    (st.stakingModules.map fun module => balanceSum (st.activeLidoValidators.filter (st.InModule module))).sum =
      balanceSum (st.activeLidoValidators.filter st.HasOperator) := by
  have hsum := Dict.sum_groups h.moduleAddresses (fun v : LidoValidator => some v.lidoId.moduleAddress)
    (fun v => v.balance) (st.activeLidoValidators.filter st.HasOperator)
  rw [List.map_map, List.filter_filter] at hsum
  have hall : (st.activeLidoValidators.filter fun v =>
      decide (∃ address ∈ st.stakingModules.map (·.stakingModuleAddress), some v.lidoId.moduleAddress = some address) &&
        decide (st.HasOperator v)) =
      st.activeLidoValidators.filter st.HasOperator := by
    refine List.filter_congr fun v _ => ?_
    rw [Bool.and_eq_right_iff_imp, decide_eq_true_iff, decide_eq_true_iff]
    rintro ⟨module, hmodule, haddress, -⟩
    exact ⟨module.stakingModuleAddress, List.mem_map_of_mem hmodule, congrArg some haddress⟩
  rw [hall] at hsum
  rw [balanceSum, ← hsum]
  refine congrArg List.sum (List.map_congr_left fun module hmodule => ?_)
  rw [Function.comp_apply, List.filter_filter, balanceSum]
  refine congrArg (fun l : List LidoValidator => (l.map (·.balance)).sum) (List.filter_congr fun v _ => ?_)
  rw [Bool.eq_iff_iff, Bool.and_eq_true, decide_eq_true_iff, decide_eq_true_iff, decide_eq_true_iff, Option.some.injEq]
  refine ⟨fun hin => ⟨hin.1, module, hmodule, hin⟩, fun ⟨haddress, module', hmodule', hin⟩ => ?_⟩
  have hsame := List.inj_on_of_nodup_map h.moduleAddresses hmodule' hmodule (hin.1.symm.trans haddress)
  exact hsame ▸ hin

/-- The balances that are reported, in the order of the ids -/
theorem Registered.balancesByModules (h : st.Registered) {ids : List StakingModuleId} {balances : List Gwei}
    (hbalances : (st.getBalancesByModules : Py χ _) = .ok (ids, balances)) :
    ids.Pairwise (· < ·) ∧ (ids.zip balances).Perm (st.stakingModules.map fun module =>
      (module.id, balanceSum (st.activeLidoValidators.filter (st.InModule module)))) ∧ ids.length = balances.length := by
  dsimp only [getBalancesByModules] at hbalances
  rw [h.moduleIds_eq, Except.ok_bind] at hbalances
  obtain ⟨validators, hvalidators, hbalances⟩ := Except.bind_eq_ok.mp hbalances
  obtain ⟨stats, hstats, hbalances⟩ := Except.bind_eq_ok.mp hbalances
  obtain ⟨rfl, rfl⟩ := Prod.mk.inj (Except.pure_eq_ok.mp hbalances)
  obtain ⟨hkeys, htotal⟩ := foldlM_addBalances_ok hstats
  have hzeros : ((st.stakingModules.map (·.id)).map fun id => (id, (0 : Gwei))).map Prod.fst =
      st.stakingModules.map (·.id) := by
    rw [List.map_map]
    exact List.map_id' _
  have hids : (((st.stakingModules.map (·.id)).map fun id => (id, (0 : Gwei))).map Prod.fst).Nodup := by
    rw [hzeros]
    exact h.moduleIds
  have hzero : ∀ id, (Dict.ofList ((st.stakingModules.map (·.id)).map fun id => (id, (0 : Gwei)))).totalAt id = 0 := by
    intro id
    rw [← Dict.amountAt_entries, Dict.entries_ofList hids]
    refine List.sum_eq_zero fun x hx => ?_
    obtain ⟨e, he, rfl⟩ := List.mem_map.mp hx
    obtain ⟨_, -, rfl⟩ := List.mem_map.mp he
    exact ite_self 0
  have hmodule : ∀ module ∈ st.stakingModules, stats.totalAt module.id =
      balanceSum (st.activeLidoValidators.filter (st.InModule module)) := by
    intro module hmodule
    rw [htotal, hzero, zero_add, Dict.amountAt_perm ((h.filed_perm hvalidators).map _), List.map_map, Dict.amountAt,
      List.map_map, ← h.sum_validatorsOf hmodule, ← h.sum_module hmodule]
    rfl
  have hentries : stats.entries = st.stakingModules.map fun module =>
      (module.id, balanceSum (st.activeLidoValidators.filter (st.InModule module))) := by
    rw [Dict.entries_eq_map_keys, hkeys, Dict.keys, Dict.entries_ofList hids, hzeros, List.map_map]
    exact List.map_congr_left fun module hm => Prod.ext rfl (hmodule module hm)
  refine ⟨List.pairwise_map.mpr (Sorted.pairwise_lt_sortedBy stats.nodupKeys), ?_,
    by rw [List.length_map, List.length_map]⟩
  rw [List.zip_map', List.map_id', ← hentries]
  exact Sorted.perm_sortedBy

/-- Balances by module and flat sum: the difference is what belongs to operators that the router does not list. -/
theorem getBalancesByModules_sum {view : BlockView} (h : st.Registered)
    (hactive : getActiveLidoValidators view = .ok st.activeLidoValidators) {total : Gwei}
    (htotal : getClValidatorsBalance view = .ok total) {ids : List StakingModuleId} {balances : List Gwei}
    (hbalances : (st.getBalancesByModules : Py χ _) = .ok (ids, balances)) :
    balances.sum + balanceSum (st.activeLidoValidators.filter fun v => ¬st.HasOperator v) = total ∧
    (balances.sum = total ↔ ∀ v ∈ st.activeLidoValidators, st.HasOperator v ∨ v.balance = 0) ∧
    ids.Pairwise (· < ·) ∧ ids.Perm (st.stakingModules.map (·.id)) ∧ ids.length = balances.length ∧
    (∀ module ∈ st.stakingModules,
      (module.id, balanceSum (st.activeLidoValidators.filter (st.InModule module))) ∈ ids.zip balances) ∧
    (∀ v ∈ st.activeLidoValidators, st.HasOperator v →
      ∃! module, module ∈ st.stakingModules ∧ st.InModule module v) := by
  obtain ⟨hsorted, hperm, hlength⟩ := h.balancesByModules hbalances
  have hids : ids.Perm (st.stakingModules.map (·.id)) := by
    have hfst := hperm.map Prod.fst
    rwa [List.map_fst_zip hlength.le, List.map_map] at hfst
  have hsum : balances.sum = balanceSum (st.activeLidoValidators.filter st.HasOperator) := by
    have hsnd := (hperm.map Prod.snd).sum_eq
    rw [List.map_snd_zip hlength.ge, List.map_map] at hsnd
    exact hsnd.trans h.sum_inModule
  have hflat : total = balanceSum st.activeLidoValidators := by
    rw [getClValidatorsBalance, hactive, Except.ok_bind] at htotal
    exact (Except.pure_eq_ok.mp htotal).symm
  have hsplit : balances.sum + balanceSum (st.activeLidoValidators.filter fun v => ¬st.HasOperator v) = total := by
    rw [hsum, hflat, balanceSum, balanceSum, balanceSum, ← List.sum_append, ← List.map_append]
    refine (List.Perm.map _ ?_).sum_eq
    have happend := List.filter_append_perm (fun v => decide (st.HasOperator v)) st.activeLidoValidators
    simpa only [decide_not] using happend
  refine ⟨hsplit, ?_, hsorted, hids, hlength, fun module hm => hperm.mem_iff.mpr (List.mem_map_of_mem hm),
    fun v _ ⟨module, hm, hin⟩ => ⟨module, ⟨hm, hin⟩, fun other ⟨hother, hin'⟩ => ?_⟩⟩
  · rw [← hsplit, left_eq_add, balanceSum, List.sum_eq_zero_iff]
    refine ⟨fun hzero v hv => ?_, fun hall x hx => ?_⟩
    · by_cases hoperator : st.HasOperator v
      · exact .inl hoperator
      · exact .inr (hzero _ (List.mem_map_of_mem (List.mem_filter.mpr ⟨hv, decide_eq_true hoperator⟩)))
    · obtain ⟨v, hv, rfl⟩ := List.mem_map.mp hx
      obtain ⟨hv, hoperator⟩ := List.mem_filter.mp hv
      exact (hall v hv).resolve_left (of_decide_eq_true hoperator)
  · exact List.inj_on_of_nodup_map h.moduleAddresses hother hm (hin'.1.symm.trans hin.1)

/-- A validator of each of two modules; the key of the second one names an operator that is not listed. -/
def unlistedView : BlockView where
  usedKeys := [⟨⟨0, "0xaa", 0, "0x51"⟩, true⟩, ⟨⟨0, "0xbb", 7, "0x52"⟩, true⟩]
  depositedValidators := 2
  validators := [⟨0, 32000000000, ⟨"0xaa", "0x01", 32000000000, false, 0, 0, 9, 9, by decide⟩⟩,
    ⟨1, 31000000000, ⟨"0xbb", "0x01", 31000000000, false, 0, 0, 9, 9, by decide⟩⟩]
  pendingDeposits := []
  pendingConsolidations := []

def unlistedState : StakingState where
  stakingModules := [⟨1, "0x51", "first", 0, 10000⟩, ⟨2, "0x52", "second", 0, 10000⟩]
  nodeOperatorDigests _ := [⟨0, 0, 0, 0⟩]
  curatedContract _ := ⟨[], 0, fun _ => [], []⟩
  activeLidoValidators :=
    [{ index := 0, balance := 32000000000, lidoId := ⟨0, "0xaa", 0, "0x51"⟩, pendingTopups := []
       validator := ⟨"0xaa", "0x01", 32000000000, false, 0, 0, 9, 9, by decide⟩
       consolidatingAsSource := none, consolidatingAsTarget := [] },
      { index := 1, balance := 31000000000, lidoId := ⟨0, "0xbb", 7, "0x52"⟩, pendingTopups := []
        validator := ⟨"0xbb", "0x01", 31000000000, false, 0, 0, 9, 9, by decide⟩
        consolidatingAsSource := none, consolidatingAsTarget := [] }]
  pendingLidoValidators := Dict.empty
  validatorExitRequests := []
  maxBalanceExitRequestedPerReportInEth := 0

theorem unlistedState_registered : unlistedState.Registered where
  moduleIds := by decide
  moduleAddresses := by decide
  operatorIds := by decide

theorem getBalancesByModules_sum_unlisted :
    (unlistedState.getBalancesByModules : Py Empty _) = .ok ([1, 2], [32000000000, 0]) ∧
    getClValidatorsBalance unlistedView = .ok 63000000000 ∧
    32000000000 + balanceSum (unlistedState.activeLidoValidators.filter fun v => ¬unlistedState.HasOperator v) =
      63000000000 ∧
    (¬∀ v ∈ unlistedState.activeLidoValidators, unlistedState.HasOperator v ∨ v.balance = 0) ∧
    ∀ module ∈ unlistedState.stakingModules,
      (module.id, balanceSum (unlistedState.activeLidoValidators.filter (unlistedState.InModule module))) ∈
        [(1, 32000000000), (2, 0)] := by
  have hbalances : (unlistedState.getBalancesByModules : Py Empty _) = .ok ([1, 2], [32000000000, 0]) := rfl
  obtain ⟨hsum, hequal, -, -, -, hmodules, -⟩ := getBalancesByModules_sum unlistedState_registered
    (rfl : getActiveLidoValidators unlistedView = .ok unlistedState.activeLidoValidators)
    (rfl : getClValidatorsBalance unlistedView = .ok 63000000000) hbalances
  exact ⟨hbalances, rfl, hsum, fun hall => absurd (hequal.mpr hall) (by decide), hmodules⟩

/-- Both computations succeed, and the second validator is in the flat sum only. -/
theorem getBalancesByModules_unlisted : unlistedState.Registered ∧
    getActiveLidoValidators unlistedView = .ok unlistedState.activeLidoValidators ∧
    getClValidatorsBalance unlistedView = .ok 63000000000 ∧
    (unlistedState.getBalancesByModules : Py Empty _) = .ok ([1, 2], [32000000000, 0]) ∧
    ([32000000000, 0] : List Gwei).sum ≠ 63000000000 :=
  ⟨unlistedState_registered, rfl, rfl, rfl, by decide⟩

end Balances

end StakingState

end LidoOracle
