import LidoOracle.ExitOrder.Groups

/-! The initial statistics in closed form. Counting validators, setting the
weights, linking the groups and summing the modules' weights leave a frame that
does not depend on any balance, shifted by what was counted. -/

namespace LidoOracle

/-- What a pending validator will hold: its deposits, capped -/
def pendingBalance : List PendingDeposit → Gwei
  | [] => 0
  | first :: deposits => min ((first :: deposits).map (·.amount)).sum
    (if hasCredentialPrefix first.withdrawalCredentials ETH1_ADDRESS_WITHDRAWAL_PREFIX
      then MAX_EFFECTIVE_BALANCE else MAX_EFFECTIVE_BALANCE_ELECTRA)

/-- The operator that a pending key belongs to -/
def StakingState.pendingGid (st : StakingState) (lidoKey : LidoKey) : NodeOperatorGlobalIndex :=
  (((st.getStakingModulesByAddress.get? lidoKey.moduleAddress).map (·.id)).getD 0,
    lidoKey.operatorIndex)

namespace Delta

def ofExitable (gid : NodeOperatorGlobalIndex) (validators : List LidoValidator) : Delta :=
  count gid validators.length +
    (validators.map fun v => credit gid (getPredictableInboundBalance v)).sum

def ofPending (gid : NodeOperatorGlobalIndex) (deposits : List PendingDeposit) : Delta :=
  credit gid (pendingBalance deposits) + count gid 1

/-- Everything counted for the exitable and the pending validators -/
def counted (st : StakingState) (exitable : Dict NodeOperatorGlobalIndex (List LidoValidator)) :
    Delta :=
  (exitable.entries.map fun e => ofExitable e.1 e.2).sum +
    (st.pendingLidoValidators.values.map fun p => ofPending (st.pendingGid p.1) p.2).sum

end Delta

namespace ValidatorExitIterator

section Counting

variable {it it' : ValidatorExitIterator}

theorem calculateCurrentClBalance_ok_iff :
    it.calculateCurrentClBalance = .ok it' ↔
      (∀ e ∈ it.exitableValidators.entries, e.1 ∈ it.nodeOperatorsStats ∧
        ∀ v ∈ e.2, e.1.1 ∈ it.moduleStats ∧ e.1 ∈ it.nodeOperatorsStats) ∧
      it' = it.shift (it.exitableValidators.entries.map fun e => Delta.ofExitable e.1 e.2).sum := by
  refine foldlM_shift_ok_iff fun d e it' => ?_
  rw [Except.bind_eq_ok]
  have hinner : ∀ {it₁ : ValidatorExitIterator},
      it₁ = (it.shift d).shift (Delta.count e.1 e.2.length) →
      ((e.2.foldlM (fun it v => it.addPredictableBalance e.1 (getPredictableInboundBalance v)) it₁) =
        .ok it' ↔ (∀ v ∈ e.2, e.1.1 ∈ it.moduleStats ∧ e.1 ∈ it.nodeOperatorsStats) ∧
          it' = it₁.shift
            (e.2.map fun v => Delta.credit e.1 (getPredictableInboundBalance v)).sum) := by
    rintro _ rfl
    refine foldlM_shift_ok_iff fun d' v it' => ?_
    rw [addPredictableBalance_ok_iff]
    simp
  constructor
  · rintro ⟨it₁, h₁, h⟩
    obtain ⟨hk, rfl⟩ := addPredictableValidators_ok_iff.mp h₁
    obtain ⟨hv, rfl⟩ := (hinner rfl).mp h
    exact ⟨⟨by simpa using hk, hv⟩, shift_shift _ _ _⟩
  · rintro ⟨⟨hk, hv⟩, rfl⟩
    refine ⟨_, addPredictableValidators_ok_iff.mpr ⟨by simpa using hk, rfl⟩, (hinner rfl).mpr ⟨hv, ?_⟩⟩
    exact (shift_shift _ _ _).symm

theorem pendingPredictableBalance_ok_iff {deposits : List PendingDeposit} {x : Gwei} :
    pendingPredictableBalance deposits = .ok x ↔ deposits ≠ [] ∧ x = pendingBalance deposits := by
  cases deposits with
  | nil => simp [pendingPredictableBalance, Py.listItem]
  | cons first deposits =>
    have hx : pendingPredictableBalance (first :: deposits) =
        .ok (pendingBalance (first :: deposits)) := rfl
    rw [hx, Except.ok.injEq]
    exact ⟨fun h => ⟨List.cons_ne_nil _ _, h.symm⟩, fun h => h.2.symm⟩

theorem calculatePendingValidatorClBalance_ok_iff {st : StakingState} :
    calculatePendingValidatorClBalance st it = .ok it' ↔
      (∀ p ∈ st.pendingLidoValidators.values,
        p.1.moduleAddress ∈ st.getStakingModulesByAddress ∧ p.2 ≠ [] ∧
          (st.pendingGid p.1).1 ∈ it.moduleStats ∧ st.pendingGid p.1 ∈ it.nodeOperatorsStats) ∧
      it' = it.shift (st.pendingLidoValidators.values.map fun p =>
        Delta.ofPending (st.pendingGid p.1) p.2).sum := by
  refine foldlM_shift_ok_iff fun d p it' => ?_
  simp only [addPendingValidator, Except.bind_eq_ok, Py.getItem_eq_ok,
    pendingPredictableBalance_ok_iff, addPredictableBalance_ok_iff,
    addPredictableValidators_ok_iff]
  have hgid : ∀ sm, st.getStakingModulesByAddress.get? p.1.moduleAddress = some sm →
      (sm.id, p.1.operatorIndex) = st.pendingGid p.1 := fun sm hsm => by
    simp [StakingState.pendingGid, hsm]
  constructor
  · rintro ⟨sm, hsm, _, ⟨hne, rfl⟩, _, ⟨⟨hm, hk⟩, rfl⟩, -, rfl⟩
    rw [hgid sm hsm] at hk ⊢
    refine ⟨⟨Dict.mem_of_get? hsm, hne, ?_, by simpa using hk⟩, shift_shift _ _ _⟩
    rw [← hgid sm hsm]
    simpa using hm
  · rintro ⟨⟨haddr, hne, hm, hk⟩, rfl⟩
    obtain ⟨sm, hsm⟩ := Dict.mem_iff_exists_get?.mp haddr
    rw [← hgid sm hsm] at hm hk ⊢
    exact ⟨sm, hsm, _, ⟨hne, rfl⟩, _, ⟨⟨by simpa using hm, by simpa using hk⟩, rfl⟩,
      by simpa using hk, (shift_shift _ _ _).symm⟩

end Counting

section Frame

variable {it it' : ValidatorExitIterator} {st : StakingState}

/-- The selection of the curated modules reads no running figure. -/
theorem fetchCuratedModules_shift (d : Delta) :
    fetchCuratedModules st (it.shift d) = fetchCuratedModules st it := by
  have hfilter : ∀ type name, (it.shift d).moduleStats.values.filter (isCuratedModule st type name) =
      ((it.moduleStats.entries.filter fun e => isCuratedModule st type name e.2).map
        fun e => e.2.shift e.1 d) := by
    intro type name
    rw [shift_moduleStats, Dict.values_mapKV, List.filter_map]
    rfl
  have hfilter₀ : ∀ type name, it.moduleStats.values.filter (isCuratedModule st type name) =
      ((it.moduleStats.entries.filter fun e => isCuratedModule st type name e.2).map Prod.snd) := by
    intro type name
    rw [Dict.values, List.filter_map]
    rfl
  simp only [fetchCuratedModules, hfilter, hfilter₀]
  generalize it.moduleStats.entries.filter
    (fun e => isCuratedModule st CURATED_V1_TYPE CURATED_V1_MODULE_NAME e.2) = l₁
  generalize it.moduleStats.entries.filter
    (fun e => isCuratedModule st CURATED_V2_TYPE CURATED_V2_MODULE_NAME e.2) = l₂
  rcases l₁ with _ | ⟨a, _ | ⟨b, l₁⟩⟩ <;> rcases l₂ with _ | ⟨c, _ | ⟨e, l₂⟩⟩ <;>
    simp [StakingModuleStats.shift, Function.comp_def]

def moduleOperatorIds (id : StakingModuleId) (it : ValidatorExitIterator) : List NodeOperatorId :=
  (it.nodeOperatorsStats.values.filter fun no => no.nodeOperator.stakingModule.id = id).map
    (·.nodeOperator.id)

theorem moduleOperatorIds_shift (id : StakingModuleId) (d : Delta) :
    moduleOperatorIds id (it.shift d) = moduleOperatorIds id it := by
  unfold moduleOperatorIds
  rw [shift_nodeOperatorsStats, Dict.values_mapKV, List.filter_map, List.map_map, Dict.values,
    List.filter_map, List.map_map]
  rfl

/-- The weights that the contract returned, in the order asked for -/
def setWeights (cmV2Id : StakingModuleId) (ids : List NodeOperatorId) (weights : List ℕ)
    (gid : NodeOperatorGlobalIndex) (no : NodeOperatorStats) : NodeOperatorStats :=
  ids.zipIdx.foldl (fun no p =>
    mark [(cmV2Id, p.1)] (fun no => { no with weight := (weights.getD p.2 0 : ℕ) }) gid no) no

theorem setWeights_shift {cmV2Id : StakingModuleId} {ids : List NodeOperatorId} {weights : List ℕ}
    (gid : NodeOperatorGlobalIndex) (no : NodeOperatorStats) (d : Delta) :
    setWeights cmV2Id ids weights gid (no.shift gid d) =
      (setWeights cmV2Id ids weights gid no).shift gid d := by
  unfold setWeights
  generalize ids.zipIdx = ps
  induction ps generalizing no with
  | nil => rfl
  | cons p ps ih =>
    rw [List.foldl_cons, List.foldl_cons, ← ih]
    congr 1
    unfold mark
    split_ifs <;> rfl

/-- A loop that rewrites records rewrites them one after the other. -/
theorem foldlM_map_ok_iff {α : Type} {step : ValidatorExitIterator → α → Iter ValidatorExitIterator}
    {C : α → Prop} {F : α → NodeOperatorGlobalIndex → NodeOperatorStats → NodeOperatorStats}
    (hstep : ∀ f x it', step (it.mapNodeOperators f) x = .ok it' ↔
      C x ∧ it' = (it.mapNodeOperators f).mapNodeOperators (F x)) {xs : List α} :
    xs.foldlM step it = .ok it' ↔ (∀ x ∈ xs, C x) ∧
      it' = it.mapNodeOperators fun k no => xs.foldl (fun no x => F x k no) no := by
  have hgen : ∀ f, xs.foldlM step (it.mapNodeOperators f) = .ok it' ↔ (∀ x ∈ xs, C x) ∧
      it' = it.mapNodeOperators fun k no => xs.foldl (fun no x => F x k no) (f k no) := by
    induction xs with
    | nil =>
      intro f
      rw [List.foldlM_nil, Except.pure_eq_ok]
      simp [eq_comm]
    | cons x xs ih =>
      intro f
      rw [ExceptRun.foldlM_cons_ok, List.forall_mem_cons]
      simp only [hstep, mapNodeOperators_mapNodeOperators]
      constructor
      · rintro ⟨_, ⟨hx, rfl⟩, h⟩
        obtain ⟨hxs, rfl⟩ := (ih _).mp h
        exact ⟨⟨hx, hxs⟩, rfl⟩
      · rintro ⟨⟨hx, hxs⟩, rfl⟩
        exact ⟨_, ⟨hx, rfl⟩, (ih _).mpr ⟨hxs, rfl⟩⟩
  simpa [mapNodeOperators_id (f := fun _ no => no)] using hgen fun _ no => no

theorem setupWeights_ok_iff {cmV2 : StakingModule} :
    setupWeights st cmV2 it = .ok it' ↔
      ((st.curatedContract cmV2.stakingModuleAddress).getNodeOperatorDepositInfoToUpdateCount = 0 ∧
        ∀ p ∈ (moduleOperatorIds cmV2.id it).zipIdx,
          p.2 < ((st.curatedContract cmV2.stakingModuleAddress).getOperatorWeights
            (moduleOperatorIds cmV2.id it)).length ∧ (cmV2.id, p.1) ∈ it.nodeOperatorsStats) ∧
      it' = it.mapNodeOperators (setWeights cmV2.id (moduleOperatorIds cmV2.id it)
        ((st.curatedContract cmV2.stakingModuleAddress).getOperatorWeights
          (moduleOperatorIds cmV2.id it))) := by
  unfold setupWeights
  rw [Except.guard_eq_ok, not_not, and_assoc]
  refine and_congr_right fun _ => ?_
  set weights := (st.curatedContract cmV2.stakingModuleAddress).getOperatorWeights
    (moduleOperatorIds cmV2.id it)
  refine foldlM_map_ok_iff
    (C := fun p : NodeOperatorId × ℕ => p.2 < weights.length ∧ (cmV2.id, p.1) ∈ it.nodeOperatorsStats)
    (F := fun p => mark [(cmV2.id, p.1)] fun no => { no with weight := (weights.getD p.2 0 : ℕ) })
    fun f p it' => ?_
  simp only [Except.bind_eq_ok, Py.listItem_eq_ok, modifyNodeOperator_ok_iff]
  constructor
  · rintro ⟨x, hx, hk, rfl⟩
    change weights[p.2]? = some x at hx
    have hx' : weights.getD p.2 0 = x := by rw [List.getD_eq_getElem?_getD, hx]; rfl
    rw [hx']
    exact ⟨⟨(List.getElem?_eq_some_iff.mp hx).1, by simpa using hk⟩, rfl⟩
  · rintro ⟨⟨hlt, hk⟩, rfl⟩
    refine ⟨_, List.getElem?_eq_getElem hlt, by simpa using hk, ?_⟩
    rw [List.getD_eq_getElem?_getD, List.getElem?_eq_getElem hlt]
    rfl

def weightIn (id : StakingModuleId)
    (entries : List (NodeOperatorGlobalIndex × NodeOperatorStats)) : ℚ :=
  (entries.map fun e => if e.1.1 = id then e.2.weight else 0).sum

/-- The operators' weights of one module -/
def moduleWeight (it : ValidatorExitIterator) (id : StakingModuleId) : ℚ :=
  weightIn id it.nodeOperatorsStats.entries

def addSmWeights (it : ValidatorExitIterator) : ValidatorExitIterator :=
  { it with moduleStats := it.moduleStats.mapKV fun id sm =>
    { sm with totalWeight := sm.totalWeight + it.moduleWeight id } }

theorem moduleWeight_shift (d : Delta) : (it.shift d).moduleWeight = it.moduleWeight := by
  funext id
  rw [moduleWeight, weightIn, shift_nodeOperatorsStats, Dict.entries_mapKV, List.map_map]
  rfl

theorem addSmWeights_shift (it : ValidatorExitIterator) (d : Delta) : (it.shift d).addSmWeights = it.addSmWeights.shift d := by
  unfold addSmWeights
  rw [moduleWeight_shift]
  simp [shift, StakingModuleStats.shift]

theorem calculateSmWeights_ok_iff :
    it.calculateSmWeights = .ok it' ↔
      (∀ e ∈ it.nodeOperatorsStats.entries, e.1.1 ∈ it.moduleStats) ∧ it' = it.addSmWeights := by
  unfold calculateSmWeights addSmWeights moduleWeight
  generalize it.nodeOperatorsStats.entries = es
  induction es generalizing it with
  | nil =>
    rw [List.foldlM_nil, Except.pure_eq_ok, Dict.mapKV_id fun id sm _ => by simp [weightIn]]
    simp [eq_comm]
  | cons e es ih =>
    rw [ExceptRun.foldlM_cons_ok, List.forall_mem_cons]
    simp only [modifyModule_ok_iff, ih]
    have hmod : ((it.moduleStats.modify e.1.1 fun sm =>
        { sm with totalWeight := sm.totalWeight + e.2.weight }).mapKV fun id sm =>
          { sm with totalWeight := sm.totalWeight + weightIn id es }) =
        it.moduleStats.mapKV fun id sm =>
          { sm with totalWeight := sm.totalWeight + weightIn id (e :: es) } := by
      rw [Dict.modify, Dict.mapKV_mapKV]
      refine Dict.mapKV_congr fun id sm _ => ?_
      by_cases hk : id = e.1.1
      · simp [hk, weightIn, add_assoc]
      · simp [hk, weightIn, Ne.symm hk]
    constructor
    · rintro ⟨_, ⟨hk, rfl⟩, hks, rfl⟩
      exact ⟨⟨hk, fun x hx => by simpa using hks x hx⟩, by rw [hmod]⟩
    · rintro ⟨⟨hk, hks⟩, rfl⟩
      exact ⟨_, ⟨hk, rfl⟩, fun x hx => by simpa using hks x hx, by rw [hmod]⟩

end Frame

section Closed

variable (st : StakingState) (cmV1 cmV2 : StakingModule)

/-- Before anything is counted -/
def initial : ValidatorExitIterator where
  moduleStats := prepareModuleStats st
  nodeOperatorsStats := prepareNodeOperatorStats st

def withExitable (it : ValidatorExitIterator)
    (exitable : Dict NodeOperatorGlobalIndex (List LidoValidator)) : ValidatorExitIterator :=
  { it with exitableValidators := exitable }

def metaGroups : List OperatorGroup :=
  (st.curatedContract cmV2.stakingModuleAddress).getAllGroups

def cmV2Weights : List ℕ :=
  (st.curatedContract cmV2.stakingModuleAddress).getOperatorWeights
    (moduleOperatorIds cmV2.id (initial st))

/-- With the weights that the curated module reports -/
def weighted : ValidatorExitIterator :=
  (initial st).mapNodeOperators
    (setWeights cmV2.id (moduleOperatorIds cmV2.id (initial st)) (cmV2Weights st cmV2))

/-- With the links of all groups and the weights they set -/
def linked : ValidatorExitIterator :=
  (weighted st cmV2).mapNodeOperators
    (linkAll cmV2.id (weighted st cmV2).weightOf (metaGroups st cmV2))

/-- With links, final weights and module weights: everything but what is counted -/
def frame : ValidatorExitIterator :=
  { (linked st cmV2).addSmWeights with cmV2Id := cmV2.id }

/-- What counting a delta posts once the groups have shared it -/
def posted (d : Delta) : Delta :=
  d + ((metaGroups st cmV2).map fun group =>
    group.delta cmV2.id cmV1.id (weighted st cmV2).weightOf d.noBalance).sum

/-- The configuration checks behind a successful initialization -/
structure Checks (exitable : Dict NodeOperatorGlobalIndex (List LidoValidator)) : Prop where
  exitable : ∀ e ∈ exitable.entries, e.1 ∈ prepareNodeOperatorStats st ∧
    ∀ v ∈ e.2, e.1.1 ∈ prepareModuleStats st ∧ e.1 ∈ prepareNodeOperatorStats st
  pending : ∀ p ∈ st.pendingLidoValidators.values,
    p.1.moduleAddress ∈ st.getStakingModulesByAddress ∧ p.2 ≠ [] ∧
      (st.pendingGid p.1).1 ∈ prepareModuleStats st ∧
      st.pendingGid p.1 ∈ prepareNodeOperatorStats st
  curated : fetchCuratedModules st (initial st) = .ok (cmV1, cmV2)
  upToDate : (st.curatedContract cmV2.stakingModuleAddress).getNodeOperatorDepositInfoToUpdateCount = 0
  weights : ∀ p ∈ (moduleOperatorIds cmV2.id (initial st)).zipIdx,
    p.2 < (cmV2Weights st cmV2).length ∧ (cmV2.id, p.1) ∈ prepareNodeOperatorStats st
  linkable : ∀ group ∈ metaGroups st cmV2, Linkable cmV1.id cmV2.id (weighted st cmV2) group
  disjoint : ((metaGroups st cmV2).flatMap (OperatorGroup.gids cmV2.id)).Nodup
  modules : ∀ gid ∈ prepareNodeOperatorStats st, gid.1 ∈ prepareModuleStats st

variable {st cmV1 cmV2}

/-- A fresh record has counted nothing and belongs to no group. -/
theorem initial_get? {gid : NodeOperatorGlobalIndex} {no : NodeOperatorStats}
    (h : (prepareNodeOperatorStats st).get? gid = some no) :
    ∃ op, op.globalIndex = gid ∧ no = initNodeOperatorStats op := by
  have hmem := Dict.mem_of_mem_entries_ofList (Dict.get?_eq_some_iff.mp h)
  obtain ⟨op, -, heq⟩ := List.mem_map.mp hmem
  cases heq
  exact ⟨op, rfl, rfl⟩

theorem initialModule_get? {id : StakingModuleId} {sm : StakingModuleStats}
    (h : (prepareModuleStats st).get? id = some sm) :
    ∃ m, m.id = id ∧ sm = { stakingModule := m } := by
  have hmem := Dict.mem_of_mem_entries_ofList (Dict.get?_eq_some_iff.mp h)
  obtain ⟨m, -, heq⟩ := List.mem_map.mp hmem
  cases heq
  exact ⟨m, rfl, rfl⟩

/-- The weights touch no other field. -/
theorem setWeights_eq (cmV2Id : StakingModuleId) (ids : List NodeOperatorId) (weights : List ℕ)
    (gid : NodeOperatorGlobalIndex) (no : NodeOperatorStats) :
    ∃ w, setWeights cmV2Id ids weights gid no = { no with weight := w } := by
  unfold setWeights
  generalize ids.zipIdx = ps
  induction ps generalizing no with
  | nil => exact ⟨no.weight, rfl⟩
  | cons p ps ih =>
    rw [List.foldl_cons]
    obtain ⟨w, hw⟩ := ih (mark [(cmV2Id, p.1)] (fun no => { no with
      weight := (weights.getD p.2 0 : ℕ) }) gid no)
    refine ⟨w, hw.trans ?_⟩
    unfold mark
    split_ifs <;> rfl

theorem weighted_balanceOf (gid : NodeOperatorGlobalIndex) : (weighted st cmV2).balanceOf gid = 0 := by
  have hset : (weighted st cmV2).balanceOf gid = (initial st).balanceOf gid :=
    balanceOf_mapNodeOperators fun no => by
      obtain ⟨w, hw⟩ := setWeights_eq cmV2.id (moduleOperatorIds cmV2.id (initial st))
        (cmV2Weights st cmV2) gid no
      rw [hw]
  rw [hset, balanceOf]
  cases h : (initial st).nodeOperatorsStats.get? gid with
  | none => rfl
  | some no =>
    obtain ⟨op, -, rfl⟩ := initial_get? h
    rfl

theorem shift_balanceOf {it : ValidatorExitIterator} {d : Delta} {gid : NodeOperatorGlobalIndex}
    (h : gid ∈ it.nodeOperatorsStats) : (it.shift d).balanceOf gid = it.balanceOf gid + d.noBalance gid := by
  obtain ⟨no, hno⟩ := Dict.mem_iff_exists_get?.mp h
  simp [balanceOf, hno, NodeOperatorStats.shift]

section Finalize

variable {exitable : Dict NodeOperatorGlobalIndex (List LidoValidator)} {d : Delta}
  {it : ValidatorExitIterator}

theorem setupWeights_initial_ok_iff {it : ValidatorExitIterator} :
    setupWeights st cmV2 (((initial st).withExitable exitable).shift d) = .ok it ↔
      ((st.curatedContract cmV2.stakingModuleAddress).getNodeOperatorDepositInfoToUpdateCount = 0 ∧
        ∀ p ∈ (moduleOperatorIds cmV2.id (initial st)).zipIdx,
          p.2 < (cmV2Weights st cmV2).length ∧ (cmV2.id, p.1) ∈ prepareNodeOperatorStats st) ∧
      it = ((weighted st cmV2).withExitable exitable).shift d := by
  rw [setupWeights_ok_iff, moduleOperatorIds_shift,
    mapNodeOperators_shift _ _ fun gid no => setWeights_shift gid no d]
  simp only [shift_nodeOperatorsStats, Dict.mem_mapKV]
  rfl

theorem linkable_counted_iff {group : OperatorGroup} :
    Linkable cmV1.id cmV2.id (((weighted st cmV2).withExitable exitable).shift d) group ↔
      Linkable cmV1.id cmV2.id (weighted st cmV2) group := by
  have hw : (((weighted st cmV2).withExitable exitable).shift d).weightOf = (weighted st cmV2).weightOf :=
    weightOf_shift d
  have hmod : ∀ id, id ∈ (((weighted st cmV2).withExitable exitable).shift d).moduleStats ↔
      id ∈ (weighted st cmV2).moduleStats := fun id => Dict.mem_mapKV
  constructor
  · exact fun h => h.of_agree (fun gid _ => ungrouped_shift.mp) (fun gid _ => by rw [hw])
      fun id => (hmod id).mp
  · exact fun h => h.of_agree (fun gid _ => ungrouped_shift.mpr) (fun gid _ => by rw [hw])
      fun id => (hmod id).mpr

theorem setupMetaConnections_weighted_ok_iff :
    setupMetaConnections st cmV1 cmV2 (((weighted st cmV2).withExitable exitable).shift d) = .ok it ↔
      ((∀ group ∈ metaGroups st cmV2, Linkable cmV1.id cmV2.id (weighted st cmV2) group) ∧
        ((metaGroups st cmV2).flatMap (OperatorGroup.gids cmV2.id)).Nodup) ∧
      it = ((linked st cmV2).withExitable exitable).shift (posted st cmV1 cmV2 d) := by
  refine processGroups_ok_iff.trans ?_
  simp only [linkable_counted_iff]
  refine and_congr_right fun hlink => ?_
  -- the members of a linkable group have records, so their balance is what was counted
  have hdelta : ((metaGroups st cmV2).map fun group => group.delta cmV2.id cmV1.id
        (((weighted st cmV2).withExitable exitable).shift d).weightOf
        (((weighted st cmV2).withExitable exitable).shift d).balanceOf) =
      (metaGroups st cmV2).map fun group =>
        group.delta cmV2.id cmV1.id (weighted st cmV2).weightOf d.noBalance := by
    refine List.map_congr_left fun group hg => ?_
    rw [weightOf_shift]
    refine OperatorGroup.delta_congr_balance fun gid hgid => ?_
    have hmem : gid ∈ ((weighted st cmV2).withExitable exitable).nodeOperatorsStats :=
      ((hlink.1 group hg).ungrouped gid hgid).mem
    rw [shift_balanceOf hmem]
    exact (congrArg (· + d.noBalance gid) (weighted_balanceOf gid)).trans (zero_add _)
  unfold metaGroups at hdelta
  rw [hdelta, weightOf_shift, mapNodeOperators_shift _ _ fun gid no => linkAll_shift gid no d,
    shift_shift]
  rfl

/-- The last stage starts from links and counted figures and adds the modules' weights. -/
theorem calculateSmWeights_linked_ok_iff :
    calculateSmWeights { ((linked st cmV2).withExitable exitable).shift d with cmV2Id := cmV2.id } =
        .ok it ↔
      (∀ gid ∈ prepareNodeOperatorStats st, gid.1 ∈ prepareModuleStats st) ∧
        it = ((frame st cmV2).withExitable exitable).shift d := by
  set it₀ : ValidatorExitIterator :=
    { ((linked st cmV2).withExitable exitable).shift d with cmV2Id := cmV2.id } with hit₀
  have hkeys : it₀.nodeOperatorsStats.keys = (prepareNodeOperatorStats st).keys := by
    simp [hit₀, linked, withExitable, weighted, initial]
  have hmod : ∀ id, id ∈ it₀.moduleStats ↔ id ∈ prepareModuleStats st := fun id => Dict.mem_mapKV
  have hadd : it₀.addSmWeights = ((frame st cmV2).withExitable exitable).shift d :=
    addSmWeights_shift { (linked st cmV2).withExitable exitable with cmV2Id := cmV2.id } d
  rw [calculateSmWeights_ok_iff, hadd]
  refine and_congr_left fun _ => ?_
  simp only [hmod]
  constructor
  · intro h gid hgid
    rw [← Dict.mem_keys, ← hkeys] at hgid
    obtain ⟨e, he, rfl⟩ := List.mem_map.mp hgid
    exact h e he
  · intro h e he
    refine h e.1 ?_
    rw [← Dict.mem_keys, ← hkeys]
    exact List.mem_map_of_mem he

/-- The statistics are the frame, shifted by what was counted and shared. -/
theorem calculateFrom_ok_iff :
    calculateFrom st exitable = .ok it ↔ ∃ cmV1 cmV2, Checks st cmV1 cmV2 exitable ∧
      it = ((frame st cmV2).withExitable exitable).shift
        (posted st cmV1 cmV2 (Delta.counted st exitable)) := by
  set start := (initial st).withExitable exitable with hstart
  set counted := Delta.counted st exitable with hcounted
  constructor
  · intro h
    obtain ⟨_, h₁, h⟩ := Except.bind_eq_ok.mp h
    obtain ⟨_, h₂, h⟩ := Except.bind_eq_ok.mp h
    obtain ⟨it₃, h₃, h₄⟩ := Except.bind_eq_ok.mp h
    obtain ⟨hex, rfl⟩ := calculateCurrentClBalance_ok_iff.mp h₁
    obtain ⟨hpend, rfl⟩ := calculatePendingValidatorClBalance_ok_iff.mp h₂
    rw [shift_shift] at h₃
    change finalizeCmV1AndCmV2Stats st (start.shift counted) = _ at h₃
    obtain ⟨⟨cmV1, cmV2⟩, hcur, h₃⟩ := Except.bind_eq_ok.mp h₃
    obtain ⟨_, hset, h₃⟩ := Except.bind_eq_ok.mp h₃
    obtain ⟨_, hmeta, h₃⟩ := Except.bind_eq_ok.mp h₃
    rw [fetchCuratedModules_shift] at hcur
    obtain ⟨⟨hcount, hw⟩, rfl⟩ := setupWeights_initial_ok_iff.mp hset
    obtain ⟨⟨hlink, hdis⟩, rfl⟩ := setupMetaConnections_weighted_ok_iff.mp hmeta
    rw [Except.pure_eq_ok] at h₃
    rw [← h₃] at h₄
    obtain ⟨hsm, rfl⟩ := calculateSmWeights_linked_ok_iff.mp h₄
    exact ⟨cmV1, cmV2, ⟨hex, by simpa using hpend, hcur, hcount, hw, hlink, hdis, hsm⟩, rfl⟩
  · rintro ⟨cmV1, cmV2, hc, rfl⟩
    have hpend := hc.pending
    have h₁ : start.calculateCurrentClBalance = .ok _ :=
      calculateCurrentClBalance_ok_iff.mpr ⟨hc.exitable, rfl⟩
    have h₂ : calculatePendingValidatorClBalance st (start.shift (start.exitableValidators.entries.map
        fun e => Delta.ofExitable e.1 e.2).sum) = .ok (start.shift counted) :=
      calculatePendingValidatorClBalance_ok_iff.mpr
        ⟨by simpa [hstart, withExitable, initial] using hpend, (shift_shift _ _ _).symm⟩
    have hcur : fetchCuratedModules st (start.shift counted) = .ok (cmV1, cmV2) := by
      rw [fetchCuratedModules_shift]
      exact hc.curated
    have hset : setupWeights st cmV2 (start.shift counted) = .ok _ :=
      setupWeights_initial_ok_iff.mpr ⟨⟨hc.upToDate, hc.weights⟩, rfl⟩
    have hmeta := (@setupMetaConnections_weighted_ok_iff st cmV1 cmV2 exitable counted _).mpr ⟨⟨hc.linkable, hc.disjoint⟩, rfl⟩
    have h₃ : finalizeCmV1AndCmV2Stats st (start.shift counted) =
        .ok { ((linked st cmV2).withExitable exitable).shift (posted st cmV1 cmV2 counted) with
          cmV2Id := cmV2.id } := by
      rw [finalizeCmV1AndCmV2Stats, hcur, Except.ok_bind]
      change (setupWeights st cmV2 _ >>= _) = _
      rw [hset, Except.ok_bind, hmeta, Except.ok_bind]
      rfl
    have h₄ := (@calculateSmWeights_linked_ok_iff st cmV2 exitable
      (posted st cmV1 cmV2 counted) _).mpr ⟨hc.modules, rfl⟩
    rw [calculateFrom, calculateLidoStats]
    change (start.calculateCurrentClBalance >>= _) = _
    rw [h₁, Except.ok_bind, h₂, Except.ok_bind, h₃, Except.ok_bind, h₄]

end Finalize

end Closed

end ValidatorExitIterator

end LidoOracle
