import LidoOracle.ExitOrder.Selection

/-! The weights behind the divisors of the exit order: those that the second
curated module reports, and those that groups set for the first. -/

namespace LidoOracle

namespace StakingState

variable (st : StakingState) (cmV2 : StakingModule)

/-- The operators of a module, in the order in which their weights are asked for -/
def operatorIds : List NodeOperatorId :=
  ValidatorExitIterator.moduleOperatorIds cmV2.id (ValidatorExitIterator.initial st)

/-- The weight that the curated module reports for one of its operators -/
def operatorWeight (id : NodeOperatorId) : ℕ :=
  ((st.curatedContract cmV2.stakingModuleAddress).getOperatorWeights (st.operatorIds cmV2)).getD
    ((st.operatorIds cmV2).idxOf id) 0

end StakingState

/-- Every connected group, and the second curated module unless it is empty, has an
operator of positive weight. -/
structure WeightsPositive (st : StakingState) : Prop where
  groups : ∀ cmV1 cmV2, ValidatorExitIterator.fetchCuratedModules st
      (ValidatorExitIterator.initial st) = .ok (cmV1, cmV2) →
    ∀ group ∈ (st.curatedContract cmV2.stakingModuleAddress).getAllGroups, group.hasConnection →
      ∃ op ∈ group.subNodeOperators, 0 < st.operatorWeight cmV2 op.nodeOperatorId
  module : ∀ cmV1 cmV2, ValidatorExitIterator.fetchCuratedModules st
      (ValidatorExitIterator.initial st) = .ok (cmV1, cmV2) →
    st.operatorIds cmV2 ≠ [] → ∃ id ∈ st.operatorIds cmV2, 0 < st.operatorWeight cmV2 id

namespace ValidatorExitIterator

variable {st : StakingState} {cmV1 cmV2 : StakingModule} {gid : NodeOperatorGlobalIndex}
  {id : NodeOperatorId}

section Reported

/-- The ids asked for are those of the module's records. -/
theorem operatorIds_eq : st.operatorIds cmV2 =
    ((prepareNodeOperatorStats st).keys.filter (·.1 = cmV2.id)).map Prod.snd := by
  have hrec : ∀ e ∈ (prepareNodeOperatorStats st).entries, e.2.nodeOperator.globalIndex = e.1 := by
    intro e he
    obtain ⟨op, hop, hno⟩ := initial_get? (Dict.get?_eq_some_iff.mpr
      (show (e.1, e.2) ∈ (prepareNodeOperatorStats st).entries from he))
    rw [hno]
    exact hop
  unfold StakingState.operatorIds moduleOperatorIds initial Dict.values Dict.keys
  rw [List.filter_map, List.filter_map, List.map_map, List.map_map]
  have hfilter : (prepareNodeOperatorStats st).entries.filter
        ((fun no : NodeOperatorStats => decide (no.nodeOperator.stakingModule.id = cmV2.id)) ∘ Prod.snd) =
      (prepareNodeOperatorStats st).entries.filter
        ((fun gid : NodeOperatorGlobalIndex => decide (gid.1 = cmV2.id)) ∘ Prod.fst) := by
    refine List.filter_congr fun e he => ?_
    simp only [Function.comp_apply, ← hrec e he, NodeOperator.globalIndex]
  dsimp only at hfilter ⊢
  rw [hfilter]
  refine List.map_congr_left fun e he => ?_
  simp only [Function.comp_apply, ← hrec e (List.mem_of_mem_filter he), NodeOperator.globalIndex]

theorem mem_operatorIds :
    id ∈ st.operatorIds cmV2 ↔ (cmV2.id, id) ∈ prepareNodeOperatorStats st := by
  rw [operatorIds_eq, List.mem_map]
  constructor
  · rintro ⟨gid, hgid, rfl⟩
    obtain ⟨hmem, hid⟩ := List.mem_filter.mp hgid
    rw [← of_decide_eq_true hid]
    exact hmem
  · exact fun h => ⟨(cmV2.id, id), List.mem_filter.mpr ⟨h, decide_eq_true rfl⟩, rfl⟩

theorem operatorIds_nodup : (st.operatorIds cmV2).Nodup := by
  rw [operatorIds_eq]
  refine List.Nodup.map_on (fun a ha b hb hab => ?_) ((Dict.keys_nodup _).filter _)
  have hidA := of_decide_eq_true (List.mem_filter.mp ha).2
  have hidB := of_decide_eq_true (List.mem_filter.mp hb).2
  exact Prod.ext (hidA.trans hidB.symm) hab

/-- Each operator asked for gets the weight at its own position. -/
theorem setWeights_of_mem {cmV2Id : StakingModuleId} {ids : List NodeOperatorId} {weights : List ℕ}
    (hnd : ids.Nodup) (h : id ∈ ids) (no : NodeOperatorStats) :
    setWeights cmV2Id ids weights (cmV2Id, id) no =
      { no with weight := (weights.getD (ids.idxOf id) 0 : ℕ) } := by
  have hother : ∀ (ids : List NodeOperatorId) (n : ℕ) (no : NodeOperatorStats), id ∉ ids →
      (ids.zipIdx n).foldl (fun no p => mark [(cmV2Id, p.1)] (fun no => { no with
        weight := (weights.getD p.2 0 : ℕ) }) (cmV2Id, id) no) no = no := by
    intro ids
    induction ids with
    | nil => exact fun _ _ _ => rfl
    | cons a ids ih =>
      intro n no hid
      rw [List.mem_cons, not_or] at hid
      rw [List.zipIdx_cons, List.foldl_cons, ih _ _ hid.2]
      simp [mark, hid.1]
  have hgen : ∀ (ids : List NodeOperatorId) (n : ℕ) (no : NodeOperatorStats), ids.Nodup → id ∈ ids →
      (ids.zipIdx n).foldl (fun no p => mark [(cmV2Id, p.1)] (fun no => { no with
        weight := (weights.getD p.2 0 : ℕ) }) (cmV2Id, id) no) no =
      { no with weight := (weights.getD (n + ids.idxOf id) 0 : ℕ) } := by
    intro ids
    induction ids with
    | nil => exact fun _ _ _ h => absurd h (List.not_mem_nil)
    | cons a ids ih =>
      intro n no hnd hid
      rw [List.nodup_cons] at hnd
      rw [List.zipIdx_cons, List.foldl_cons]
      by_cases ha : id = a
      · subst ha
        rw [hother ids _ _ hnd.1]
        simp [mark]
      · rw [ih _ _ hnd.2 ((List.mem_cons.mp hid).resolve_left ha)]
        rw [List.idxOf_cons_ne _ (Ne.symm ha)]
        simp [mark, ha, Nat.add_comm, Nat.add_left_comm]
  have := hgen ids 0 no hnd h
  rwa [Nat.zero_add] at this

theorem setWeights_of_not_mem {cmV2Id : StakingModuleId} {ids : List NodeOperatorId}
    {weights : List ℕ} (h : gid.1 ≠ cmV2Id) (no : NodeOperatorStats) :
    setWeights cmV2Id ids weights gid no = no := by
  unfold setWeights
  generalize ids.zipIdx = ps
  induction ps generalizing no with
  | nil => rfl
  | cons p ps ih =>
    have hne : gid ≠ (cmV2Id, p.1) := fun heq => h (congrArg Prod.fst heq)
    rw [List.foldl_cons, ih]
    simp [mark, hne]

theorem weighted_weightOf_cmV2 (h : id ∈ st.operatorIds cmV2) :
    (weighted st cmV2).weightOf (cmV2.id, id) = st.operatorWeight cmV2 id := by
  obtain ⟨no, hno⟩ := Dict.mem_iff_exists_get?.mp (mem_operatorIds.mp h)
  have hget : (weighted st cmV2).nodeOperatorsStats.get? (cmV2.id, id) =
      some { no with weight := (st.operatorWeight cmV2 id : ℕ) } := by
    rw [weighted, mapNodeOperators_nodeOperatorsStats, Dict.get?_mapKV,
      show (initial st).nodeOperatorsStats = prepareNodeOperatorStats st from rfl, hno, Option.map_some]
    exact congrArg some (setWeights_of_mem operatorIds_nodup h no)
  exact weightOf_of_get? hget

/-- Operators of other modules keep the weight they start with. -/
theorem weighted_weightOf_other (h : gid ∈ prepareNodeOperatorStats st) (hne : gid.1 ≠ cmV2.id) :
    (weighted st cmV2).weightOf gid = 10 * TOTAL_BASIS_POINTS := by
  obtain ⟨no, hno⟩ := Dict.mem_iff_exists_get?.mp h
  obtain ⟨op, -, hop⟩ := initial_get? hno
  have hget : (weighted st cmV2).nodeOperatorsStats.get? gid = some no := by
    rw [weighted, mapNodeOperators_nodeOperatorsStats, Dict.get?_mapKV,
      show (initial st).nodeOperatorsStats = prepareNodeOperatorStats st from rfl, hno, Option.map_some,
      setWeights_of_not_mem hne]
  rw [weightOf_of_get? hget, hop]
  rfl

end Reported

section Curated

/-- The selected modules are routed under their own ids and bear the names looked for. -/
theorem fetchCuratedModules_ok (h : fetchCuratedModules st (initial st) = .ok (cmV1, cmV2)) :
    ((prepareModuleStats st).get? cmV1.id = some { stakingModule := cmV1 } ∧
      cmV1.name = CURATED_V1_MODULE_NAME) ∧
    ((prepareModuleStats st).get? cmV2.id = some { stakingModule := cmV2 } ∧
      cmV2.name = CURATED_V2_MODULE_NAME) := by
  have hmem : ∀ (type : List UInt8) (name : String) (sm : StakingModuleStats),
      (initial st).moduleStats.values.filter (isCuratedModule st type name) = [sm] →
      (prepareModuleStats st).get? sm.stakingModule.id = some { stakingModule := sm.stakingModule } ∧
        sm.stakingModule.name = name := by
    intro type name sm hfilter
    obtain ⟨hsm, hcur⟩ := List.mem_filter.mp (hfilter ▸ List.mem_singleton_self sm)
    obtain ⟨e, he, rfl⟩ := List.mem_map.mp hsm
    have hget := Dict.get?_eq_some_iff.mpr (show (e.1, e.2) ∈ (prepareModuleStats st).entries from he)
    obtain ⟨m, hm, hstats⟩ := initialModule_get? hget
    rw [isCuratedModule, Bool.and_eq_true, beq_iff_eq, beq_iff_eq] at hcur
    refine ⟨?_, hcur.2⟩
    rw [hstats] at hget ⊢
    rw [hm]
    exact hget
  unfold fetchCuratedModules at h
  dsimp only at h
  split at h
  · rename_i sm₁ sm₂ h₁ h₂
    cases h
    exact ⟨hmem _ _ _ h₁, hmem _ _ _ h₂⟩
  · cases h

theorem cmV1_ne_cmV2 (h : fetchCuratedModules st (initial st) = .ok (cmV1, cmV2)) :
    cmV1.id ≠ cmV2.id := by
  obtain ⟨⟨h₁, hname₁⟩, h₂, hname₂⟩ := fetchCuratedModules_ok h
  intro heq
  rw [heq, h₂, Option.some.injEq, StakingModuleStats.mk.injEq] at h₁
  rw [← h₁.1, hname₂] at hname₁
  exact absurd hname₁ (by decide)

end Curated

section Linked

variable {exitable : Dict NodeOperatorGlobalIndex (List LidoValidator)}

theorem weighted_nonneg (h : gid ∈ prepareNodeOperatorStats st) :
    0 ≤ (weighted st cmV2).weightOf gid := by
  by_cases hid : gid.1 = cmV2.id
  · obtain ⟨moduleId, id⟩ := gid
    subst hid
    rw [weighted_weightOf_cmV2 (mem_operatorIds.mpr h)]
    exact Nat.cast_nonneg _
  · rw [weighted_weightOf_other h hid]
    norm_num [TOTAL_BASIS_POINTS]

/-- A sum of reported weights is positive exactly when one of them is. -/
theorem internalWeight_ne_zero_iff {group : OperatorGroup}
    (h : ∀ gid ∈ group.internalGids cmV2.id, gid ∈ prepareNodeOperatorStats st) :
    group.internalWeight cmV2.id (weighted st cmV2).weightOf ≠ 0 ↔
      ∃ op ∈ group.subNodeOperators, 0 < st.operatorWeight cmV2 op.nodeOperatorId := by
  have hw : ∀ op ∈ group.subNodeOperators, (weighted st cmV2).weightOf (cmV2.id, op.nodeOperatorId) =
      st.operatorWeight cmV2 op.nodeOperatorId := fun op hop =>
    weighted_weightOf_cmV2 (mem_operatorIds.mpr (h _ (List.mem_map_of_mem hop)))
  have hsum : group.internalWeight cmV2.id (weighted st cmV2).weightOf =
      ((group.subNodeOperators.map fun op => st.operatorWeight cmV2 op.nodeOperatorId).sum : ℕ) := by
    rw [OperatorGroup.internalWeight, OperatorGroup.internalGids, List.map_map, Nat.cast_list_sum,
      List.map_map]
    exact congrArg List.sum (List.map_congr_left hw)
  rw [hsum, Nat.cast_ne_zero, Ne, List.sum_eq_zero_iff]
  simp [Nat.pos_iff_ne_zero]

variable (hc : Checks st cmV1 cmV2 exitable)
include hc

/-- Linking reweights external operators only, and those are in the first module. -/
theorem linked_weightOf_cmV2 (h : id ∈ st.operatorIds cmV2) :
    (linked st cmV2).weightOf (cmV2.id, id) = st.operatorWeight cmV2 id := by
  rw [← weighted_weightOf_cmV2 h]
  refine weightOf_mapNodeOperators fun no => ?_
  by_cases hg : ∃ g ∈ metaGroups st cmV2, (cmV2.id, id) ∈ g.gids cmV2.id
  · obtain ⟨g, hg, hgid⟩ := hg
    have hE : (cmV2.id, id) ∉ g.externalGids := by
      intro hE
      obtain ⟨op, hop, heq⟩ := List.mem_map.mp hE
      refine cmV1_ne_cmV2 hc.curated ?_
      rw [← ((hc.linkable g hg).external op hop).2, heq]
    rw [linkAll_of_mem hc.disjoint hg hgid, OperatorGroup.link, if_neg hE]
    split_ifs <;> rfl
  · rw [linkAll_of_not_mem fun g hg' h => hg ⟨g, hg', h⟩]

/-- Outside the second module every weight is positive: the initial one, or an even part
of a group's. -/
theorem linked_weightOf_pos (h : gid ∈ prepareNodeOperatorStats st) (hne : gid.1 ≠ cmV2.id) :
    0 < (linked st cmV2).weightOf gid := by
  have hstart : 0 < (weighted st cmV2).weightOf gid := by
    rw [weighted_weightOf_other h hne]
    norm_num [TOTAL_BASIS_POINTS]
  obtain ⟨no, hno⟩ : ∃ no, (weighted st cmV2).nodeOperatorsStats.get? gid = some no :=
    Dict.mem_iff_exists_get?.mp (by simpa [weighted, initial] using h)
  have hget : (linked st cmV2).nodeOperatorsStats.get? gid =
      some (linkAll cmV2.id (weighted st cmV2).weightOf (metaGroups st cmV2) gid no) := by
    rw [linked, mapNodeOperators_nodeOperatorsStats, Dict.get?_mapKV, hno, Option.map_some]
  rw [weightOf_of_get? hno] at hstart
  rw [weightOf_of_get? hget]
  by_cases hg : ∃ g ∈ metaGroups st cmV2, gid ∈ g.gids cmV2.id
  · obtain ⟨g, hg, hgid⟩ := hg
    rw [linkAll_of_mem hc.disjoint hg hgid, OperatorGroup.link]
    split_ifs with hE hconn
    · have hmem : ∀ k ∈ g.internalGids cmV2.id, 0 ≤ (weighted st cmV2).weightOf k := fun k hk =>
        weighted_nonneg (by
          simpa [weighted, initial] using ((hc.linkable g hg).ungrouped k (List.mem_append_right _ hk)).mem)
      have hW : 0 < g.internalWeight cmV2.id (weighted st cmV2).weightOf :=
        lt_of_le_of_ne (List.sum_nonneg (List.forall_mem_map.mpr hmem))
          ((hc.linkable g hg).connected hconn).1.symm
      have hlen : 0 < g.externalGids.length := List.length_pos_of_mem hE
      exact div_pos hW (Nat.cast_pos.mpr hlen)
    · exact hstart
    · exact hstart
    · exact hstart
  · rw [linkAll_of_not_mem fun g hg' h => hg ⟨g, hg', h⟩]
    exact hstart

theorem linked_nonneg (h : gid ∈ prepareNodeOperatorStats st) :
    0 ≤ (linked st cmV2).weightOf gid := by
  by_cases hid : gid.1 = cmV2.id
  · obtain ⟨moduleId, id⟩ := gid
    subst hid
    rw [linked_weightOf_cmV2 hc (mem_operatorIds.mpr h)]
    exact Nat.cast_nonneg _
  · exact (linked_weightOf_pos hc h hid).le

end Linked

section ModuleWeight

theorem moduleWeight_eq (it : ValidatorExitIterator) (moduleId : StakingModuleId) :
    it.moduleWeight moduleId =
      (it.nodeOperatorsStats.keys.map fun gid => if gid.1 = moduleId then it.weightOf gid else 0).sum := by
  rw [moduleWeight, weightIn, Dict.keys, List.map_map]
  refine congrArg List.sum (List.map_congr_left fun e he => ?_)
  have hget := Dict.get?_eq_some_iff.mpr (show (e.1, e.2) ∈ it.nodeOperatorsStats.entries from he)
  simp only [Function.comp_apply, weightOf_of_get? hget]

variable {exitable : Dict NodeOperatorGlobalIndex (List LidoValidator)}

theorem linked_keys : (linked st cmV2).nodeOperatorsStats.keys = (prepareNodeOperatorStats st).keys := by
  simp [linked, weighted, initial]

/-- A module weighs nothing exactly when all of its operators do. -/
theorem moduleWeight_ne_zero_iff (hc : Checks st cmV1 cmV2 exitable) (moduleId : StakingModuleId) :
    (linked st cmV2).moduleWeight moduleId ≠ 0 ↔
      ∃ gid ∈ prepareNodeOperatorStats st, gid.1 = moduleId ∧ (linked st cmV2).weightOf gid ≠ 0 := by
  rw [moduleWeight_eq, linked_keys]
  have hnonneg : ∀ x ∈ (prepareNodeOperatorStats st).keys.map fun gid =>
      if gid.1 = moduleId then (linked st cmV2).weightOf gid else 0, 0 ≤ x := by
    refine List.forall_mem_map.mpr fun gid hgid => ?_
    split_ifs
    · exact linked_nonneg hc hgid
    · exact le_rfl
  constructor
  · intro hsum
    by_contra hnone
    refine hsum (List.sum_eq_zero (List.forall_mem_map.mpr fun gid hgid => ?_))
    split_ifs with hid
    · by_contra hw
      exact hnone ⟨gid, hgid, hid, hw⟩
    · rfl
  · rintro ⟨gid, hgid, hid, hw⟩ hsum
    refine hw ?_
    have hzero := List.all_zero_of_le_zero_le_of_sum_eq_zero hnonneg hsum (List.mem_map_of_mem hgid)
    rwa [if_pos hid] at hzero

end ModuleWeight

end ValidatorExitIterator

end LidoOracle
