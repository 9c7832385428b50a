import LidoOracle.ExitOrder.Weights

/-! Divisions by zero. A configuration that passes the iterator's own checks
is safe from them exactly when every connected group and the second curated
module have an operator of positive weight. -/

namespace LidoOracle

namespace ValidatorExitIterator

/-- A run of the iterator: started, then asked for the next validator or for those to force out -/
inductive IterationRun (st : StakingState) : ValidatorExitIterator → Prop where
  | start {it : ValidatorExitIterator} (h : iter st = .ok it) : IterationRun st it
  | next {it it' : ValidatorExitIterator} {y : Option (NodeOperatorGlobalIndex × LidoValidator)}
      (run : IterationRun st it) (h : it.next = .ok (y, it')) : IterationRun st it'
  | forced {it it' : ValidatorExitIterator} {ys : List (NodeOperatorGlobalIndex × LidoValidator)}
      (run : IterationRun st it) (h : it.getRemainingForcedValidators = .ok (some (ys, it'))) :
      IterationRun st it'

/-- The iterator's own checks pass: nothing but a division can stop its initialization. -/
def ChecksPass (st : StakingState) : Prop :=
  ∀ e, iter st = .error e → e = .zeroDivisionError

/-- No call raises a division by zero, in any run. -/
structure NeverDividesByZero (st : StakingState) : Prop where
  iter : iter st ≠ .error .zeroDivisionError
  next : ∀ it, IterationRun st it → it.next ≠ .error .zeroDivisionError
  forced : ∀ it, IterationRun st it → it.getRemainingForcedValidators ≠ .error .zeroDivisionError

variable {st : StakingState} {cmV1 cmV2 : StakingModule} {it : ValidatorExitIterator}

theorem IterationRun.ready (h : IterationRun st it) : ∃ cmV1 cmV2, Ready st cmV1 cmV2 it := by
  induction h with
  | start h =>
    obtain ⟨cmV1, cmV2, hr, -⟩ := iter_ready h
    exact ⟨cmV1, cmV2, hr⟩
  | next _ h ih =>
    obtain ⟨cmV1, cmV2, hr⟩ := ih
    exact ⟨cmV1, cmV2, (hr.next h).2.1⟩
  | forced _ h ih =>
    obtain ⟨cmV1, cmV2, hr⟩ := ih
    obtain ⟨ys, it₁, it', hforced, -, -, hr'⟩ := hr.getRemainingForcedValidators
    rw [h] at hforced
    cases hforced
    exact ⟨cmV1, cmV2, hr'⟩

section Initialization

open ExceptRun

/-! No stage before the groups divides. -/

theorem modifyModule_avoids (it : ValidatorExitIterator) (id : StakingModuleId)
    (f : StakingModuleStats → StakingModuleStats) :
    Avoids .zeroDivisionError (it.modifyModule id f) :=
  (Py.updateItem_avoids _ _ _).bind fun _ _ => avoids_ok _

theorem modifyNodeOperator_avoids (it : ValidatorExitIterator) (gid : NodeOperatorGlobalIndex)
    (f : NodeOperatorStats → NodeOperatorStats) :
    Avoids .zeroDivisionError (it.modifyNodeOperator gid f) :=
  (Py.updateItem_avoids _ _ _).bind fun _ _ => avoids_ok _

theorem prepareValidatorStats_avoids : Avoids .zeroDivisionError (prepareValidatorStats st) := by
  refine .bind (avoids_foldlM (fun _ _ => Py.updateItem_avoids _ _ _) _ _) fun indexes _ => ?_
  refine .bind (avoids_foldlM (fun _ _ => (Py.getItem_avoids _ _).bind fun _ _ => avoids_ok _) _ _)
    fun validators _ => ?_
  refine avoids_foldlM (fun _ _ => .bind (Py.filterM_avoids (fun v => ?_) _) fun _ _ => avoids_ok _) _ _
  unfold isValidatorExitable
  split_ifs
  · exact avoids_ok _
  · exact (Py.getItem_avoids _ _).bind fun _ _ => avoids_ok _

theorem addPredictableBalance_avoids (it : ValidatorExitIterator) (gid : NodeOperatorGlobalIndex)
    (x : Gwei) : Avoids .zeroDivisionError (it.addPredictableBalance gid x) :=
  (modifyModule_avoids _ _ _).bind fun _ _ => modifyNodeOperator_avoids _ _ _

theorem calculateCurrentClBalance_avoids (it : ValidatorExitIterator) :
    Avoids .zeroDivisionError it.calculateCurrentClBalance :=
  avoids_foldlM (fun _ _ => (modifyNodeOperator_avoids _ _ _).bind fun _ _ =>
    avoids_foldlM (fun _ _ => addPredictableBalance_avoids _ _ _) _ _) _ _

theorem calculatePendingValidatorClBalance_avoids (it : ValidatorExitIterator) :
    Avoids .zeroDivisionError (calculatePendingValidatorClBalance st it) := by
  refine avoids_foldlM (fun it p => ?_) _ _
  refine (Py.getItem_avoids _ _).bind fun sm _ => .bind ?_ fun x _ => ?_
  · exact (Py.listItem_avoids _ _).bind fun _ _ => avoids_ok _
  · exact (addPredictableBalance_avoids _ _ _).bind fun _ _ => modifyNodeOperator_avoids _ _ _

theorem fetchCuratedModules_avoids (it : ValidatorExitIterator) :
    Avoids .zeroDivisionError (fetchCuratedModules st it) := by
  unfold fetchCuratedModules
  dsimp only
  split
  · exact avoids_ok _
  · exact avoids_error (by simp)

theorem setupWeights_avoids (it : ValidatorExitIterator) :
    Avoids .zeroDivisionError (setupWeights st cmV2 it) := by
  unfold setupWeights
  intro h
  rcases Except.guard_eq_error.mp h with ⟨-, h⟩ | ⟨-, h⟩
  · cases h
  · exact avoids_foldlM (fun _ _ => (Py.listItem_avoids _ _).bind fun _ _ =>
      modifyNodeOperator_avoids _ _ _) _ _ h

theorem calculateSmWeights_avoids (it : ValidatorExitIterator) :
    Avoids .zeroDivisionError it.calculateSmWeights :=
  avoids_foldlM (fun _ _ => modifyModule_avoids _ _ _) _ _

/-! Linking never divides; sharing divides by the weight of the internal operators. -/

theorem getGid_avoids (op : ExternalOperator) : Avoids .zeroDivisionError op.getGid := by
  unfold ExternalOperator.getGid
  split
  · split_ifs
    · exact avoids_ok _
    · exact avoids_error (by simp)
  · exact avoids_error (by simp)

theorem checkNotGrouped_avoids (it : ValidatorExitIterator) (gid : NodeOperatorGlobalIndex) :
    Avoids .zeroDivisionError (it.checkNotGrouped gid) := by
  refine (Py.getItem_avoids _ _).bind fun no _ h => ?_
  rcases Except.guard_eq_error.mp h with ⟨-, h⟩ | ⟨-, h⟩
  · cases h
  · exact avoids_ok _ h

theorem linkExternalOperator_avoids (group : OperatorGroup) (cmV1Id : StakingModuleId)
    (acc : ValidatorExitIterator × List NodeOperatorGlobalIndex × ℤ) (op : ExternalOperator) :
    Avoids .zeroDivisionError (linkExternalOperator group cmV1Id acc op) := by
  refine (getGid_avoids _).bind fun gid _ h => ?_
  rcases Except.guard_eq_error.mp h with ⟨-, h⟩ | ⟨-, h⟩
  · cases h
  · exact (checkNotGrouped_avoids _ _).bind (fun no _ => (modifyNodeOperator_avoids _ _ _).bind
      fun _ _ => avoids_ok _) h

theorem linkInternalOperator_avoids (group : OperatorGroup) (cmV2Id : StakingModuleId)
    (acc : ValidatorExitIterator × ℚ × ℤ) (op : SubNodeOperator) :
    Avoids .zeroDivisionError (linkInternalOperator group cmV2Id acc op) :=
  (checkNotGrouped_avoids _ _).bind fun _ _ => (modifyNodeOperator_avoids _ _ _).bind
    fun _ _ => avoids_ok _

/-- A group can divide by zero only where it is connected and weighs nothing. -/
theorem processGroup_avoids {cmV1Id cmV2Id : StakingModuleId} {group : OperatorGroup}
    (h : MembersOk cmV1Id cmV2Id it group → group.hasConnection →
      group.internalWeight cmV2Id it.weightOf ≠ 0) :
    Avoids .zeroDivisionError (processGroup cmV1Id cmV2Id it group) := by
  refine .bind (avoids_foldlM (linkExternalOperator_avoids _ _) _ _) fun r hr => ?_
  refine .bind (avoids_foldlM (linkInternalOperator_avoids _ _) _ _) fun r' hr' => ?_
  have hmembers : MembersOk cmV1Id cmV2Id it group := by
    have hboth : (do
        let r ← group.externalOperators.foldlM (linkExternalOperator group cmV1Id) (it, [], 0)
        let r' ← group.subNodeOperators.foldlM (linkInternalOperator group cmV2Id) (r.1, 0, 0)
        .ok r'.1) = .ok r'.1 := by
      rw [hr, Except.ok_bind, hr', Except.ok_bind]
    exact (linkLoops_ok_iff.mp hboth).1
  obtain ⟨-, -, -, rfl⟩ := linkExternal_ok_iff.mp hr
  obtain ⟨-, -, rfl⟩ := linkInternal_ok_iff.mp hr'
  dsimp only
  rw [weightOf_markExternal]
  split_ifs with hconn
  · exact avoids_ok _
  · have hc : group.hasConnection := by simpa using hconn
    have hW := h hmembers hc
    have hlen : ((group.externalGids.length : ℕ) : ℚ) ≠ 0 := by
      simpa [OperatorGroup.externalGids] using (group.hasConnection_iff.mp hc).2
    refine .bind (avoids_foldlM (fun it op => ?_) _ _) fun _ _ => .bind
      (avoids_foldlM (fun it gid => ?_) _ _) fun _ _ => (modifyModule_avoids _ _ _).bind
        fun _ _ => modifyModule_avoids _ _ _
    · refine (Py.getItem_avoids _ _).bind fun no _ => .bind (fun h => ?_) fun _ _ =>
        modifyNodeOperator_avoids _ _ _
      exact hW (Py.trueDiv_eq_error.mp h).1
    · refine .bind (fun h => ?_) fun _ _ => (modifyNodeOperator_avoids _ _ _).bind fun _ _ =>
        .bind (fun h => ?_) fun _ _ => modifyNodeOperator_avoids _ _ _
      · exact hlen (Py.trueDiv_eq_error.mp h).1
      · exact hlen (Py.trueDiv_eq_error.mp h).1

theorem ungrouped_linkAll {cmV2Id : StakingModuleId} {w : NodeOperatorGlobalIndex → ℚ}
    {groups : List OperatorGroup} {gid : NodeOperatorGlobalIndex}
    (h : (it.mapNodeOperators (linkAll cmV2Id w groups)).Ungrouped gid) :
    ∀ g ∈ groups, gid ∉ g.gids cmV2Id := by
  induction groups generalizing it with
  | nil => simp
  | cons g groups ih =>
    have hsplit : it.mapNodeOperators (linkAll cmV2Id w (g :: groups)) =
        (it.mapNodeOperators (g.link cmV2Id w)).mapNodeOperators (linkAll cmV2Id w groups) := by
      rw [mapNodeOperators_mapNodeOperators]
      rfl
    rw [hsplit] at h
    have htail := ih h
    refine List.forall_mem_cons.mpr ⟨?_, htail⟩
    have hungr : (it.mapNodeOperators (g.link cmV2Id w)).Ungrouped gid :=
      (ungrouped_mapNodeOperators (fun no => by rw [linkAll_of_not_mem htail])
        fun no => by rw [linkAll_of_not_mem htail]).mp h
    exact (ungrouped_link.mp hungr).1

/-- Groups whose internal operators weigh something never divide by zero. -/
theorem setupMetaConnections_avoids {exitable : Dict NodeOperatorGlobalIndex (List LidoValidator)}
    {d : Delta} (h : ∀ g ∈ metaGroups st cmV2, g.hasConnection →
      (∀ gid ∈ g.internalGids cmV2.id, gid ∈ prepareNodeOperatorStats st) →
        g.internalWeight cmV2.id (weighted st cmV2).weightOf ≠ 0) :
    Avoids .zeroDivisionError
      (setupMetaConnections st cmV1 cmV2 (((weighted st cmV2).withExitable exitable).shift d)) := by
  set it₀ := ((weighted st cmV2).withExitable exitable).shift d with hit₀
  intro herr
  obtain ⟨pre, g, post, it, hsplit, hpre, hg⟩ := foldlM_error herr
  obtain ⟨-, rfl⟩ := processGroups_ok_iff.mp hpre
  refine processGroup_avoids (fun hmembers hconn => ?_) hg
  -- a member of this group has not been linked before, so its weight is the reported one
  have hfresh : ∀ gid ∈ g.internalGids cmV2.id,
      (it₀.mapNodeOperators (linkAll cmV2.id it₀.weightOf pre)).Ungrouped gid := fun gid hgid =>
    ungrouped_shift.mp (hmembers.ungrouped gid (List.mem_append_right _ hgid))
  have hmem : g ∈ metaGroups st cmV2 := by
    unfold metaGroups
    rw [hsplit]
    simp
  have hrecords : ∀ gid ∈ g.internalGids cmV2.id, gid ∈ prepareNodeOperatorStats st :=
    fun gid hgid => by simpa [hit₀, weighted, initial, withExitable] using (hfresh gid hgid).mem
  refine ne_of_eq_of_ne (OperatorGroup.internalWeight_congr fun gid hgid => ?_) (h g hmem hconn hrecords)
  have hnot := ungrouped_linkAll (hfresh gid hgid)
  rw [weightOf_shift, weightOf_mapNodeOperators fun no => by rw [linkAll_of_not_mem hnot], hit₀,
    weightOf_shift]
  rfl

end Initialization

section Start

open ExceptRun

/-- No stage of the initialization divides by zero when the weights are positive. -/
theorem iter_avoids (hw : WeightsPositive st) : Avoids .zeroDivisionError (iter st) := by
  refine prepareValidatorStats_avoids.bind fun exitable _ => .bind ?_ fun it _ => avoids_ok _
  refine (calculateCurrentClBalance_avoids _).bind fun it₁ h₁ =>
    (calculatePendingValidatorClBalance_avoids _).bind fun it₂ h₂ => .bind ?_ fun it₃ _ =>
      calculateSmWeights_avoids _
  obtain ⟨-, rfl⟩ := calculateCurrentClBalance_ok_iff.mp h₁
  obtain ⟨-, rfl⟩ := calculatePendingValidatorClBalance_ok_iff.mp h₂
  rw [shift_shift]
  refine (fetchCuratedModules_avoids _).bind fun r hcur => ?_
  obtain ⟨cmV1, cmV2⟩ := r
  have hcur' : fetchCuratedModules st (initial st) = .ok (cmV1, cmV2) := by
    rwa [fetchCuratedModules_shift] at hcur
  refine (setupWeights_avoids _).bind fun it hset => .bind ?_ fun _ _ => avoids_ok _
  obtain ⟨-, rfl⟩ := setupWeights_initial_ok_iff.mp hset
  exact setupMetaConnections_avoids fun g hg hconn hrecords =>
    (internalWeight_ne_zero_iff hrecords).mpr (hw.groups cmV1 cmV2 hcur' g hg hconn)

end Start

section Run

/-- The key of an operator is computed unless its module weighs nothing. -/
theorem Ready.noPredicate_cases (h : Ready st cmV1 cmV2 it) {no : NodeOperatorStats}
    (hno : no ∈ it.nodeOperatorsStats.values) :
    ((linked st cmV2).moduleWeight no.nodeOperator.stakingModule.id ≠ 0 ∧
      ∃ k, it.noPredicate no = .ok k) ∨
    ((linked st cmV2).moduleWeight no.nodeOperator.stakingModule.id = 0 ∧
      it.noPredicate no = .error .zeroDivisionError) := by
  have hgid := (h.globalIndex hno).1
  obtain ⟨sm, hsm⟩ : ∃ sm, it.moduleStats.get? no.nodeOperator.stakingModule.id = some sm := by
    refine Dict.mem_iff_exists_get?.mp ?_
    rw [h.eq, ← Dict.mem_keys, running_module_keys]
    exact h.checks.modules _ hgid
  have hweight : sm.totalWeight = (linked st cmV2).moduleWeight no.nodeOperator.stakingModule.id := by
    rw [h.eq] at hsm
    exact (running_module hsm).2.2
  have hitem : (Py.getItem it.moduleStats no.nodeOperator.stakingModule.id : Iter _) = .ok sm :=
    Py.getItem_eq_ok.mpr hsm
  obtain ⟨share, hshare⟩ : ∃ q, it.maxShareRateCoefficientPredicate no = .ok q := by
    unfold maxShareRateCoefficientPredicate
    rw [hitem, Except.ok_bind]
    dsimp only
    split_ifs with hzero hmax
    · exact ⟨_, rfl⟩
    · exact ⟨_, rfl⟩
    · have hdiv : (Py.trueDiv (-1) sm.predictableBalance : Iter ℚ) = .ok _ :=
        Py.trueDiv_eq_ok.mpr ⟨by exact_mod_cast hzero, rfl⟩
      rw [hdiv]
      exact ⟨_, rfl⟩
  obtain ⟨index, hindex⟩ := h.lowestValidatorIndex_ok hno
  rw [← hweight]
  unfold noPredicate noTargetBalanceDeviationPredicate
  rw [hshare, hitem]
  by_cases hW : sm.totalWeight = 0
  · refine .inr ⟨hW, ?_⟩
    have hdiv : (Py.trueDiv (sm.totalStake * no.weight) sm.totalWeight : Iter ℚ) =
        .error .zeroDivisionError := Py.trueDiv_eq_error.mpr ⟨hW, rfl⟩
    simp only [Except.ok_bind, hdiv, Except.error_bind]
  · refine .inl ⟨hW, ?_⟩
    have hdiv : (Py.trueDiv (sm.totalStake * no.weight) sm.totalWeight : Iter ℚ) = .ok _ :=
      Py.trueDiv_eq_ok.mpr ⟨hW, rfl⟩
    simp only [Except.ok_bind, hdiv, hindex]
    exact ⟨_, rfl⟩

/-- `__next__` raises a division by zero where the weights of some module vanish, and only there. -/
theorem Ready.next_eq_zeroDivision_iff (h : Ready st cmV1 cmV2 it) :
    it.next = .error .zeroDivisionError ↔
      ∃ gid ∈ prepareNodeOperatorStats st, (linked st cmV2).moduleWeight gid.1 = 0 := by
  have hkeys : ∀ gid ∈ prepareNodeOperatorStats st,
      ∃ no ∈ it.nodeOperatorsStats.values, no.nodeOperator.globalIndex = gid := by
    intro gid hgid
    rw [← Dict.mem_keys, ← @running_operator_keys st cmV2, ← h.eq, Dict.mem_keys] at hgid
    obtain ⟨no, hno⟩ := Dict.mem_iff_exists_get?.mp hgid
    refine ⟨no, List.mem_map_of_mem (Dict.get?_eq_some_iff.mp hno), ?_⟩
    rw [h.eq] at hno
    exact (running_operator hno).1
  constructor
  · intro herr
    rcases Except.bind_eq_error.mp herr with hsort | ⟨ops, hsort, hfrom⟩
    · obtain ⟨no, hno, hkey⟩ := Py.sortedByM_error hsort
      rcases h.noPredicate_cases hno with ⟨-, k, hk⟩ | ⟨hzero, -⟩
      · rw [hk] at hkey
        cases hkey
      · exact ⟨_, (h.globalIndex hno).1, hzero⟩
    · have hperm := (Py.sortedByM_ok hsort).1
      obtain ⟨y, it', hok, -⟩ := h.nextFrom fun no hno => hperm.mem_iff.mp hno
      rw [hok] at hfrom
      cases hfrom
  · rintro ⟨gid, hgid, hzero⟩
    obtain ⟨no, hno, rfl⟩ := hkeys gid hgid
    have hraise : it.noPredicate no = .error .zeroDivisionError := by
      rcases h.noPredicate_cases hno with ⟨hW, -⟩ | ⟨-, herr⟩
      · exact absurd hzero hW
      · exact herr
    cases hsort : Py.sortedByM it.noPredicate it.nodeOperatorsStats.values with
    | ok ops =>
      obtain ⟨k, hk⟩ := (Py.sortedByM_ok hsort).2 no hno
      rw [hk] at hraise
      cases hraise
    | error e =>
      obtain ⟨no', hno', herr⟩ := Py.sortedByM_error hsort
      have he : e = .zeroDivisionError := by
        rcases h.noPredicate_cases hno' with ⟨-, k, hk⟩ | ⟨-, hz⟩
        · rw [hk] at herr
          cases herr
        · rw [hz] at herr
          cases herr
          rfl
      rw [ValidatorExitIterator.next, hsort, he]
      rfl

/-- The second module is the only one whose weights can all be zero. -/
theorem Ready.moduleWeight_ne_zero (h : Ready st cmV1 cmV2 it) (hw : WeightsPositive st)
    {gid : NodeOperatorGlobalIndex} (hgid : gid ∈ prepareNodeOperatorStats st) :
    (linked st cmV2).moduleWeight gid.1 ≠ 0 := by
  rw [moduleWeight_ne_zero_iff h.checks]
  by_cases hid : gid.1 = cmV2.id
  · obtain ⟨moduleId, id⟩ := gid
    subst hid
    have hne : st.operatorIds cmV2 ≠ [] := List.ne_nil_of_mem (mem_operatorIds.mpr hgid)
    obtain ⟨id', hid', hpos⟩ := hw.module cmV1 cmV2 h.checks.curated hne
    refine ⟨(cmV2.id, id'), mem_operatorIds.mp hid', rfl, ?_⟩
    rw [linked_weightOf_cmV2 h.checks hid', Nat.cast_ne_zero]
    exact hpos.ne'
  · exact ⟨gid, hgid, rfl, (linked_weightOf_pos h.checks hgid hid).ne'⟩

theorem neverDividesByZero_of_weightsPositive (hw : WeightsPositive st) : NeverDividesByZero st where
  iter := iter_avoids hw
  next it run herr := by
    obtain ⟨cmV1, cmV2, hr⟩ := run.ready
    obtain ⟨gid, hgid, hzero⟩ := hr.next_eq_zeroDivision_iff.mp herr
    exact hr.moduleWeight_ne_zero hw hgid hzero
  forced it run herr := by
    obtain ⟨cmV1, cmV2, hr⟩ := run.ready
    obtain ⟨ys, it₁, it', hok, -⟩ := hr.getRemainingForcedValidators
    rw [hok] at herr
    cases herr

/-- Where the configuration checks pass, positive weights are exactly what it takes. -/
theorem neverDividesByZero_iff (h : ChecksPass st) : NeverDividesByZero st ↔ WeightsPositive st := by
  refine ⟨fun hnever => ?_, neverDividesByZero_of_weightsPositive⟩
  obtain ⟨it, hit⟩ : ∃ it, iter st = .ok it := by
    cases hit : iter st with
    | ok it => exact ⟨it, rfl⟩
    | error e =>
      have he := h e hit
      subst he
      exact absurd hit hnever.iter
  obtain ⟨cmV1, cmV2, hr, -⟩ := iter_ready hit
  have hcur : ∀ {m₁ m₂ : StakingModule}, fetchCuratedModules st (initial st) = .ok (m₁, m₂) →
      m₁ = cmV1 ∧ m₂ = cmV2 := by
    intro m₁ m₂ hm
    rw [hr.checks.curated] at hm
    cases hm
    exact ⟨rfl, rfl⟩
  constructor
  · intro m₁ m₂ hm g hg hconn
    obtain ⟨rfl, rfl⟩ := hcur hm
    have hlink := hr.checks.linkable g hg
    have hrecords : ∀ gid ∈ g.internalGids m₂.id, gid ∈ prepareNodeOperatorStats st :=
      fun gid hgid => by
        simpa [weighted, initial] using (hlink.ungrouped gid (List.mem_append_right _ hgid)).mem
    exact (internalWeight_ne_zero_iff hrecords).mp (hlink.connected hconn).1
  · intro m₁ m₂ hm hne
    obtain ⟨rfl, rfl⟩ := hcur hm
    by_contra hnone
    obtain ⟨id, hid⟩ := List.exists_mem_of_ne_nil _ hne
    refine hnever.next it (.start hit) (hr.next_eq_zeroDivision_iff.mpr
      ⟨(m₂.id, id), mem_operatorIds.mp hid, ?_⟩)
    by_contra hW
    obtain ⟨⟨_, id'⟩, hmem, rfl, hpos⟩ := (moduleWeight_ne_zero_iff hr.checks _).mp hW
    rw [linked_weightOf_cmV2 hr.checks (mem_operatorIds.mpr hmem), Nat.cast_ne_zero] at hpos
    exact hnone ⟨id', mem_operatorIds.mpr hmem, Nat.pos_of_ne_zero hpos⟩

end Run

theorem neverDividesByZero_iff_sample : NeverDividesByZero (sampleState [1, 3]) ↔
    WeightsPositive (sampleState [1, 3]) := by
  obtain ⟨it, hit, -⟩ := iter_sample
  refine neverDividesByZero_iff fun e he => ?_
  rw [hit] at he
  cases he

/-- The one operator that the group connects on the side of the second module weighs nothing. -/
theorem zeroWeight_sample_divides :
    ChecksPass (sampleState [0, 3]) ∧ ¬ NeverDividesByZero (sampleState [0, 3]) := by
  have h : iter (sampleState [0, 3]) = .error .zeroDivisionError := by
    have hb : (match iter (sampleState [0, 3]) with
      | .error .zeroDivisionError => true
      | _ => false) = true := by decide +kernel
    revert hb
    split <;> simp_all
  refine ⟨fun e he => ?_, fun hnever => hnever.iter h⟩
  rw [h] at he
  cases he
  rfl

end ValidatorExitIterator

end LidoOracle
