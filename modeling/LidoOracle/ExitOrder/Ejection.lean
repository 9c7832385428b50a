import LidoOracle.ExitOrder.Statistics

/-! What one ejection does: it takes the ejected balance back off the operator
and off the group, as the negative of what counting that balance had posted. -/

namespace LidoOracle

section Single

variable {α M : Type} [AddCommMonoid M] {l : List α} {a : α}

theorem sum_map_zero (l : List α) : (l.map (0 : α → M)).sum = 0 :=
  List.sum_eq_zero fun _ h => by
    obtain ⟨_, -, rfl⟩ := List.mem_map.mp h
    rfl

variable [DecidableEq α]

theorem sum_map_single_of_not_mem (h : a ∉ l) (x : M) :
    (l.map (Pi.single a x : α → M)).sum = 0 := by
  refine List.sum_eq_zero fun y hy => ?_
  obtain ⟨k, hk, rfl⟩ := List.mem_map.mp hy
  have hne : k ≠ a := fun e => h (e ▸ hk)
  exact Pi.single_eq_of_ne hne _

theorem sum_map_single_of_mem (hl : l.Nodup) (h : a ∈ l) (x : M) :
    (l.map (Pi.single a x : α → M)).sum = x := by
  obtain ⟨pre, post, rfl⟩ := List.append_of_mem h
  have hnd := List.nodup_middle.mp hl
  rw [List.nodup_cons, List.mem_append, not_or] at hnd
  rw [List.map_append, List.map_cons, List.sum_append, List.sum_cons,
    sum_map_single_of_not_mem hnd.1.1, sum_map_single_of_not_mem hnd.1.2, Pi.single_eq_same]
  simp

end Single

namespace OperatorGroup

variable {cmV1Id cmV2Id : StakingModuleId} {group : OperatorGroup}
  {w : NodeOperatorGlobalIndex → ℚ} {gid : NodeOperatorGlobalIndex}

theorem externalBalance_add (b b' : NodeOperatorGlobalIndex → ℤ) :
    group.externalBalance (b + b') = group.externalBalance b + group.externalBalance b' :=
  List.sum_map_add

theorem internalBalance_add (b b' : NodeOperatorGlobalIndex → ℤ) :
    group.internalBalance cmV2Id (b + b') =
      group.internalBalance cmV2Id b + group.internalBalance cmV2Id b' :=
  List.sum_map_add

theorem stakeShares_add (b b' : NodeOperatorGlobalIndex → ℤ) :
    group.stakeShares cmV2Id w (b + b') =
      group.stakeShares cmV2Id w b + group.stakeShares cmV2Id w b' := by
  have hint : ∀ gid, (Pi.single gid (group.externalBalance (b + b') * w gid /
        group.internalWeight cmV2Id w) : NodeOperatorGlobalIndex → ℚ) =
      Pi.single gid (group.externalBalance b * w gid / group.internalWeight cmV2Id w) +
        Pi.single gid (group.externalBalance b' * w gid / group.internalWeight cmV2Id w) := by
    intro gid
    rw [externalBalance_add, ← Pi.single_add, Int.cast_add, add_mul, add_div]
  have hext : ∀ gid : NodeOperatorGlobalIndex, (Pi.single gid (group.internalBalance cmV2Id (b + b') /
        group.externalGids.length : ℚ) : NodeOperatorGlobalIndex → ℚ) =
      Pi.single gid (group.internalBalance cmV2Id b / group.externalGids.length : ℚ) +
        Pi.single gid (group.internalBalance cmV2Id b' / group.externalGids.length : ℚ) := by
    intro gid
    rw [internalBalance_add, ← Pi.single_add, Int.cast_add, add_div]
  unfold stakeShares
  simp only [hint, hext, List.sum_map_add]
  abel

/-- A group posts the sum of balances as the sum of what it posts for each. -/
theorem delta_add (b b' : NodeOperatorGlobalIndex → ℤ) :
    group.delta cmV2Id cmV1Id w (b + b') =
      group.delta cmV2Id cmV1Id w b + group.delta cmV2Id cmV1Id w b' := by
  unfold delta
  split_ifs
  · rw [stakeShares_add, internalBalance_add, externalBalance_add, Delta.operatorStake_add,
      Int.cast_add, Int.cast_add, Delta.moduleStake_add, Delta.moduleStake_add]
    abel
  · simp

/-- A balance outside the group concerns it not. -/
theorem delta_single_of_not_mem (h : gid ∉ group.gids cmV2Id) (x : ℤ) :
    group.delta cmV2Id cmV1Id w (Pi.single gid x) = 0 := by
  rw [gids, List.mem_append, not_or] at h
  have hext : group.externalBalance (Pi.single gid x) = 0 := sum_map_single_of_not_mem h.1 x
  have hint : group.internalBalance cmV2Id (Pi.single gid x) = 0 := sum_map_single_of_not_mem h.2 x
  unfold delta stakeShares
  split_ifs
  · have hzero : Delta.operatorStake 0 = 0 := rfl
    simp [hext, hint, hzero, Delta.moduleStake_zero]
  · rfl

/-- An external operator's balance is charged to the internal operators by weight. -/
theorem delta_single_external (hnd : (group.gids cmV2Id).Nodup) (hc : group.hasConnection)
    (h : gid ∈ group.externalGids) (x : Gwei) :
    group.delta cmV2Id cmV1Id w (Pi.single gid x) =
      Delta.moduleStake cmV2Id x + Delta.operatorStake ((group.internalGids cmV2Id).map fun k =>
        Pi.single k (x * w k / group.internalWeight cmV2Id w)).sum := by
  obtain ⟨hndE, -, hdis⟩ := List.nodup_append'.mp hnd
  have hext : group.externalBalance (Pi.single gid (x : ℤ)) = x := sum_map_single_of_mem hndE h _
  have hint : group.internalBalance cmV2Id (Pi.single gid (x : ℤ)) = 0 :=
    sum_map_single_of_not_mem (hdis h) _
  rw [delta, if_pos hc, stakeShares, hext, hint]
  simp [Delta.moduleStake_zero, add_comm]

/-- An internal operator's balance is charged evenly to the external operators. -/
theorem delta_single_internal (hnd : (group.gids cmV2Id).Nodup) (hc : group.hasConnection)
    (h : gid ∈ group.internalGids cmV2Id) (x : Gwei) :
    group.delta cmV2Id cmV1Id w (Pi.single gid x) =
      Delta.moduleStake cmV1Id x + Delta.operatorStake (group.externalGids.map fun k =>
        Pi.single k (x / group.externalGids.length : ℚ)).sum := by
  obtain ⟨-, hndI, hdis⟩ := List.nodup_append'.mp hnd
  have hext : group.externalBalance (Pi.single gid (x : ℤ)) = 0 :=
    sum_map_single_of_not_mem (fun he => hdis he h) _
  have hint : group.internalBalance cmV2Id (Pi.single gid (x : ℤ)) = x :=
    sum_map_single_of_mem hndI h _
  rw [delta, if_pos hc, stakeShares, hext, hint]
  simp [Delta.moduleStake_zero, add_comm]

/-- Two groups with a common member are not both accepted. -/
theorem not_mem_of_mem {groups pre post : List OperatorGroup}
    (hnd : (groups.flatMap (OperatorGroup.gids cmV2Id)).Nodup) (hsplit : groups = pre ++ group :: post)
    (hgid : gid ∈ group.gids cmV2Id) :
    (∀ g ∈ pre, gid ∉ g.gids cmV2Id) ∧ ∀ g ∈ post, gid ∉ g.gids cmV2Id := by
  subst hsplit
  rw [List.flatMap_append, List.flatMap_cons] at hnd
  obtain ⟨-, hnd, hpre⟩ := List.nodup_append'.mp hnd
  obtain ⟨-, -, hpost⟩ := List.nodup_append'.mp hnd
  constructor
  · exact fun g hg h => hpre (List.mem_flatMap.mpr ⟨g, hg, h⟩) (List.mem_append_left _ hgid)
  · exact fun g hg h => hpost hgid (List.mem_flatMap.mpr ⟨g, hg, h⟩)

/-- A member's balance is posted by its own group only. -/
theorem sum_delta_single {groups : List OperatorGroup}
    (hnd : (groups.flatMap (OperatorGroup.gids cmV2Id)).Nodup) (hg : group ∈ groups)
    (hgid : gid ∈ group.gids cmV2Id) (x : ℤ) :
    (groups.map fun g => g.delta cmV2Id cmV1Id w (Pi.single gid x)).sum =
      group.delta cmV2Id cmV1Id w (Pi.single gid x) := by
  obtain ⟨pre, post, hsplit⟩ := List.append_of_mem hg
  obtain ⟨hpre, hpost⟩ := not_mem_of_mem hnd hsplit hgid
  have hzero : ∀ l : List OperatorGroup, (∀ g ∈ l, gid ∉ g.gids cmV2Id) →
      (l.map fun g => g.delta cmV2Id cmV1Id w (Pi.single gid x)).sum = 0 := by
    intro l hl
    refine List.sum_eq_zero fun d hd => ?_
    obtain ⟨g, hg, rfl⟩ := List.mem_map.mp hd
    exact delta_single_of_not_mem (hl g hg) x
  rw [hsplit, List.map_append, List.map_cons, List.sum_append, List.sum_cons, hzero pre hpre,
    hzero post hpost]
  simp

theorem sum_delta_single_of_ungrouped {groups : List OperatorGroup}
    (h : ∀ g ∈ groups, gid ∉ g.gids cmV2Id) (x : ℤ) :
    (groups.map fun g => g.delta cmV2Id cmV1Id w (Pi.single gid x)).sum = 0 := by
  refine List.sum_eq_zero fun d hd => ?_
  obtain ⟨g, hg, rfl⟩ := List.mem_map.mp hd
  exact delta_single_of_not_mem (h g hg) x

end OperatorGroup

namespace ValidatorExitIterator

section Links

variable {cmV2Id : StakingModuleId} {w : NodeOperatorGlobalIndex → ℚ}
  {groups : List OperatorGroup} {group : OperatorGroup} {gid : NodeOperatorGlobalIndex}

theorem linkAll_of_not_mem (h : ∀ g ∈ groups, gid ∉ g.gids cmV2Id) (no : NodeOperatorStats) :
    linkAll cmV2Id w groups gid no = no := by
  induction groups with
  | nil => rfl
  | cons g groups ih =>
    rw [List.forall_mem_cons] at h
    rw [linkAll, List.foldl_cons, OperatorGroup.link_of_not_mem h.1]
    exact ih h.2

/-- A member carries the link of its own group. -/
theorem linkAll_of_mem (hnd : (groups.flatMap (OperatorGroup.gids cmV2Id)).Nodup)
    (hg : group ∈ groups) (hgid : gid ∈ group.gids cmV2Id) (no : NodeOperatorStats) :
    linkAll cmV2Id w groups gid no = group.link cmV2Id w gid no := by
  obtain ⟨pre, post, hsplit⟩ := List.append_of_mem hg
  obtain ⟨hpre, hpost⟩ := OperatorGroup.not_mem_of_mem hnd hsplit hgid
  have h₁ := linkAll_of_not_mem (w := w) hpre no
  have h₂ := linkAll_of_not_mem (w := w) hpost (group.link cmV2Id w gid no)
  unfold linkAll at *
  rw [hsplit, List.foldl_append, List.foldl_cons, h₁, h₂]

end Links

section Decrease

variable {cmV1Id : StakingModuleId} {group : OperatorGroup} {it : ValidatorExitIterator} {x : Gwei}

theorem decreaseExternalStake_ok (hne : group.externalOperators ≠ [])
    (hgid : ∀ op ∈ group.externalOperators, op.getGid = .ok op.gid ∧ op.gid.1 = cmV1Id)
    (hm : cmV1Id ∈ it.moduleStats) (hk : ∀ gid ∈ group.externalGids, gid ∈ it.nodeOperatorsStats) :
    decreaseExternalStake x group it = .ok (it.shift (-(Delta.moduleStake cmV1Id x +
      Delta.operatorStake (group.externalGids.map fun gid =>
        Pi.single gid (x / group.externalGids.length : ℚ)).sum))) := by
  obtain ⟨first, rest, hops⟩ := List.exists_cons_of_ne_nil hne
  have hfirst := hgid first (hops ▸ List.mem_cons_self)
  have hmod := (@modifyModule_stake_ok_iff it _ cmV1Id (-(x : ℚ))).mpr ⟨hm, rfl⟩
  have hitem : (Py.listItem group.externalOperators 0 : Iter ExternalOperator) = .ok first := by
    simp [hops]
  simp only [decreaseExternalStake, hitem, Except.ok_bind, hfirst.1, hfirst.2, sub_eq_add_neg, hmod]
  have hlen : (group.externalOperators.length : ℚ) ≠ 0 := by simpa using hne
  have hshares : Delta.operatorStake (group.externalGids.map fun gid =>
        Pi.single gid (-(x / group.externalGids.length : ℚ))).sum =
      (group.externalOperators.map fun op => Delta.operatorStake
        (Pi.single op.gid (-(x / group.externalOperators.length : ℚ)))).sum := by
    rw [Delta.sum_operatorStake, OperatorGroup.externalGids, List.map_map, List.length_map]
    rfl
  rw [neg_add, Delta.neg_moduleStake, Delta.neg_operatorStake_sum, ← shift_shift, hshares]
  refine (foldlM_shift_ok_iff (C := fun op => op.getGid = .ok op.gid ∧ op.gid ∈ it.nodeOperatorsStats)
    fun d op it' => ?_).mpr ⟨fun op hop => ⟨(hgid op hop).1, hk _ (List.mem_map_of_mem hop)⟩, rfl⟩
  simp only [Except.bind_eq_ok, Py.trueDiv_eq_ok, modifyNodeOperator_stake_ok_iff]
  constructor
  · rintro ⟨gid, hg, _, ⟨-, rfl⟩, hk, rfl⟩
    obtain ⟨hg, rfl⟩ := ExternalOperator.getGid_eq_ok_iff.mp hg
    exact ⟨⟨hg, by simpa using hk⟩, rfl⟩
  · rintro ⟨⟨hg, hk⟩, rfl⟩
    exact ⟨_, hg, _, ⟨hlen, rfl⟩, by simpa using hk, rfl⟩

theorem decreaseInternalStake_ok {cmV2Id : StakingModuleId} (hcm : it.cmV2Id = cmV2Id)
    (hm : cmV2Id ∈ it.moduleStats)
    (hk : ∀ gid ∈ group.internalGids cmV2Id, gid ∈ it.nodeOperatorsStats)
    (hW : group.internalWeight cmV2Id it.weightOf ≠ 0) :
    decreaseInternalStake x group it = .ok (it.shift (-(Delta.moduleStake cmV2Id x +
      Delta.operatorStake ((group.internalGids cmV2Id).map fun gid =>
        Pi.single gid (x * it.weightOf gid / group.internalWeight cmV2Id it.weightOf)).sum))) := by
  have hmod := (@modifyModule_stake_ok_iff it _ cmV2Id (-(x : ℚ))).mpr ⟨hm, rfl⟩
  have hweights : (group.subNodeOperators.mapM fun op => do
      let no ← Py.getItem (it.shift (Delta.moduleStake cmV2Id (-(x : ℚ)))).nodeOperatorsStats
        (cmV2Id, op.nodeOperatorId)
      return no.weight : Iter (List ℚ)) =
        .ok (group.subNodeOperators.map fun op => it.weightOf (cmV2Id, op.nodeOperatorId)) := by
    refine ExceptRun.mapM_of_ok fun op hop => ?_
    obtain ⟨no, hno⟩ := Dict.mem_iff_exists_get?.mp (hk _ (List.mem_map_of_mem hop))
    simp [Py.getItem, hno, weightOf, NodeOperatorStats.shift, pure, Except.pure]
  have hsum : (group.subNodeOperators.map fun op => it.weightOf (cmV2Id, op.nodeOperatorId)).sum =
      group.internalWeight cmV2Id it.weightOf := by
    rw [OperatorGroup.internalWeight, OperatorGroup.internalGids, List.map_map]
    rfl
  have hshares : Delta.operatorStake ((group.internalGids cmV2Id).map fun gid =>
        Pi.single gid (-(x * it.weightOf gid / group.internalWeight cmV2Id it.weightOf))).sum =
      (group.subNodeOperators.map fun op => Delta.operatorStake (Pi.single (cmV2Id, op.nodeOperatorId)
        (-(x * it.weightOf (cmV2Id, op.nodeOperatorId) /
          group.internalWeight cmV2Id it.weightOf)))).sum := by
    rw [Delta.sum_operatorStake, OperatorGroup.internalGids, List.map_map]
    rfl
  simp only [decreaseInternalStake, hcm, sub_eq_add_neg, hmod, Except.ok_bind, hweights, hsum]
  rw [neg_add, Delta.neg_moduleStake, Delta.neg_operatorStake_sum, ← shift_shift, hshares]
  refine (foldlM_shift_ok_iff (C := fun op : SubNodeOperator =>
    (cmV2Id, op.nodeOperatorId) ∈ it.nodeOperatorsStats) fun d op it' => ?_).mpr
      ⟨fun op hop => hk _ (List.mem_map_of_mem hop), rfl⟩
  simp only [Except.bind_eq_ok, Py.getItem_eq_ok, Py.trueDiv_eq_ok, modifyNodeOperator_stake_ok_iff]
  have hweight : ∀ {no : NodeOperatorStats},
      ((it.shift (Delta.moduleStake cmV2Id (-(x : ℚ)))).shift d).nodeOperatorsStats.get?
        (cmV2Id, op.nodeOperatorId) = some no → it.weightOf (cmV2Id, op.nodeOperatorId) = no.weight :=
    fun hno => by rw [← weightOf_of_get? hno, weightOf_shift, weightOf_shift]
  constructor
  · rintro ⟨no, hno, _, ⟨-, rfl⟩, hk, rfl⟩
    rw [hweight hno]
    exact ⟨by simpa using hk, rfl⟩
  · rintro ⟨hk, rfl⟩
    have hk' : (cmV2Id, op.nodeOperatorId) ∈
      ((it.shift (Delta.moduleStake cmV2Id (-(x : ℚ)))).shift d).nodeOperatorsStats := by simpa using hk
    obtain ⟨no, hno⟩ := Dict.mem_iff_exists_get?.mp hk'
    refine ⟨no, hno, _, ⟨hW, rfl⟩, hk', ?_⟩
    rw [hweight hno]

end Decrease

section Eject

/-- The frame in the course of a run, before anything is counted -/
def running (st : StakingState) (cmV2 : StakingModule) (c l : Gwei)
    (exitable : Dict NodeOperatorGlobalIndex (List LidoValidator)) : ValidatorExitIterator :=
  { (frame st cmV2).withExitable exitable with maxCurrentExitBalance := c, exitLimitInGwei := l }

variable {c l : Gwei} {st : StakingState} {cmV1 cmV2 : StakingModule}
  {exitable exitable' : Dict NodeOperatorGlobalIndex (List LidoValidator)} {d : Delta}
  {gid : NodeOperatorGlobalIndex}

/-- What counting one balance of one operator posts -/
def postedFor (st : StakingState) (cmV1 cmV2 : StakingModule) (gid : NodeOperatorGlobalIndex)
    (x : Gwei) : Delta :=
  posted st cmV1 cmV2 (Delta.credit gid x + Delta.count gid 1)

/-- Taken back in the order in which an ejection takes it back -/
theorem neg_postedFor (x : Gwei) : -postedFor st cmV1 cmV2 gid x =
    Delta.lido (-x) + Delta.module gid.1 (-x) 0 + Delta.operator gid (-1) (-x) 0 +
      (Delta.moduleStake gid.1 (-x) + Delta.operatorStake (Pi.single gid (-x)) +
        -((metaGroups st cmV2).map fun g =>
          g.delta cmV2.id cmV1.id (weighted st cmV2).weightOf (Pi.single gid x)).sum) := by
  have hbalance : (Delta.credit gid x + Delta.count gid 1).noBalance = Pi.single gid (x : ℤ) := by
    simp [Delta.credit, Delta.count, Delta.lido, Delta.module, Delta.operator]
  have hown : -(Delta.credit gid x + Delta.count gid 1) =
      Delta.lido (-x) + Delta.module gid.1 (-x) 0 + Delta.operator gid (-1) (-x) 0 +
        (Delta.moduleStake gid.1 (-x) + Delta.operatorStake (Pi.single gid (-x))) := by
    ext1 <;> simp [Delta.credit, Delta.count, Delta.lido, Delta.module, Delta.operator,
      Delta.moduleStake, Delta.operatorStake, Pi.single_neg]
  rw [postedFor, posted, hbalance, neg_add, hown]
  abel

theorem posted_add (a b : Delta) :
    posted st cmV1 cmV2 (a + b) = posted st cmV1 cmV2 a + posted st cmV1 cmV2 b := by
  unfold posted
  simp only [Delta.add_noBalance, OperatorGroup.delta_add, List.sum_map_add]
  abel

/-- The record of an operator in the frame, links and weights included -/
theorem frame_get? : ((running st cmV2 c l exitable).shift d).nodeOperatorsStats.get? gid =
    ((prepareNodeOperatorStats st).get? gid).map fun no =>
      (linkAll cmV2.id (weighted st cmV2).weightOf (metaGroups st cmV2) gid
        (setWeights cmV2.id (moduleOperatorIds cmV2.id (initial st)) (cmV2Weights st cmV2) gid no)).shift
          gid d := by
  simp [running, frame, addSmWeights, linked, weighted, initial, withExitable]

theorem frame_get?_some {no : NodeOperatorStats}
    (h : ((running st cmV2 c l exitable).shift d).nodeOperatorsStats.get? gid = some no) :
    ∃ no₀ : NodeOperatorStats, no₀.internalOperatorGroup = none ∧ no₀.externalOperatorGroup = none ∧
      (weighted st cmV2).nodeOperatorsStats.get? gid = some no₀ ∧
      no = (linkAll cmV2.id (weighted st cmV2).weightOf (metaGroups st cmV2) gid no₀).shift gid d := by
  rw [frame_get?] at h
  obtain ⟨no₁, h₁, rfl⟩ := Option.map_eq_some_iff.mp h
  obtain ⟨op, -, rfl⟩ := initial_get? h₁
  obtain ⟨w, hw⟩ := setWeights_eq cmV2.id (moduleOperatorIds cmV2.id (initial st))
    (cmV2Weights st cmV2) gid (initNodeOperatorStats op)
  refine ⟨_, ?_, ?_, ?_, rfl⟩
  · rw [hw]; rfl
  · rw [hw]; rfl
  · simp [weighted, initial, h₁]

theorem frame_module {id : StakingModuleId} (h : id ∈ (weighted st cmV2).moduleStats) :
    id ∈ ((running st cmV2 c l exitable).shift d).moduleStats := by
  simpa [running, frame, addSmWeights, linked, withExitable] using h

variable (hc : Checks st cmV1 cmV2 exitable')
include hc

/-- Where an operator stands: in the external or the internal part of one group, or in none. -/
theorem frame_groups {no : NodeOperatorStats}
    (h : ((running st cmV2 c l exitable).shift d).nodeOperatorsStats.get? gid = some no) :
    (∃ g ∈ metaGroups st cmV2, gid ∈ g.externalGids ∧
      no.internalOperatorGroup = none ∧ no.externalOperatorGroup = some g) ∨
    (∃ g ∈ metaGroups st cmV2, gid ∈ g.internalGids cmV2.id ∧
      no.internalOperatorGroup = some g ∧ no.externalOperatorGroup = none) ∨
    ((∀ g ∈ metaGroups st cmV2, gid ∉ g.gids cmV2.id) ∧
      no.internalOperatorGroup = none ∧ no.externalOperatorGroup = none) := by
  obtain ⟨no₀, hi, he, -, rfl⟩ := frame_get?_some h
  by_cases hg : ∃ g ∈ metaGroups st cmV2, gid ∈ g.gids cmV2.id
  · obtain ⟨g, hg, hgid⟩ := hg
    have hlink := linkAll_of_mem (w := (weighted st cmV2).weightOf) hc.disjoint hg hgid no₀
    rcases List.mem_append.mp hgid with hE | hI
    · refine .inl ⟨g, hg, hE, ?_⟩
      rw [hlink, OperatorGroup.link, if_pos hE]
      exact ⟨hi, rfl⟩
    · have hE : gid ∉ g.externalGids :=
        fun hE => (List.nodup_append'.mp (hc.linkable g hg).nodup).2.2 hE hI
      refine .inr (.inl ⟨g, hg, hI, ?_⟩)
      rw [hlink, OperatorGroup.link, if_neg hE, if_pos hI]
      exact ⟨rfl, he⟩
  · have hnone : ∀ g ∈ metaGroups st cmV2, gid ∉ g.gids cmV2.id := fun g hg' h => hg ⟨g, hg', h⟩
    rw [linkAll_of_not_mem hnone]
    exact .inr (.inr ⟨hnone, hi, he⟩)

/-- Linking leaves the internal operators' weights alone. -/
theorem frame_weightOf {g : OperatorGroup} (hg : g ∈ metaGroups st cmV2)
    (hgid : gid ∈ g.internalGids cmV2.id) :
    ((running st cmV2 c l exitable).shift d).weightOf gid = (weighted st cmV2).weightOf gid := by
  have hE : gid ∉ g.externalGids :=
    fun hE => (List.nodup_append'.mp (hc.linkable g hg).nodup).2.2 hE hgid
  rw [weightOf_shift]
  refine weightOf_mapNodeOperators fun no => ?_
  rw [linkAll_of_mem hc.disjoint hg (List.mem_append_right _ hgid), OperatorGroup.link, if_neg hE,
    if_pos hgid]

theorem frame_internalWeight {g : OperatorGroup} (hg : g ∈ metaGroups st cmV2) :
    g.internalWeight cmV2.id ((running st cmV2 c l exitable).shift d).weightOf =
      g.internalWeight cmV2.id (weighted st cmV2).weightOf :=
  OperatorGroup.internalWeight_congr fun _ hgid => frame_weightOf hc hg hgid

theorem frame_member {g : OperatorGroup} (hg : g ∈ metaGroups st cmV2) (hgid : gid ∈ g.gids cmV2.id) :
    gid ∈ ((running st cmV2 c l exitable).shift d).nodeOperatorsStats := by
  have h := ((hc.linkable g hg).ungrouped gid hgid).mem
  simpa [running, frame, addSmWeights, linked, withExitable] using h

/-- The group's part of an ejection -/
theorem decreaseGroups_ok {x : Gwei}
    (hk : gid ∈ ((running st cmV2 c l exitable).shift d).nodeOperatorsStats) :
    (do let no ← Py.getItem ((running st cmV2 c l exitable).shift d).nodeOperatorsStats gid
        let it ← ifConnected no.internalOperatorGroup (decreaseExternalStake x)
          ((running st cmV2 c l exitable).shift d)
        let no ← Py.getItem it.nodeOperatorsStats gid
        ifConnected no.externalOperatorGroup (decreaseInternalStake x) it) =
      .ok (((running st cmV2 c l exitable).shift d).shift
        (-((metaGroups st cmV2).map fun g =>
          g.delta cmV2.id cmV1.id (weighted st cmV2).weightOf (Pi.single gid x)).sum)) := by
  obtain ⟨no, hno⟩ := Dict.mem_iff_exists_get?.mp hk
  have hget : (Py.getItem ((running st cmV2 c l exitable).shift d).nodeOperatorsStats gid :
      Iter NodeOperatorStats) = .ok no := Py.getItem_eq_ok.mpr hno
  have hskip : no.internalOperatorGroup = none →
      ifConnected no.internalOperatorGroup (decreaseExternalStake x)
        ((running st cmV2 c l exitable).shift d) =
      .ok ((running st cmV2 c l exitable).shift d) := fun hi => by rw [hi]; rfl
  rw [hget, Except.ok_bind]
  rcases frame_groups hc hno with ⟨g, hg, hgid, hi, he⟩ | ⟨g, hg, hgid, hi, he⟩ | ⟨hnone, hi, he⟩
  · rw [hskip hi, Except.ok_bind, hget, Except.ok_bind, he, ifConnected,
      OperatorGroup.sum_delta_single hc.disjoint hg (List.mem_append_left _ hgid)]
    have hlink := hc.linkable g hg
    split_ifs with hconn
    · obtain ⟨hW, -, hm⟩ := hlink.connected hconn
      rw [OperatorGroup.delta_single_external hlink.nodup hconn hgid, decreaseInternalStake_ok
        (show _ = cmV2.id from rfl) (frame_module hm)
        (fun k hk => frame_member hc hg (List.mem_append_right _ hk))
        (by rwa [frame_internalWeight hc hg]), frame_internalWeight hc hg]
      have hmap : ((g.internalGids cmV2.id).map fun k => (Pi.single k (x *
          ((running st cmV2 c l exitable).shift d).weightOf k /
            g.internalWeight cmV2.id (weighted st cmV2).weightOf) : NodeOperatorGlobalIndex → ℚ)) =
          (g.internalGids cmV2.id).map fun k => Pi.single k (x * (weighted st cmV2).weightOf k /
            g.internalWeight cmV2.id (weighted st cmV2).weightOf) :=
        List.map_congr_left fun k hk => by rw [frame_weightOf hc hg hk]
      rw [hmap]
    · rw [OperatorGroup.delta, if_neg hconn, neg_zero, shift_zero]
      rfl
  · have hlink := hc.linkable g hg
    have hstep : ifConnected no.internalOperatorGroup (decreaseExternalStake x)
        ((running st cmV2 c l exitable).shift d) =
          .ok (((running st cmV2 c l exitable).shift d).shift
            (-(g.delta cmV2.id cmV1.id (weighted st cmV2).weightOf (Pi.single gid x)))) := by
      rw [hi, ifConnected]
      split_ifs with hconn
      · obtain ⟨-, hm, -⟩ := hlink.connected hconn
        rw [OperatorGroup.delta_single_internal hlink.nodup hconn hgid]
        exact decreaseExternalStake_ok (g.hasConnection_iff.mp hconn).2 hlink.external
          (frame_module hm) fun k hk => frame_member hc hg (List.mem_append_left _ hk)
      · rw [OperatorGroup.delta, if_neg hconn, neg_zero, shift_zero]
        rfl
    have hget' : ∀ D, (Py.getItem (((running st cmV2 c l exitable).shift d).shift
        D).nodeOperatorsStats gid : Iter NodeOperatorStats) = .ok (no.shift gid D) := fun D => by
      rw [Py.getItem_eq_ok, shift_nodeOperatorsStats, Dict.get?_mapKV, hno]
      rfl
    rw [hstep, Except.ok_bind, hget', Except.ok_bind,
      OperatorGroup.sum_delta_single hc.disjoint hg (List.mem_append_right _ hgid),
      show (no.shift gid _).externalOperatorGroup = none from he]
    rfl
  · rw [hskip hi, Except.ok_bind, hget, Except.ok_bind, he,
      OperatorGroup.sum_delta_single_of_ungrouped hnone, neg_zero, shift_zero]
    rfl

theorem decreaseAffectedStake_ok {x : Gwei}
    (hmod : gid.1 ∈ ((running st cmV2 c l exitable).shift d).moduleStats)
    (hno : gid ∈ ((running st cmV2 c l exitable).shift d).nodeOperatorsStats) :
    ((running st cmV2 c l exitable).shift d).decreaseAffectedStake gid x =
      .ok (((running st cmV2 c l exitable).shift d).shift
        (Delta.moduleStake gid.1 (-x) + Delta.operatorStake (Pi.single gid (-x)) +
          -((metaGroups st cmV2).map fun g =>
            g.delta cmV2.id cmV1.id (weighted st cmV2).weightOf (Pi.single gid x)).sum)) := by
  have h₁ := modifyModule_stake_ok_iff (y := -(x : ℚ)) |>.mpr ⟨hmod, rfl⟩
  have h₂ := (@modifyNodeOperator_stake_ok_iff
    (((running st cmV2 c l exitable).shift d).shift (Delta.moduleStake gid.1 (-x))) _ gid
    (-(x : ℚ))).mpr ⟨by simpa using hno, rfl⟩
  unfold decreaseAffectedStake
  simp only [sub_eq_add_neg]
  rw [h₁, Except.ok_bind, h₂, Except.ok_bind, shift_shift, shift_shift, decreaseGroups_ok hc
    (by simpa using hno), shift_shift, shift_shift]
  simp only [add_assoc]

/-- Ejecting a validator undoes exactly what counting it had posted. -/
theorem ejectValidator_ok {v : LidoValidator} {rest : List LidoValidator}
    (hgid : gid ∈ prepareNodeOperatorStats st) (hv : exitable.get? gid = some (v :: rest)) :
    ((running st cmV2 c l exitable).shift d).ejectValidator gid =
      .ok (v, ((running st cmV2 c l (exitable.modify gid fun _ => rest)).shift d).shift
        (-postedFor st cmV1 cmV2 gid (getPredictableInboundBalance v))) := by
  set x := getPredictableInboundBalance v with hx
  set F := running st cmV2 c l (exitable.modify gid fun _ => rest) with hF
  have hmod : ∀ D, gid.1 ∈ (F.shift D).moduleStats := fun D => frame_module (by
    simpa [weighted, initial] using hc.modules gid hgid)
  have hno : ∀ D, gid ∈ (F.shift D).nodeOperatorsStats := fun D => by
    simpa [hF, running, frame, addSmWeights, linked, weighted, initial, withExitable] using hgid
  have hitem : (Py.getItem ((running st cmV2 c l exitable).shift d).exitableValidators gid :
      Iter (List LidoValidator)) = .ok (v :: rest) := Py.getItem_eq_ok.mpr hv
  have h₀ : { F.shift d with totalLidoPredictableBalance :=
      (F.shift d).totalLidoPredictableBalance - (x : ℤ) } = F.shift (d + Delta.lido (-x)) := by
    rw [← shift_shift, ← lido_eq_shift, sub_eq_add_neg]
  have h₁ : ∀ D, ((F.shift D).modifyModule gid.1 fun sm =>
      { sm with predictableBalance := sm.predictableBalance - (x : ℤ) }) =
      .ok (F.shift (D + Delta.module gid.1 (-x) 0)) := fun D => by
    rw [← shift_shift]
    exact (modifyModule_post_ok_iff fun sm => by simp [sub_eq_add_neg]).mpr ⟨hmod D, rfl⟩
  have h₂ : ∀ D, ((F.shift D).modifyNodeOperator gid fun no =>
      { no with predictableValidators := no.predictableValidators - 1,
                predictableBalance := no.predictableBalance - (x : ℤ) }) =
      .ok (F.shift (D + Delta.operator gid (-1) (-x) 0)) := fun D => by
    rw [← shift_shift]
    exact (modifyNodeOperator_post_ok_iff fun no => by simp [sub_eq_add_neg]).mpr ⟨hno D, rfl⟩
  unfold ejectValidator
  rw [hitem, Except.ok_bind]
  change ((modifyModule { F.shift d with totalLidoPredictableBalance :=
    (F.shift d).totalLidoPredictableBalance - (x : ℤ) } gid.1 _) >>= _) = _
  rw [h₀, h₁, Except.ok_bind, h₂, Except.ok_bind, decreaseAffectedStake_ok hc (hmod _) (hno _),
    Except.ok_bind, shift_shift, shift_shift, neg_postedFor]
  refine congrArg (fun D => Except.ok (v, F.shift D)) ?_
  abel

end Eject

end ValidatorExitIterator

end LidoOracle
