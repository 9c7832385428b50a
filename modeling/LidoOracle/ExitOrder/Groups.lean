import LidoOracle.ExitOrder.Ledger

/-! Operator groups. Linking a group marks its members, sets the weight of its
external operators and posts the stake shared between the two curated modules.
All of it is linear in the members' balances. -/

namespace LidoOracle

/-- The global index in the operator's data; read only where `getGid` succeeds. -/
def ExternalOperator.gid (op : ExternalOperator) : NodeOperatorGlobalIndex :=
  op.getGid.toOption.getD (0, 0)

theorem ExternalOperator.getGid_eq_ok_iff {op : ExternalOperator} {gid : NodeOperatorGlobalIndex} :
    op.getGid = .ok gid ↔ op.getGid = .ok op.gid ∧ gid = op.gid := by
  constructor
  · intro h
    have hgid : op.gid = gid := by simp [ExternalOperator.gid, h, Except.toOption]
    exact ⟨hgid ▸ h, hgid.symm⟩
  · rintro ⟨h, rfl⟩
    exact h

namespace OperatorGroup

variable (cmV2Id : StakingModuleId) (group : OperatorGroup)

def externalGids : List NodeOperatorGlobalIndex := group.externalOperators.map (·.gid)

def internalGids : List NodeOperatorGlobalIndex :=
  group.subNodeOperators.map fun op => (cmV2Id, op.nodeOperatorId)

def gids : List NodeOperatorGlobalIndex := group.externalGids ++ group.internalGids cmV2Id

def internalWeight (w : NodeOperatorGlobalIndex → ℚ) : ℚ := ((group.internalGids cmV2Id).map w).sum

theorem hasConnection_iff :
    group.hasConnection = true ↔ group.subNodeOperators ≠ [] ∧ group.externalOperators ≠ [] := by
  simp [hasConnection, List.length_pos_iff]

def externalBalance (b : NodeOperatorGlobalIndex → ℤ) : ℤ := (group.externalGids.map b).sum

def internalBalance (b : NodeOperatorGlobalIndex → ℤ) : ℤ :=
  ((group.internalGids cmV2Id).map b).sum

/-- The operators' parts of the balance on the other side of the group -/
def stakeShares (w : NodeOperatorGlobalIndex → ℚ) (b : NodeOperatorGlobalIndex → ℤ) :
    NodeOperatorGlobalIndex → ℚ :=
  ((group.internalGids cmV2Id).map fun gid =>
    Pi.single gid (group.externalBalance b * w gid / group.internalWeight cmV2Id w)).sum
  + (group.externalGids.map fun gid =>
    Pi.single gid (group.internalBalance cmV2Id b / group.externalGids.length : ℚ)).sum

/-- What a group posts for given weights and balances of its members -/
def delta (cmV1Id : StakingModuleId) (w : NodeOperatorGlobalIndex → ℚ)
    (b : NodeOperatorGlobalIndex → ℤ) : Delta :=
  if group.hasConnection then
    Delta.operatorStake (group.stakeShares cmV2Id w b)
    + Delta.moduleStake cmV1Id (group.internalBalance cmV2Id b)
    + Delta.moduleStake cmV2Id (group.externalBalance b)
  else 0

/-- The links and the weight that a group leaves on an operator -/
def link (w : NodeOperatorGlobalIndex → ℚ) (gid : NodeOperatorGlobalIndex)
    (no : NodeOperatorStats) : NodeOperatorStats :=
  if gid ∈ group.externalGids then
    { no with externalOperatorGroup := some group,
              weight := if group.hasConnection
                then group.internalWeight cmV2Id w / group.externalGids.length else no.weight }
  else if gid ∈ group.internalGids cmV2Id then { no with internalOperatorGroup := some group }
  else no

end OperatorGroup

namespace ValidatorExitIterator

def Ungrouped (it : ValidatorExitIterator) (gid : NodeOperatorGlobalIndex) : Prop :=
  ∃ no, it.nodeOperatorsStats.get? gid = some no ∧ no.internalOperatorGroup = none ∧
    no.externalOperatorGroup = none

def weightOf (it : ValidatorExitIterator) (gid : NodeOperatorGlobalIndex) : ℚ :=
  match it.nodeOperatorsStats.get? gid with
  | some no => no.weight
  | none => 0

def balanceOf (it : ValidatorExitIterator) (gid : NodeOperatorGlobalIndex) : ℤ :=
  match it.nodeOperatorsStats.get? gid with
  | some no => no.predictableBalance
  | none => 0

theorem Ungrouped.mem {it : ValidatorExitIterator} {gid : NodeOperatorGlobalIndex}
    (h : it.Ungrouped gid) : gid ∈ it.nodeOperatorsStats := by
  obtain ⟨no, hno, -⟩ := h
  exact Dict.mem_of_get? hno

section Lookups

variable {it : ValidatorExitIterator} {gid : NodeOperatorGlobalIndex}
  {f : NodeOperatorGlobalIndex → NodeOperatorStats → NodeOperatorStats}

theorem weightOf_of_get? {no : NodeOperatorStats} (h : it.nodeOperatorsStats.get? gid = some no) :
    it.weightOf gid = no.weight := by
  simp [weightOf, h]

theorem balanceOf_of_get? {no : NodeOperatorStats} (h : it.nodeOperatorsStats.get? gid = some no) :
    it.balanceOf gid = no.predictableBalance := by
  simp [balanceOf, h]

theorem weightOf_mapNodeOperators (h : ∀ no, (f gid no).weight = no.weight) :
    (it.mapNodeOperators f).weightOf gid = it.weightOf gid := by
  cases hno : it.nodeOperatorsStats.get? gid <;> simp [weightOf, hno, h]

theorem balanceOf_mapNodeOperators (h : ∀ no, (f gid no).predictableBalance = no.predictableBalance) :
    (it.mapNodeOperators f).balanceOf gid = it.balanceOf gid := by
  cases hno : it.nodeOperatorsStats.get? gid <;> simp [balanceOf, hno, h]

@[simp] theorem weightOf_shift (d : Delta) : (it.shift d).weightOf = it.weightOf := by
  funext gid
  cases hno : it.nodeOperatorsStats.get? gid <;> simp [weightOf, hno, NodeOperatorStats.shift]

theorem balanceOf_shift {d : Delta} (h : d.noBalance = 0) :
    (it.shift d).balanceOf = it.balanceOf := by
  funext gid
  cases hno : it.nodeOperatorsStats.get? gid <;> simp [balanceOf, hno, NodeOperatorStats.shift, h]

@[simp] theorem ungrouped_shift {d : Delta} : (it.shift d).Ungrouped gid ↔ it.Ungrouped gid := by
  cases hno : it.nodeOperatorsStats.get? gid <;> simp [Ungrouped, hno, NodeOperatorStats.shift]

theorem ungrouped_mapNodeOperators
    (hi : ∀ no, (f gid no).internalOperatorGroup = no.internalOperatorGroup)
    (he : ∀ no, (f gid no).externalOperatorGroup = no.externalOperatorGroup) :
    (it.mapNodeOperators f).Ungrouped gid ↔ it.Ungrouped gid := by
  cases hno : it.nodeOperatorsStats.get? gid <;> simp [Ungrouped, hno, hi, he]

/-- Nobody whose record carries a group passes the check again. -/
theorem not_ungrouped_mapNodeOperators
    (h : ∀ no, (f gid no).internalOperatorGroup ≠ none ∨ (f gid no).externalOperatorGroup ≠ none) :
    ¬ (it.mapNodeOperators f).Ungrouped gid := by
  rintro ⟨no', hno', hi, he⟩
  rw [mapNodeOperators_nodeOperatorsStats, Dict.get?_mapKV] at hno'
  obtain ⟨no, -, rfl⟩ := Option.map_eq_some_iff.mp hno'
  exact (h no).elim (fun h => h hi) fun h => h he

theorem ungrouped_mark {gids : List NodeOperatorGlobalIndex} {f : NodeOperatorStats → NodeOperatorStats}
    (hf : ∀ no, (f no).internalOperatorGroup ≠ none ∨ (f no).externalOperatorGroup ≠ none) :
    (it.mapNodeOperators (mark gids f)).Ungrouped gid ↔ gid ∉ gids ∧ it.Ungrouped gid := by
  by_cases hg : gid ∈ gids
  · have hno : ¬ (it.mapNodeOperators (mark gids f)).Ungrouped gid :=
      not_ungrouped_mapNodeOperators fun no => by simpa [mark, hg] using hf no
    simp [hg, hno]
  · rw [ungrouped_mapNodeOperators (fun no => by simp [mark, hg]) fun no => by simp [mark, hg]]
    simp [hg]

end Lookups

theorem checkNotGrouped_ok_iff {it : ValidatorExitIterator} {gid : NodeOperatorGlobalIndex}
    {no : NodeOperatorStats} :
    it.checkNotGrouped gid = .ok no ↔ it.nodeOperatorsStats.get? gid = some no ∧
      no.internalOperatorGroup = none ∧ no.externalOperatorGroup = none := by
  simp only [checkNotGrouped, Except.bind_eq_ok, Py.getItem_eq_ok, Except.guard_eq_ok,
    Except.pure_eq_ok, Bool.or_eq_true, not_or, Option.not_isSome_iff_eq_none]
  constructor
  · rintro ⟨_, hno, h, rfl⟩
    exact ⟨hno, h⟩
  · rintro ⟨hno, h⟩
    exact ⟨no, hno, h, rfl⟩

section Linking

variable {group : OperatorGroup} {cmV1Id cmV2Id : StakingModuleId}

theorem linkExternalOperator_ok_iff {it : ValidatorExitIterator}
    {gids : List NodeOperatorGlobalIndex} {balance : ℤ} {op : ExternalOperator}
    {r : ValidatorExitIterator × List NodeOperatorGlobalIndex × ℤ} :
    linkExternalOperator group cmV1Id (it, gids, balance) op = .ok r ↔
      (op.getGid = .ok op.gid ∧ op.gid.1 = cmV1Id) ∧ it.Ungrouped op.gid ∧
        r = (it.mapNodeOperators (mark [op.gid] fun no =>
          { no with externalOperatorGroup := some group }), gids ++ [op.gid],
          balance + it.balanceOf op.gid) := by
  simp only [linkExternalOperator, Except.bind_eq_ok, Except.guard_eq_ok, not_not,
    checkNotGrouped_ok_iff, modifyNodeOperator_ok_iff, Except.pure_eq_ok]
  constructor
  · rintro ⟨gid, hgid, h1, no, hno, _, ⟨-, rfl⟩, rfl⟩
    obtain ⟨hgid, rfl⟩ := ExternalOperator.getGid_eq_ok_iff.mp hgid
    refine ⟨⟨hgid, h1⟩, ⟨no, hno⟩, ?_⟩
    simp [balanceOf_of_get? hno.1]
  · rintro ⟨⟨hgid, h1⟩, ⟨no, hno⟩, rfl⟩
    refine ⟨_, hgid, h1, no, hno, _, ⟨Dict.mem_of_get? hno.1, rfl⟩, ?_⟩
    simp [balanceOf_of_get? hno.1]

theorem linkInternalOperator_ok_iff {it : ValidatorExitIterator} {weight : ℚ} {balance : ℤ}
    {op : SubNodeOperator} {r : ValidatorExitIterator × ℚ × ℤ} :
    linkInternalOperator group cmV2Id (it, weight, balance) op = .ok r ↔
      it.Ungrouped (cmV2Id, op.nodeOperatorId) ∧
        r = (it.mapNodeOperators (mark [(cmV2Id, op.nodeOperatorId)] fun no =>
          { no with internalOperatorGroup := some group }),
          weight + it.weightOf (cmV2Id, op.nodeOperatorId),
          balance + it.balanceOf (cmV2Id, op.nodeOperatorId)) := by
  simp only [linkInternalOperator, Except.bind_eq_ok, checkNotGrouped_ok_iff,
    modifyNodeOperator_ok_iff, Except.pure_eq_ok]
  constructor
  · rintro ⟨no, hno, _, ⟨-, rfl⟩, rfl⟩
    refine ⟨⟨no, hno⟩, ?_⟩
    simp [balanceOf_of_get? hno.1, weightOf_of_get? hno.1]
  · rintro ⟨⟨no, hno⟩, rfl⟩
    refine ⟨no, hno, _, ⟨Dict.mem_of_get? hno.1, rfl⟩, ?_⟩
    simp [balanceOf_of_get? hno.1, weightOf_of_get? hno.1]

/-- The linking loops: each operator is checked before it is marked, so none can
come twice. The accumulator sees the weights and balances from before the loop. -/
theorem foldlM_link_ok_iff {α β : Type}
    {step : ValidatorExitIterator × β → α → Iter (ValidatorExitIterator × β)}
    {C : α → Prop} {f : NodeOperatorStats → NodeOperatorStats} (gid : α → NodeOperatorGlobalIndex)
    (acc : ℚ → ℤ → α → β → β)
    (hstep : ∀ it a x r, step (it, a) x = .ok r ↔ C x ∧ it.Ungrouped (gid x) ∧
      r = (it.mapNodeOperators (mark [gid x] f),
        acc (it.weightOf (gid x)) (it.balanceOf (gid x)) x a))
    (hf : ∀ no, (f no).internalOperatorGroup ≠ none ∨ (f no).externalOperatorGroup ≠ none)
    {xs : List α} {it : ValidatorExitIterator} {a : β} {r : ValidatorExitIterator × β} :
    xs.foldlM step (it, a) = .ok r ↔
      (∀ x ∈ xs, C x) ∧ (xs.map gid).Nodup ∧ (∀ x ∈ xs, it.Ungrouped (gid x)) ∧
        r = (it.mapNodeOperators (mark (xs.map gid) f), xs.foldl
          (fun a x => acc (it.weightOf (gid x)) (it.balanceOf (gid x)) x a) a) := by
  induction xs generalizing it a with
  | nil =>
    rw [List.foldlM_nil, Except.pure_eq_ok]
    rw [mapNodeOperators_id fun gid no => by simp [mark]]
    simp [eq_comm]
  | cons x xs ih =>
    have hmark : ∀ {y}, gid y ≠ gid x → ∀ no, mark [gid x] f (gid y) no = no := fun h no => by
      simp [mark, h]
    -- what the tail sees is what it would have seen before `x` was marked
    have htail : gid x ∉ xs.map gid →
        ((it.mapNodeOperators (mark [gid x] f)).mapNodeOperators (mark (xs.map gid) f),
          xs.foldl (fun a y => acc ((it.mapNodeOperators (mark [gid x] f)).weightOf (gid y))
            ((it.mapNodeOperators (mark [gid x] f)).balanceOf (gid y)) y a)
            (acc (it.weightOf (gid x)) (it.balanceOf (gid x)) x a)) =
        (it.mapNodeOperators (mark ((x :: xs).map gid) f), (x :: xs).foldl
          (fun a y => acc (it.weightOf (gid y)) (it.balanceOf (gid y)) y a) a) := by
      intro hx
      congr 1
      · rw [mapNodeOperators_mapNodeOperators]
        refine mapNodeOperators_congr fun k no => ?_
        by_cases hk : k = gid x
        · simp [mark, hk, hx]
        · simp [mark, hk]
      · rw [List.foldl_cons]
        refine List.foldl_ext _ _ _ fun b y hy => ?_
        have hne : gid y ≠ gid x := fun h => hx (h ▸ List.mem_map_of_mem hy)
        rw [weightOf_mapNodeOperators fun no => by rw [hmark hne],
          balanceOf_mapNodeOperators fun no => by rw [hmark hne]]
    rw [ExceptRun.foldlM_cons_ok, List.forall_mem_cons, List.forall_mem_cons, List.map_cons,
      List.nodup_cons]
    simp only [hstep]
    constructor
    · rintro ⟨_, ⟨hC, hx, rfl⟩, h⟩
      obtain ⟨hCs, hnodup, hxs, rfl⟩ := ih.mp h
      have hnot : gid x ∉ xs.map gid := fun h => by
        obtain ⟨y, hy, h⟩ := List.mem_map.mp h
        exact ((ungrouped_mark hf).mp (hxs y hy)).1 (by simp [h])
      exact ⟨⟨hC, hCs⟩, ⟨hnot, hnodup⟩, ⟨hx, fun y hy => ((ungrouped_mark hf).mp (hxs y hy)).2⟩,
        htail hnot⟩
    · rintro ⟨⟨hC, hCs⟩, ⟨hnot, hnodup⟩, ⟨hx, hxs⟩, rfl⟩
      refine ⟨_, ⟨hC, hx, rfl⟩, ih.mpr ⟨hCs, hnodup, fun y hy => ?_, (htail hnot).symm⟩⟩
      refine (ungrouped_mark hf).mpr ⟨fun h => hnot ?_, hxs y hy⟩
      exact List.mem_singleton.mp h ▸ List.mem_map_of_mem hy

theorem linkExternal_ok_iff {it : ValidatorExitIterator}
    {r : ValidatorExitIterator × List NodeOperatorGlobalIndex × ℤ} :
    group.externalOperators.foldlM (linkExternalOperator group cmV1Id) (it, [], 0) = .ok r ↔
      (∀ op ∈ group.externalOperators, op.getGid = .ok op.gid ∧ op.gid.1 = cmV1Id) ∧
        group.externalGids.Nodup ∧ (∀ gid ∈ group.externalGids, it.Ungrouped gid) ∧
        r = (it.mapNodeOperators (mark group.externalGids fun no =>
          { no with externalOperatorGroup := some group }), group.externalGids,
          (group.externalGids.map it.balanceOf).sum) := by
  rw [foldlM_link_ok_iff (C := fun op => op.getGid = .ok op.gid ∧ op.gid.1 = cmV1Id)
    (f := fun no => { no with externalOperatorGroup := some group })
    (fun op => op.gid) (fun _ b op a => (a.1 ++ [op.gid], a.2 + b))
    (fun it a op r => linkExternalOperator_ok_iff) fun no => .inr (by simp)]
  have hacc : ∀ (ops : List ExternalOperator) (a : List NodeOperatorGlobalIndex × ℤ),
      ops.foldl (fun a op => (a.1 ++ [op.gid], a.2 + it.balanceOf op.gid)) a =
        (a.1 ++ ops.map (·.gid), a.2 + ((ops.map (·.gid)).map it.balanceOf).sum) := by
    intro ops
    induction ops with
    | nil => simp
    | cons op ops ih => intro a; simp [ih, add_assoc]
  simp [hacc, OperatorGroup.externalGids]

theorem linkInternal_ok_iff {it : ValidatorExitIterator} {r : ValidatorExitIterator × ℚ × ℤ} :
    group.subNodeOperators.foldlM (linkInternalOperator group cmV2Id) (it, 0, 0) = .ok r ↔
      (group.internalGids cmV2Id).Nodup ∧ (∀ gid ∈ group.internalGids cmV2Id, it.Ungrouped gid) ∧
        r = (it.mapNodeOperators (mark (group.internalGids cmV2Id) fun no =>
          { no with internalOperatorGroup := some group }),
          group.internalWeight cmV2Id it.weightOf,
          ((group.internalGids cmV2Id).map it.balanceOf).sum) := by
  rw [foldlM_link_ok_iff (C := fun _ => True)
    (f := fun no => { no with internalOperatorGroup := some group })
    (fun op : SubNodeOperator => (cmV2Id, op.nodeOperatorId)) (fun w b _ a => (a.1 + w, a.2 + b))
    (fun it a op r => by rw [true_and]; exact linkInternalOperator_ok_iff) fun no => .inl (by simp)]
  have hacc : ∀ (ops : List SubNodeOperator) (a : ℚ × ℤ),
      ops.foldl (fun a op => (a.1 + it.weightOf (cmV2Id, op.nodeOperatorId),
        a.2 + it.balanceOf (cmV2Id, op.nodeOperatorId))) a =
      (a.1 + (ops.map fun op => it.weightOf (cmV2Id, op.nodeOperatorId)).sum,
        a.2 + (ops.map fun op => it.balanceOf (cmV2Id, op.nodeOperatorId)).sum) := by
    intro ops
    induction ops with
    | nil => simp
    | cons op ops ih => intro a; simp [ih, add_assoc]
  simp [hacc, OperatorGroup.internalGids, OperatorGroup.internalWeight, Function.comp_def]

end Linking

section Spreading

variable {it it' : ValidatorExitIterator} {cmV2Id : StakingModuleId}

theorem spreadExternal_ok_iff {balance : ℤ} {W : ℚ} {ops : List SubNodeOperator} :
    ops.foldlM (spreadExternalBalance cmV2Id balance W) it = .ok it' ↔
      (∀ op ∈ ops, (cmV2Id, op.nodeOperatorId) ∈ it.nodeOperatorsStats ∧ W ≠ 0) ∧
        it' = it.shift (Delta.operatorStake ((ops.map fun op => (cmV2Id, op.nodeOperatorId)).map
          fun gid => Pi.single gid (balance * it.weightOf gid / W)).sum) := by
  rw [List.map_map, ← Delta.sum_operatorStake]
  refine foldlM_shift_ok_iff fun d op it'' => ?_
  simp only [spreadExternalBalance, Except.bind_eq_ok, Py.getItem_eq_ok, Py.trueDiv_eq_ok,
    modifyNodeOperator_stake_ok_iff]
  constructor
  · rintro ⟨no, hno, _, ⟨hW, rfl⟩, hk, rfl⟩
    rw [← weightOf_of_get? hno, weightOf_shift]
    exact ⟨⟨by simpa using hk, hW⟩, rfl⟩
  · rintro ⟨⟨hk, hW⟩, rfl⟩
    have hk' : (cmV2Id, op.nodeOperatorId) ∈ (it.shift d).nodeOperatorsStats := by simpa using hk
    obtain ⟨no, hno⟩ := Dict.mem_iff_exists_get?.mp hk'
    refine ⟨no, hno, _, ⟨hW, rfl⟩, hk', ?_⟩
    rw [← weightOf_of_get? hno, weightOf_shift]
    rfl

theorem spreadInternalBalance_ok_iff {balance : ℤ} {W : ℚ} {n : ℕ}
    {gid : NodeOperatorGlobalIndex} :
    spreadInternalBalance balance W n it gid = .ok it' ↔
      (gid ∈ it.nodeOperatorsStats ∧ (n : ℚ) ≠ 0) ∧
        it' = (it.mapNodeOperators (mark [gid] fun no => { no with weight := W / n })).shift
          (Delta.operatorStake (Pi.single gid (balance / n))) := by
  simp only [spreadInternalBalance, Except.bind_eq_ok, Py.trueDiv_eq_ok,
    modifyNodeOperator_stake_ok_iff]
  simp only [modifyNodeOperator_ok_iff]
  have hcomm : ∀ x, (it.shift (Delta.operatorStake (Pi.single gid x))).mapNodeOperators
      (mark [gid] fun no => { no with weight := W / n }) =
      (it.mapNodeOperators (mark [gid] fun no => { no with weight := W / n })).shift
        (Delta.operatorStake (Pi.single gid x)) := fun x =>
    mapNodeOperators_shift _ _ fun k no => by
      by_cases hk : k = gid <;> simp [mark, hk, NodeOperatorStats.shift]
  constructor
  · rintro ⟨_, ⟨hn, rfl⟩, _, ⟨hk, rfl⟩, _, ⟨-, rfl⟩, -, rfl⟩
    exact ⟨⟨hk, hn⟩, hcomm _⟩
  · rintro ⟨⟨hk, hn⟩, rfl⟩
    exact ⟨_, ⟨hn, rfl⟩, _, ⟨hk, rfl⟩, _, ⟨hn, rfl⟩, by simpa using hk, (hcomm _).symm⟩

theorem spreadInternal_ok_iff {balance : ℤ} {W : ℚ} {n : ℕ} {gids : List NodeOperatorGlobalIndex} :
    gids.foldlM (spreadInternalBalance balance W n) it = .ok it' ↔
      (∀ gid ∈ gids, gid ∈ it.nodeOperatorsStats ∧ (n : ℚ) ≠ 0) ∧
        it' = (it.mapNodeOperators (mark gids fun no => { no with weight := W / n })).shift
          (Delta.operatorStake (gids.map fun gid => Pi.single gid (balance / n : ℚ)).sum) := by
  induction gids generalizing it with
  | nil =>
    rw [List.foldlM_nil, Except.pure_eq_ok]
    rw [mapNodeOperators_id fun gid no => by simp [mark], List.map_nil, List.sum_nil,
      show Delta.operatorStake 0 = 0 from rfl, shift_zero]
    simp [eq_comm]
  | cons gid gids ih =>
    rw [ExceptRun.foldlM_cons_ok, List.forall_mem_cons, List.map_cons, List.sum_cons,
      Delta.operatorStake_add]
    simp only [spreadInternalBalance_ok_iff, ih]
    have hstate : ((((it.mapNodeOperators (mark [gid] fun no => { no with weight := W / n })).shift
        (Delta.operatorStake (Pi.single gid (balance / n)))).mapNodeOperators
          (mark gids fun no => { no with weight := W / n })).shift
        (Delta.operatorStake (gids.map fun gid => Pi.single gid (balance / n : ℚ)).sum)) =
      (it.mapNodeOperators (mark (gid :: gids) fun no => { no with weight := W / n })).shift
        (Delta.operatorStake (Pi.single gid (balance / n)) +
          Delta.operatorStake (gids.map fun gid => Pi.single gid (balance / n : ℚ)).sum) := by
      rw [mapNodeOperators_shift _ _ fun k no => by
        by_cases hk : k ∈ gids <;> simp [mark, hk, NodeOperatorStats.shift],
        mapNodeOperators_mapNodeOperators, shift_shift]
      congr 1
      refine mapNodeOperators_congr fun k no => ?_
      by_cases hk : k = gid <;> by_cases hks : k ∈ gids <;> simp [mark, hk, hks]
    constructor
    · rintro ⟨_, ⟨hk, rfl⟩, hks, rfl⟩
      exact ⟨⟨hk, fun k h => by simpa using hks k h⟩, hstate⟩
    · rintro ⟨⟨hk, hks⟩, rfl⟩
      exact ⟨_, ⟨hk, rfl⟩, fun k h => by simpa using hks k h, hstate.symm⟩

end Spreading

/-- What the members of a group have to satisfy, connected or not -/
structure MembersOk (cmV1Id cmV2Id : StakingModuleId) (it : ValidatorExitIterator)
    (group : OperatorGroup) : Prop where
  external : ∀ op ∈ group.externalOperators, op.getGid = .ok op.gid ∧ op.gid.1 = cmV1Id
  nodup : (group.gids cmV2Id).Nodup
  ungrouped : ∀ gid ∈ group.gids cmV2Id, it.Ungrouped gid

/-- What a group that is accepted satisfies -/
structure Linkable (cmV1Id cmV2Id : StakingModuleId) (it : ValidatorExitIterator)
    (group : OperatorGroup) : Prop extends MembersOk cmV1Id cmV2Id it group where
  connected : group.hasConnection → group.internalWeight cmV2Id it.weightOf ≠ 0 ∧
    cmV1Id ∈ it.moduleStats ∧ cmV2Id ∈ it.moduleStats

/-- A group stays acceptable where nobody in it has been linked or reweighted. -/
theorem Linkable.of_agree {cmV1Id cmV2Id : StakingModuleId} {it it' : ValidatorExitIterator}
    {group : OperatorGroup} (h : Linkable cmV1Id cmV2Id it group)
    (hun : ∀ gid ∈ group.gids cmV2Id, it.Ungrouped gid → it'.Ungrouped gid)
    (hw : ∀ gid ∈ group.internalGids cmV2Id, it.weightOf gid = it'.weightOf gid)
    (hm : ∀ id, id ∈ it.moduleStats → id ∈ it'.moduleStats) :
    Linkable cmV1Id cmV2Id it' group where
  external := h.external
  nodup := h.nodup
  ungrouped gid hg := hun gid hg (h.ungrouped gid hg)
  connected hc := by
    obtain ⟨hW, h1, h2⟩ := h.connected hc
    have hW' : group.internalWeight cmV2Id it.weightOf = group.internalWeight cmV2Id it'.weightOf := by
      rw [OperatorGroup.internalWeight, OperatorGroup.internalWeight, List.map_congr_left hw]
    exact ⟨hW' ▸ hW, hm _ h1, hm _ h2⟩

section ProcessGroup

variable {cmV1Id cmV2Id : StakingModuleId} {group : OperatorGroup} {it it' : ValidatorExitIterator}

/-- The records after both linking loops -/
def markMembers (cmV2Id : StakingModuleId) (group : OperatorGroup) (it : ValidatorExitIterator) :
    ValidatorExitIterator :=
  (it.mapNodeOperators (mark group.externalGids fun no =>
    { no with externalOperatorGroup := some group })).mapNodeOperators
    (mark (group.internalGids cmV2Id) fun no => { no with internalOperatorGroup := some group })

theorem markMembers_of_not_connected
    (hd : group.externalGids.Disjoint (group.internalGids cmV2Id)) (hc : ¬ group.hasConnection) :
    markMembers cmV2Id group it = it.mapNodeOperators (group.link cmV2Id it.weightOf) := by
  rw [markMembers, mapNodeOperators_mapNodeOperators]
  refine mapNodeOperators_congr fun k no => ?_
  by_cases he : k ∈ group.externalGids
  · have hi : k ∉ group.internalGids cmV2Id := hd he
    simp [OperatorGroup.link, mark, he, hi, hc]
  · simp [OperatorGroup.link, mark, he]

theorem markMembers_of_connected
    (hd : group.externalGids.Disjoint (group.internalGids cmV2Id)) (hc : group.hasConnection) :
    (markMembers cmV2Id group it).mapNodeOperators (mark group.externalGids fun no => { no with
      weight := group.internalWeight cmV2Id it.weightOf / group.externalGids.length }) =
    it.mapNodeOperators (group.link cmV2Id it.weightOf) := by
  rw [markMembers, mapNodeOperators_mapNodeOperators, mapNodeOperators_mapNodeOperators]
  refine mapNodeOperators_congr fun k no => ?_
  by_cases he : k ∈ group.externalGids
  · have hi : k ∉ group.internalGids cmV2Id := hd he
    simp [OperatorGroup.link, mark, he, hi, hc]
  · simp [OperatorGroup.link, mark, he]

theorem weightOf_mark {gids : List NodeOperatorGlobalIndex} {f : NodeOperatorStats → NodeOperatorStats}
    (hf : ∀ no, (f no).weight = no.weight) :
    (it.mapNodeOperators (mark gids f)).weightOf = it.weightOf :=
  funext fun gid => weightOf_mapNodeOperators fun no => by
    by_cases h : gid ∈ gids <;> simp [mark, h, hf]

theorem balanceOf_mark {gids : List NodeOperatorGlobalIndex} {f : NodeOperatorStats → NodeOperatorStats}
    (hf : ∀ no, (f no).predictableBalance = no.predictableBalance) :
    (it.mapNodeOperators (mark gids f)).balanceOf = it.balanceOf :=
  funext fun gid => balanceOf_mapNodeOperators fun no => by
    by_cases h : gid ∈ gids <;> simp [mark, h, hf]

/-- The internal loop sees the weights and balances from before the external loop. -/
theorem weightOf_markExternal : (it.mapNodeOperators (mark group.externalGids fun no =>
    { no with externalOperatorGroup := some group })).weightOf = it.weightOf :=
  weightOf_mark fun _ => rfl

theorem balanceOf_markExternal : (it.mapNodeOperators (mark group.externalGids fun no =>
    { no with externalOperatorGroup := some group })).balanceOf = it.balanceOf :=
  balanceOf_mark fun _ => rfl

@[simp] theorem weightOf_markMembers : (markMembers cmV2Id group it).weightOf = it.weightOf := by
  rw [← @weightOf_markExternal group it]
  exact weightOf_mark fun _ => rfl

/-- The two linking loops together check and mark every member. -/
theorem linkLoops_ok_iff {f : ValidatorExitIterator × List NodeOperatorGlobalIndex × ℤ →
    ValidatorExitIterator × ℚ × ℤ → Iter ValidatorExitIterator} :
    (do let r ← group.externalOperators.foldlM (linkExternalOperator group cmV1Id) (it, [], 0)
        let r' ← group.subNodeOperators.foldlM (linkInternalOperator group cmV2Id) (r.1, 0, 0)
        f r r') = .ok it' ↔
      MembersOk cmV1Id cmV2Id it group ∧
        f (it.mapNodeOperators (mark group.externalGids fun no =>
            { no with externalOperatorGroup := some group }), group.externalGids,
            (group.externalGids.map it.balanceOf).sum)
          (markMembers cmV2Id group it, group.internalWeight cmV2Id it.weightOf,
            ((group.internalGids cmV2Id).map it.balanceOf).sum) = .ok it' := by
  simp only [Except.bind_eq_ok, linkExternal_ok_iff, linkInternal_ok_iff]
  constructor
  · rintro ⟨_, ⟨hext, hndE, hunE, rfl⟩, _, ⟨hndI, hunI, rfl⟩, h⟩
    have hun : ∀ gid ∈ group.internalGids cmV2Id, gid ∉ group.externalGids ∧ it.Ungrouped gid :=
      fun gid hg => (ungrouped_mark fun no => .inr (by simp)).mp (hunI gid hg)
    simp only [weightOf_markExternal, balanceOf_markExternal] at h
    refine ⟨⟨hext, ?_, ?_⟩, h⟩
    · exact List.nodup_append'.mpr ⟨hndE, hndI, fun gid he hi => (hun gid hi).1 he⟩
    · exact List.forall_mem_append.mpr ⟨hunE, fun gid hg => (hun gid hg).2⟩
  · rintro ⟨⟨hext, hnd, hun⟩, h⟩
    obtain ⟨hndE, hndI, hd⟩ := List.nodup_append'.mp hnd
    obtain ⟨hunE, hunI⟩ := List.forall_mem_append.mp hun
    refine ⟨_, ⟨hext, hndE, hunE, rfl⟩, _, ⟨hndI, fun gid hg => ?_, rfl⟩, ?_⟩
    · exact (ungrouped_mark fun no => .inr (by simp)).mpr ⟨fun he => hd he hg, hunI gid hg⟩
    · simp only [weightOf_markExternal, balanceOf_markExternal]
      exact h

/-- An accepted group leaves its links and posts its delta, nothing else. -/
theorem processGroup_ok_iff :
    processGroup cmV1Id cmV2Id it group = .ok it' ↔ Linkable cmV1Id cmV2Id it group ∧
      it' = (it.mapNodeOperators (group.link cmV2Id it.weightOf)).shift
        (group.delta cmV2Id cmV1Id it.weightOf it.balanceOf) := by
  unfold processGroup
  refine linkLoops_ok_iff.trans ?_
  by_cases hc : group.hasConnection
  · simp only [hc, Bool.not_true, Bool.false_eq_true, if_false, Except.bind_eq_ok,
      spreadExternal_ok_iff, spreadInternal_ok_iff, modifyModule_stake_ok_iff]
    have hstate : group.externalGids.Disjoint (group.internalGids cmV2Id) →
        ∀ A B C D : Delta, (((((markMembers cmV2Id group it).shift A).mapNodeOperators
          (mark group.externalGids fun no => { no with
            weight := group.internalWeight cmV2Id it.weightOf / group.externalGids.length })).shift
            B).shift C).shift D =
          (it.mapNodeOperators (group.link cmV2Id it.weightOf)).shift (A + B + C + D) := by
      intro hd A B C D
      rw [mapNodeOperators_shift _ _ fun k no => by
        by_cases hk : k ∈ group.externalGids <;> simp [mark, hk, NodeOperatorStats.shift],
        markMembers_of_connected hd hc]
      simp only [shift_shift, add_assoc]
    have hdelta : group.delta cmV2Id cmV1Id it.weightOf it.balanceOf = _ := if_pos hc
    rw [OperatorGroup.stakeShares, Delta.operatorStake_add] at hdelta
    obtain ⟨hsub, hext⟩ := group.hasConnection_iff.mp hc
    constructor
    · rintro ⟨hm, _, ⟨hs, rfl⟩, _, ⟨he, rfl⟩, _, ⟨h1, rfl⟩, h2, rfl⟩
      have hd := (List.nodup_append'.mp hm.nodup).2.2
      obtain ⟨op, hop⟩ := List.exists_mem_of_ne_nil _ hsub
      refine ⟨⟨hm, fun _ => ⟨(hs op hop).2, ?_, ?_⟩⟩, ?_⟩
      · simpa [markMembers] using h1
      · simpa [markMembers] using h2
      · rw [hstate hd, hdelta, weightOf_markMembers]
        rfl
    · rintro ⟨⟨hm, hconn⟩, rfl⟩
      have hd := (List.nodup_append'.mp hm.nodup).2.2
      obtain ⟨hW, h1, h2⟩ := hconn hc
      obtain ⟨hunE, hunI⟩ := List.forall_mem_append.mp hm.ungrouped
      refine ⟨hm, _, ⟨fun op hop => ⟨?_, hW⟩, rfl⟩, _, ⟨fun gid hg => ⟨?_, ?_⟩, rfl⟩, _,
        ⟨?_, rfl⟩, ?_, ?_⟩
      · simpa [markMembers] using (hunI _ (List.mem_map_of_mem hop)).mem
      · simpa [markMembers] using (hunE gid hg).mem
      · simpa [OperatorGroup.externalGids] using hext
      · simpa [markMembers] using h1
      · simpa [markMembers] using h2
      · rw [hstate hd, hdelta, weightOf_markMembers]
        rfl
  · simp only [hc, Bool.not_false, if_true, Except.pure_eq_ok]
    have hdelta : group.delta cmV2Id cmV1Id it.weightOf it.balanceOf = 0 := if_neg hc
    rw [hdelta, shift_zero]
    constructor
    · rintro ⟨hm, rfl⟩
      exact ⟨⟨hm, fun h => absurd h hc⟩,
        markMembers_of_not_connected (List.nodup_append'.mp hm.nodup).2.2 hc⟩
    · rintro ⟨⟨hm, -⟩, rfl⟩
      exact ⟨hm, markMembers_of_not_connected (List.nodup_append'.mp hm.nodup).2.2 hc⟩

end ProcessGroup

end ValidatorExitIterator

namespace OperatorGroup

variable {cmV1Id cmV2Id : StakingModuleId} {group : OperatorGroup}
  {w w' : NodeOperatorGlobalIndex → ℚ} {b : NodeOperatorGlobalIndex → ℤ}

/-! Only the weights of the group's own internal operators matter. -/

section Congr

variable (hw : ∀ gid ∈ group.internalGids cmV2Id, w gid = w' gid)
include hw

theorem internalWeight_congr : group.internalWeight cmV2Id w = group.internalWeight cmV2Id w' := by
  rw [internalWeight, internalWeight, List.map_congr_left hw]

theorem link_congr : group.link cmV2Id w = group.link cmV2Id w' := by
  funext gid no
  simp only [link, internalWeight_congr hw]

theorem delta_congr : group.delta cmV2Id cmV1Id w b = group.delta cmV2Id cmV1Id w' b := by
  have hmap : (group.internalGids cmV2Id).map (fun gid => Pi.single gid
      (group.externalBalance b * w gid / group.internalWeight cmV2Id w')) =
    (group.internalGids cmV2Id).map fun gid => (Pi.single gid
      (group.externalBalance b * w' gid / group.internalWeight cmV2Id w') :
        NodeOperatorGlobalIndex → ℚ) :=
    List.map_congr_left fun gid hg => by rw [hw gid hg]
  simp only [delta, stakeShares, internalWeight_congr hw, hmap]

end Congr

theorem delta_congr_balance {b' : NodeOperatorGlobalIndex → ℤ}
    (hb : ∀ gid ∈ group.gids cmV2Id, b gid = b' gid) :
    group.delta cmV2Id cmV1Id w b = group.delta cmV2Id cmV1Id w b' := by
  have hext : group.externalBalance b = group.externalBalance b' := by
    rw [externalBalance, externalBalance,
      List.map_congr_left fun gid hg => hb gid (List.mem_append_left _ hg)]
  have hint : group.internalBalance cmV2Id b = group.internalBalance cmV2Id b' := by
    rw [internalBalance, internalBalance,
      List.map_congr_left fun gid hg => hb gid (List.mem_append_right _ hg)]
  simp only [delta, stakeShares, hext, hint]

theorem link_of_not_mem {gid : NodeOperatorGlobalIndex} (h : gid ∉ group.gids cmV2Id)
    (no : NodeOperatorStats) : group.link cmV2Id w gid no = no := by
  rw [gids, List.mem_append, not_or] at h
  rw [link, if_neg h.1, if_neg h.2]

theorem link_shift (gid : NodeOperatorGlobalIndex) (no : NodeOperatorStats) (d : Delta) :
    group.link cmV2Id w gid (no.shift gid d) = (group.link cmV2Id w gid no).shift gid d := by
  unfold link
  split_ifs <;> rfl

/-- A group posts stake only. -/
theorem delta_stake_only (w : NodeOperatorGlobalIndex → ℚ) (b : NodeOperatorGlobalIndex → ℤ) :
    (group.delta cmV2Id cmV1Id w b).total = 0 ∧ (group.delta cmV2Id cmV1Id w b).smBalance = 0 ∧
      (group.delta cmV2Id cmV1Id w b).noValidators = 0 ∧
      (group.delta cmV2Id cmV1Id w b).noBalance = 0 := by
  unfold delta
  split_ifs
  · simp [Delta.operatorStake, Delta.moduleStake, Delta.module]
  · exact ⟨rfl, rfl, rfl, rfl⟩

end OperatorGroup

namespace ValidatorExitIterator

/-- The links of all groups; each operator is a member of one group at most. -/
def linkAll (cmV2Id : StakingModuleId) (w : NodeOperatorGlobalIndex → ℚ)
    (groups : List OperatorGroup) (gid : NodeOperatorGlobalIndex) (no : NodeOperatorStats) :
    NodeOperatorStats :=
  groups.foldl (fun no group => group.link cmV2Id w gid no) no

section Groups

variable {cmV1Id cmV2Id : StakingModuleId} {it it' : ValidatorExitIterator}

theorem linkAll_shift {w : NodeOperatorGlobalIndex → ℚ} {groups : List OperatorGroup}
    (gid : NodeOperatorGlobalIndex) (no : NodeOperatorStats) (d : Delta) :
    linkAll cmV2Id w groups gid (no.shift gid d) =
      (linkAll cmV2Id w groups gid no).shift gid d := by
  induction groups generalizing no with
  | nil => rfl
  | cons group groups ih =>
    rw [linkAll, List.foldl_cons, OperatorGroup.link_shift]
    exact ih _

theorem ungrouped_link {group : OperatorGroup} {w : NodeOperatorGlobalIndex → ℚ}
    {gid : NodeOperatorGlobalIndex} :
    (it.mapNodeOperators (group.link cmV2Id w)).Ungrouped gid ↔
      gid ∉ group.gids cmV2Id ∧ it.Ungrouped gid := by
  by_cases hg : gid ∈ group.gids cmV2Id
  · have hno : ¬ (it.mapNodeOperators (group.link cmV2Id w)).Ungrouped gid := by
      refine not_ungrouped_mapNodeOperators fun no => ?_
      by_cases he : gid ∈ group.externalGids
      · exact .inr (by simp [OperatorGroup.link, he])
      · have hi : gid ∈ group.internalGids cmV2Id := (List.mem_append.mp hg).resolve_left he
        exact .inl (by simp [OperatorGroup.link, he, hi])
    simp [hg, hno]
  · rw [ungrouped_mapNodeOperators (fun no => by rw [OperatorGroup.link_of_not_mem hg])
      fun no => by rw [OperatorGroup.link_of_not_mem hg]]
    simp [hg]

/-- Accepted groups have no member in common, and each posts what it would post alone. -/
theorem processGroups_ok_iff {groups : List OperatorGroup} :
    groups.foldlM (processGroup cmV1Id cmV2Id) it = .ok it' ↔
      ((∀ group ∈ groups, Linkable cmV1Id cmV2Id it group) ∧
        (groups.flatMap (OperatorGroup.gids cmV2Id)).Nodup) ∧
        it' = (it.mapNodeOperators (linkAll cmV2Id it.weightOf groups)).shift
          (groups.map fun group => group.delta cmV2Id cmV1Id it.weightOf it.balanceOf).sum := by
  induction groups generalizing it with
  | nil =>
    rw [List.foldlM_nil, Except.pure_eq_ok]
    rw [mapNodeOperators_id (f := linkAll cmV2Id it.weightOf []) fun gid no => rfl]
    simp [eq_comm]
  | cons group groups ih =>
    rw [ExceptRun.foldlM_cons_ok, List.forall_mem_cons, List.flatMap_cons, List.map_cons,
      List.sum_cons, List.nodup_append']
    simp only [processGroup_ok_iff, ih]
    set d := group.delta cmV2Id cmV1Id it.weightOf it.balanceOf with hd
    set it₁ := (it.mapNodeOperators (group.link cmV2Id it.weightOf)).shift d with hit₁
    have hun : ∀ gid, it₁.Ungrouped gid ↔ gid ∉ group.gids cmV2Id ∧ it.Ungrouped gid := fun gid => by
      rw [hit₁, ungrouped_shift, ungrouped_link]
    have hw : ∀ gid, gid ∉ group.gids cmV2Id → it₁.weightOf gid = it.weightOf gid := fun gid hg => by
      rw [hit₁, weightOf_shift]
      exact weightOf_mapNodeOperators fun no => by rw [OperatorGroup.link_of_not_mem hg]
    have hb : it₁.balanceOf = it.balanceOf := by
      rw [hit₁, balanceOf_shift (OperatorGroup.delta_stake_only _ _).2.2.2]
      funext gid
      exact balanceOf_mapNodeOperators fun no => by unfold OperatorGroup.link; split_ifs <;> rfl
    have hmod : ∀ id, id ∈ it₁.moduleStats ↔ id ∈ it.moduleStats := fun id => by simp [hit₁]
    -- a group with no member in `group` is judged and linked as before
    have hint : ∀ {g : OperatorGroup}, (group.gids cmV2Id).Disjoint (g.gids cmV2Id) →
        ∀ gid ∈ g.internalGids cmV2Id, it₁.weightOf gid = it.weightOf gid := fun hdis gid hg =>
      hw gid fun h => hdis h (List.mem_append_right _ hg)
    have hlink : ∀ {g : OperatorGroup}, (group.gids cmV2Id).Disjoint (g.gids cmV2Id) →
        (Linkable cmV1Id cmV2Id it₁ g ↔ Linkable cmV1Id cmV2Id it g) := by
      intro g hdis
      constructor
      · exact fun h => h.of_agree (fun gid _ hu => ((hun gid).mp hu).2) (hint hdis)
          fun id => (hmod id).mp
      · exact fun h => h.of_agree (fun gid hg hu => (hun gid).mpr ⟨fun h => hdis h hg, hu⟩)
          (fun gid hg => (hint hdis gid hg).symm) fun id => (hmod id).mpr
    have hstate : (∀ g ∈ groups, (group.gids cmV2Id).Disjoint (g.gids cmV2Id)) →
        (it₁.mapNodeOperators (linkAll cmV2Id it₁.weightOf groups)).shift
          (groups.map fun g => g.delta cmV2Id cmV1Id it₁.weightOf it₁.balanceOf).sum =
        (it.mapNodeOperators (linkAll cmV2Id it.weightOf (group :: groups))).shift
          (d + (groups.map fun g => g.delta cmV2Id cmV1Id it.weightOf it.balanceOf).sum) := by
      intro hdis
      have hall : linkAll cmV2Id it₁.weightOf groups = linkAll cmV2Id it.weightOf groups := by
        funext gid no
        exact List.foldl_ext _ _ _ fun no g hg =>
          congrFun (congrFun (OperatorGroup.link_congr (hint (hdis g hg))) gid) no
      have hsum : (groups.map fun g => g.delta cmV2Id cmV1Id it₁.weightOf it₁.balanceOf) =
          groups.map fun g => g.delta cmV2Id cmV1Id it.weightOf it.balanceOf :=
        List.map_congr_left fun g hg => by rw [OperatorGroup.delta_congr (hint (hdis g hg)), hb]
      rw [hall, hsum, hit₁, mapNodeOperators_shift _ _ fun gid no => linkAll_shift gid no d,
        mapNodeOperators_mapNodeOperators, shift_shift]
      rfl
    constructor
    · rintro ⟨_, ⟨hg, rfl⟩, ⟨hgs, hnd⟩, rfl⟩
      have hdis : ∀ g ∈ groups, (group.gids cmV2Id).Disjoint (g.gids cmV2Id) :=
        fun g hg gid h1 h2 => ((hun gid).mp ((hgs g hg).ungrouped gid h2)).1 h1
      refine ⟨⟨⟨hg, fun g h => (hlink (hdis g h)).mp (hgs g h)⟩, hg.nodup, hnd, ?_⟩, hstate hdis⟩
      intro gid h1 h2
      obtain ⟨g, h, h2⟩ := List.mem_flatMap.mp h2
      exact hdis g h h1 h2
    · rintro ⟨⟨⟨hg, hgs⟩, -, hnd, hdis'⟩, rfl⟩
      have hdis : ∀ g ∈ groups, (group.gids cmV2Id).Disjoint (g.gids cmV2Id) :=
        fun g h gid h1 h2 => hdis' h1 (List.mem_flatMap.mpr ⟨g, h, h2⟩)
      exact ⟨_, ⟨hg, rfl⟩, ⟨fun g h => (hlink (hdis g h)).mpr (hgs g h), hnd⟩, (hstate hdis).symm⟩

end Groups

end ValidatorExitIterator

end LidoOracle
