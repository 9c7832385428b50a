import LidoOracle.ExitOrder.Ejection

/-! Bookkeeping of a run. The figures kept while validators are ejected are the
figures that a fresh calculation gives for the validators that remain, and the
totals of the levels agree. -/

namespace LidoOracle

/-- A posting on which the three levels agree -/
structure Balanced (st : StakingState) (d : Delta) : Prop where
  modules : ((ValidatorExitIterator.prepareModuleStats st).keys.map d.smBalance).sum = d.total
  operators :
    ((ValidatorExitIterator.prepareNodeOperatorStats st).keys.map d.noBalance).sum = d.total
  stake : ∀ id ∈ ValidatorExitIterator.prepareModuleStats st, d.smStake id =
    ((ValidatorExitIterator.prepareNodeOperatorStats st).keys.map
      fun gid => if gid.1 = id then d.noStake gid else 0).sum

namespace Balanced

open ValidatorExitIterator

variable {st : StakingState}

theorem zero : Balanced st 0 where
  modules := sum_map_zero _
  operators := sum_map_zero _
  stake := by simp

theorem add {a b : Delta} (ha : Balanced st a) (hb : Balanced st b) : Balanced st (a + b) where
  modules := by
    rw [Delta.add_total, ← ha.modules, ← hb.modules, ← List.sum_map_add]
    rfl
  operators := by
    rw [Delta.add_total, ← ha.operators, ← hb.operators, ← List.sum_map_add]
    rfl
  stake id hid := by
    rw [Delta.add_smStake, Pi.add_apply, ha.stake id hid, hb.stake id hid, ← List.sum_map_add]
    refine congrArg List.sum (List.map_congr_left fun gid _ => ?_)
    split_ifs <;> simp

theorem sum {l : List Delta} (h : ∀ d ∈ l, Balanced st d) : Balanced st l.sum := by
  induction l with
  | nil => exact zero
  | cons d l ih =>
    rw [List.forall_mem_cons] at h
    rw [List.sum_cons]
    exact h.1.add (ih h.2)

/-- The stake of one module's operators in a posting to a single operator -/
theorem sum_module_single {gid : NodeOperatorGlobalIndex} (h : gid ∈ prepareNodeOperatorStats st)
    (id : StakingModuleId) (y : ℚ) :
    ((prepareNodeOperatorStats st).keys.map
      fun k => if k.1 = id then (Pi.single gid y : NodeOperatorGlobalIndex → ℚ) k else 0).sum =
      if gid.1 = id then y else 0 := by
  have hone : ((prepareNodeOperatorStats st).keys.map
      fun k => if k.1 = id then (Pi.single gid y : NodeOperatorGlobalIndex → ℚ) k else 0) =
      (prepareNodeOperatorStats st).keys.map (Pi.single gid (if gid.1 = id then y else 0)) := by
    refine List.map_congr_left fun k _ => ?_
    by_cases hk : k = gid
    · simp [hk]
    · simp [hk]
  rw [hone, sum_map_single_of_mem (Dict.keys_nodup _) h]

theorem credit {gid : NodeOperatorGlobalIndex} (hm : gid.1 ∈ prepareModuleStats st)
    (hk : gid ∈ prepareNodeOperatorStats st) (x : Gwei) : Balanced st (Delta.credit gid x) where
  modules := by
    simpa [Delta.credit, Delta.lido, Delta.module, Delta.operator] using
      sum_map_single_of_mem (Dict.keys_nodup _) hm (x : ℤ)
  operators := by
    simpa [Delta.credit, Delta.lido, Delta.module, Delta.operator] using
      sum_map_single_of_mem (Dict.keys_nodup _) hk (x : ℤ)
  stake id _ := by
    have h := sum_module_single hk id x
    simp only [Delta.credit, Delta.lido, Delta.module, Delta.operator, Delta.add_smStake,
      Delta.add_noStake, Delta.zero_smStake, Delta.zero_noStake, zero_add, add_zero, Int.cast_natCast]
    rw [h, Pi.single_apply]
    simp [eq_comm]

theorem count (gid : NodeOperatorGlobalIndex) (n : ℤ) : Balanced st (Delta.count gid n) where
  modules := sum_map_zero _
  operators := by simpa [Delta.count, Delta.operator] using sum_map_zero _
  stake := by simp [Delta.count, Delta.operator]

theorem sum_module_shares {gids : List NodeOperatorGlobalIndex}
    (hk : ∀ gid ∈ gids, gid ∈ prepareNodeOperatorStats st) {id₀ : StakingModuleId}
    (hid : ∀ gid ∈ gids, gid.1 = id₀) (y : NodeOperatorGlobalIndex → ℚ) (id : StakingModuleId) :
    ((prepareNodeOperatorStats st).keys.map fun k => if k.1 = id then
      (gids.map fun gid => (Pi.single gid (y gid) : NodeOperatorGlobalIndex → ℚ)).sum k else 0).sum =
      if id₀ = id then (gids.map y).sum else 0 := by
  induction gids with
  | nil => simp
  | cons gid gids ih =>
    rw [List.forall_mem_cons] at hk hid
    have hsplit : ((prepareNodeOperatorStats st).keys.map fun k => if k.1 = id then
        ((gid :: gids).map fun gid => (Pi.single gid (y gid) : NodeOperatorGlobalIndex → ℚ)).sum k
          else 0) =
        (prepareNodeOperatorStats st).keys.map fun k =>
          (if k.1 = id then (Pi.single gid (y gid) : NodeOperatorGlobalIndex → ℚ) k else 0) +
          if k.1 = id then
            (gids.map fun gid => (Pi.single gid (y gid) : NodeOperatorGlobalIndex → ℚ)).sum k else 0 := by
      refine List.map_congr_left fun k _ => ?_
      split_ifs <;> simp
    rw [hsplit, List.sum_map_add, sum_module_single hk.1, ih hk.2 hid.2, hid.1, List.map_cons,
      List.sum_cons]
    split_ifs <;> simp

/-- What a group charges one side is what it adds to that side's module. -/
theorem group {cmV1 cmV2 : StakingModule} {g : OperatorGroup}
    (h : Linkable cmV1.id cmV2.id (weighted st cmV2) g) (b : NodeOperatorGlobalIndex → ℤ) :
    Balanced st (g.delta cmV2.id cmV1.id (weighted st cmV2).weightOf b) := by
  obtain ⟨htotal, hsm, -, hno⟩ := @OperatorGroup.delta_stake_only cmV1.id cmV2.id g
    (weighted st cmV2).weightOf b
  refine ⟨by rw [htotal, hsm]; exact sum_map_zero _, by rw [htotal, hno]; exact sum_map_zero _, ?_⟩
  intro id _
  by_cases hconn : g.hasConnection
  · obtain ⟨hW, -, -⟩ := h.connected hconn
    have hlen : (g.externalGids.length : ℚ) ≠ 0 := by
      simpa [OperatorGroup.externalGids] using (g.hasConnection_iff.mp hconn).2
    have hmem : ∀ gid ∈ g.gids cmV2.id, gid ∈ prepareNodeOperatorStats st := fun gid hg => by
      simpa [weighted, initial] using (h.ungrouped gid hg).mem
    have hE : ∀ gid ∈ g.externalGids, gid.1 = cmV1.id := fun gid hg => by
      obtain ⟨op, hop, rfl⟩ := List.mem_map.mp hg
      exact (h.external op hop).2
    have hI : ∀ gid ∈ g.internalGids cmV2.id, gid.1 = cmV2.id := fun gid hg => by
      obtain ⟨op, -, rfl⟩ := List.mem_map.mp hg
      rfl
    have hshareI : ((g.internalGids cmV2.id).map fun gid => (g.externalBalance b : ℚ) *
        (weighted st cmV2).weightOf gid / g.internalWeight cmV2.id (weighted st cmV2).weightOf).sum =
          g.externalBalance b := by
      have hfactor : ∀ gid, (g.externalBalance b : ℚ) * (weighted st cmV2).weightOf gid /
          g.internalWeight cmV2.id (weighted st cmV2).weightOf =
          g.externalBalance b / g.internalWeight cmV2.id (weighted st cmV2).weightOf *
            (weighted st cmV2).weightOf gid := fun gid => by ring
      simp only [hfactor]
      rw [List.sum_map_mul_left]
      exact div_mul_cancel₀ _ hW
    have hshareE : (g.externalGids.map fun _ =>
        (g.internalBalance cmV2.id b / g.externalGids.length : ℚ)).sum = g.internalBalance cmV2.id b := by
      rw [List.map_const', List.sum_replicate, nsmul_eq_mul, mul_div_cancel₀ _ hlen]
    have hsplit : ((prepareNodeOperatorStats st).keys.map fun k => if k.1 = id then
        (g.delta cmV2.id cmV1.id (weighted st cmV2).weightOf b).noStake k else 0) =
        (prepareNodeOperatorStats st).keys.map fun k =>
          (if k.1 = id then ((g.internalGids cmV2.id).map fun gid => (Pi.single gid
            (g.externalBalance b * (weighted st cmV2).weightOf gid /
              g.internalWeight cmV2.id (weighted st cmV2).weightOf) :
                NodeOperatorGlobalIndex → ℚ)).sum k else 0) +
          if k.1 = id then (g.externalGids.map fun gid => (Pi.single gid
            (g.internalBalance cmV2.id b / g.externalGids.length : ℚ) :
              NodeOperatorGlobalIndex → ℚ)).sum k else 0 := by
      refine List.map_congr_left fun k _ => ?_
      rw [OperatorGroup.delta, if_pos hconn]
      split_ifs <;>
        simp [OperatorGroup.stakeShares, Delta.operatorStake, Delta.moduleStake, Delta.module]
    have hsm : (g.delta cmV2.id cmV1.id (weighted st cmV2).weightOf b).smStake id =
        (if cmV2.id = id then (g.externalBalance b : ℚ) else 0) +
          if cmV1.id = id then (g.internalBalance cmV2.id b : ℚ) else 0 := by
      rw [OperatorGroup.delta, if_pos hconn]
      simp [Delta.operatorStake, Delta.moduleStake, Delta.module, Pi.single_apply, eq_comm, add_comm]
    rw [hsplit, List.sum_map_add, hsm,
      sum_module_shares (fun gid hg => hmem gid (List.mem_append_right _ hg)) hI,
      sum_module_shares (fun gid hg => hmem gid (List.mem_append_left _ hg)) hE, hshareI, hshareE]
  · rw [OperatorGroup.delta, if_neg hconn]
    simp

end Balanced

/-- Capped inbound balances of all exitable validators -/
def exitableBalance (exitable : Dict NodeOperatorGlobalIndex (List LidoValidator)) : Gwei :=
  (exitable.values.map fun validators => (validators.map getPredictableInboundBalance).sum).sum

def StakingState.pendingTotal (st : StakingState) : Gwei :=
  (st.pendingLidoValidators.values.map fun p => pendingBalance p.2).sum

def StakingState.pendingCount (st : StakingState) (gid : NodeOperatorGlobalIndex) : ℕ :=
  st.pendingLidoValidators.values.countP fun p => st.pendingGid p.1 = gid

namespace Delta

variable {st : StakingState} {exitable : Dict NodeOperatorGlobalIndex (List LidoValidator)}

theorem counted_total : (counted st exitable).total = exitableBalance exitable + st.pendingTotal := by
  have hlist : ∀ (gid : NodeOperatorGlobalIndex) (vs : List LidoValidator),
      (ofExitable gid vs).total = ((vs.map getPredictableInboundBalance).sum : ℕ) := by
    intro gid vs
    rw [ofExitable, add_total, sum_total, List.map_map, Nat.cast_list_sum, List.map_map]
    simp [count, operator, credit, lido, module, Function.comp_def]
  have hpend : ∀ (gid : NodeOperatorGlobalIndex) (ds : List PendingDeposit),
      (ofPending gid ds).total = pendingBalance ds := fun gid ds => by
    simp [ofPending, credit, count, lido, module, operator]
  rw [counted, add_total, sum_total, sum_total, exitableBalance, StakingState.pendingTotal,
    Nat.cast_list_sum, Nat.cast_list_sum]
  simp only [Dict.values, List.map_map, Function.comp_def, hlist, hpend]

theorem counted_noValidators (gid : NodeOperatorGlobalIndex) :
    (counted st exitable).noValidators gid =
      ((exitable.get? gid).getD []).length + st.pendingCount gid := by
  have hlist : ∀ (k : NodeOperatorGlobalIndex) (vs : List LidoValidator),
      (ofExitable k vs).noValidators gid = if k = gid then (vs.length : ℤ) else 0 := by
    intro k vs
    have hzero : ∀ l : List LidoValidator,
        (l.map fun v => credit k (getPredictableInboundBalance v)).sum.noValidators = 0 := fun l => by
      rw [sum_noValidators, List.map_map]
      simp [credit, lido, module, operator, Function.comp_def]
    rw [ofExitable, add_noValidators, hzero]
    simp [count, operator, Pi.single_apply, eq_comm]
  have hpend : ∀ (k : NodeOperatorGlobalIndex) (ds : List PendingDeposit),
      (ofPending k ds).noValidators gid = if k = gid then 1 else 0 := fun k ds => by
    simp [ofPending, credit, count, lido, module, operator, Pi.single_apply, eq_comm]
  have hcount : ∀ l : List (LidoKey × List PendingDeposit),
      (l.map fun p => if st.pendingGid p.1 = gid then (1 : ℤ) else 0).sum =
        (l.countP fun p => st.pendingGid p.1 = gid : ℕ) := by
    intro l
    induction l with
    | nil => rfl
    | cons p l ih =>
      rw [List.map_cons, List.sum_cons, ih, List.countP_cons]
      by_cases h : st.pendingGid p.1 = gid <;> simp [h, add_comm]
  have hlookup := Dict.sum_at_key exitable (fun vs => (vs.length : ℤ)) gid
  rw [counted, add_noValidators, Pi.add_apply, sum_noValidators, sum_noValidators,
    Pi.list_sum_apply, Pi.list_sum_apply, List.map_map, List.map_map, List.map_map, List.map_map]
  simp only [Function.comp_def, hlist, hpend, hcount, hlookup, StakingState.pendingCount]
  cases exitable.get? gid <;> rfl

theorem ofExitable_cons (gid : NodeOperatorGlobalIndex) (v : LidoValidator)
    (rest : List LidoValidator) : ofExitable gid (v :: rest) =
      ofExitable gid rest + (credit gid (getPredictableInboundBalance v) + count gid 1) := by
  have hcount : count gid ((v :: rest).length : ℕ) = count gid (rest.length : ℕ) + count gid 1 := by
    ext1 <;> simp [count, operator, Pi.single_add]
  rw [ofExitable, ofExitable, hcount, List.map_cons, List.sum_cons]
  abel

/-- A validator taken off the list is counted no more. -/
theorem counted_modify {gid : NodeOperatorGlobalIndex} {v : LidoValidator} {rest : List LidoValidator}
    (hv : exitable.get? gid = some (v :: rest)) :
    counted st exitable = counted st (exitable.modify gid fun _ => rest) +
      (credit gid (getPredictableInboundBalance v) + count gid 1) := by
  have hentries : (exitable.entries.map fun e => ofExitable e.1 e.2) =
      (exitable.modify gid fun _ => rest).entries.map fun e => ofExitable e.1 e.2 +
        if e.1 = gid then credit gid (getPredictableInboundBalance v) + count gid 1 else 0 := by
    rw [Dict.modify, Dict.entries_mapKV, List.map_map]
    refine List.map_congr_left fun e he => ?_
    simp only [Function.comp_apply]
    split_ifs with h
    · have hv' := Dict.get?_eq_some_iff.mpr (show (gid, e.2) ∈ exitable.entries from h ▸ he)
      rw [hv, Option.some.injEq] at hv'
      rw [← hv', h, ofExitable_cons]
    · rw [add_zero]
  have hmem : gid ∈ exitable.modify gid fun _ => rest := Dict.mem_modify.mpr (Dict.mem_of_get? hv)
  rw [counted, counted, hentries, Dict.sum_add_single _ (fun k vs => ofExitable k vs) hmem]
  abel

end Delta

namespace ValidatorExitIterator

section Run

variable {st : StakingState} {cmV1 cmV2 : StakingModule}
  {exitable : Dict NodeOperatorGlobalIndex (List LidoValidator)} {d : Delta} {c l : Gwei}
  {it it' : ValidatorExitIterator} {gid : NodeOperatorGlobalIndex} {v : LidoValidator}
  {rest : List LidoValidator}

/-- The checks do not depend on how many validators an operator has left. -/
theorem Checks.modify (hc : Checks st cmV1 cmV2 exitable)
    (hv : exitable.get? gid = some (v :: rest)) :
    Checks st cmV1 cmV2 (exitable.modify gid fun _ => rest) where
  exitable e he := by
    obtain ⟨vs, hmem, hvs⟩ := Dict.mem_entries_modify he
    obtain ⟨hk, hall⟩ := hc.exitable _ hmem
    refine ⟨hk, fun u hu => ⟨?_, hk⟩⟩
    rw [hvs] at hu
    split_ifs at hu with h
    · have hvs' := Dict.get?_eq_some_iff.mpr hmem
      rw [h, hv, Option.some.injEq] at hvs'
      exact (hall u (hvs' ▸ List.mem_cons_of_mem v hu)).1
    · exact (hall u hu).1
  pending := hc.pending
  curated := hc.curated
  upToDate := hc.upToDate
  weights := hc.weights
  linkable := hc.linkable
  disjoint := hc.disjoint
  modules := hc.modules

/-- The state is the frame shifted by what its own exitable validators post. -/
structure Tracks (st : StakingState) (cmV1 cmV2 : StakingModule) (it : ValidatorExitIterator) :
    Prop where
  checks : Checks st cmV1 cmV2 it.exitableValidators
  eq : it = (running st cmV2 it.maxCurrentExitBalance it.exitLimitInGwei
    it.exitableValidators).shift (posted st cmV1 cmV2 (Delta.counted st it.exitableValidators))

/-- A calculation from scratch on the validators that remain gives the same figures. -/
def Recomputed (st : StakingState) (it : ValidatorExitIterator) : Prop :=
  calculateFrom st it.exitableValidators =
    .ok { it with maxCurrentExitBalance := 0, exitLimitInGwei := 0 }

theorem recomputed_iff_tracks : Recomputed st it ↔ ∃ cmV1 cmV2, Tracks st cmV1 cmV2 it := by
  rw [Recomputed, calculateFrom_ok_iff]
  refine exists_congr fun cmV1 => exists_congr fun cmV2 => ?_
  constructor
  · rintro ⟨hc, h⟩
    refine ⟨hc, ?_⟩
    have h' := congrArg (fun it₀ : ValidatorExitIterator => { it₀ with
      maxCurrentExitBalance := it.maxCurrentExitBalance, exitLimitInGwei := it.exitLimitInGwei }) h
    exact h'
  · rintro ⟨hc, h⟩
    refine ⟨hc, ?_⟩
    have h' := congrArg (fun it₀ : ValidatorExitIterator => { it₀ with
      maxCurrentExitBalance := 0, exitLimitInGwei := 0 }) h
    exact h'

theorem Tracks.withBalance (h : Tracks st cmV1 cmV2 it) (c : Gwei) :
    Tracks st cmV1 cmV2 { it with maxCurrentExitBalance := c } where
  checks := h.checks
  eq := congrArg (fun it₀ : ValidatorExitIterator => { it₀ with maxCurrentExitBalance := c }) h.eq

/-- An ejection takes the first validator of an operator and keeps the figures exact. -/
theorem Tracks.eject (h : Tracks st cmV1 cmV2 it)
    (hv : it.exitableValidators.get? gid = some (v :: rest)) :
    ∃ it', it.ejectValidator gid = .ok (v, it') ∧ Tracks st cmV1 cmV2 it' ∧
      it'.exitableValidators = it.exitableValidators.modify gid (fun _ => rest) ∧
      it'.maxCurrentExitBalance = it.maxCurrentExitBalance ∧
      it'.exitLimitInGwei = it.exitLimitInGwei := by
  have hgid : gid ∈ prepareNodeOperatorStats st :=
    (h.checks.exitable _ (Dict.get?_eq_some_iff.mp hv)).1
  have heject := ejectValidator_ok (c := it.maxCurrentExitBalance) (l := it.exitLimitInGwei)
    (d := posted st cmV1 cmV2 (Delta.counted st it.exitableValidators)) h.checks hgid hv
  rw [← h.eq, shift_shift] at heject
  refine ⟨_, heject, ⟨h.checks.modify hv, ?_⟩, rfl, rfl, rfl⟩
  have hposted : posted st cmV1 cmV2 (Delta.counted st it.exitableValidators) +
      -postedFor st cmV1 cmV2 gid (getPredictableInboundBalance v) =
      posted st cmV1 cmV2 (Delta.counted st (it.exitableValidators.modify gid fun _ => rest)) := by
    rw [Delta.counted_modify hv, posted_add, postedFor]
    abel
  rw [hposted]
  rfl

theorem iter_tracks (h : iter st = .ok it) : ∃ cmV1 cmV2, Tracks st cmV1 cmV2 it := by
  obtain ⟨exitable, -, h⟩ := Except.bind_eq_ok.mp h
  obtain ⟨it₀, h₀, h⟩ := Except.bind_eq_ok.mp h
  rw [Except.pure_eq_ok] at h
  obtain ⟨cmV1, cmV2, hc, rfl⟩ := calculateFrom_ok_iff.mp h₀
  subst h
  exact ⟨cmV1, cmV2, hc, rfl⟩

/-- A run: the iterator is started, then validators are ejected from operators that have any. -/
inductive EjectionRun (st : StakingState) : ValidatorExitIterator → Prop where
  | start {it : ValidatorExitIterator} (h : iter st = .ok it) : EjectionRun st it
  | eject {it it' : ValidatorExitIterator} {gid : NodeOperatorGlobalIndex} {v v' : LidoValidator}
      {rest : List LidoValidator} (run : EjectionRun st it)
      (hv : it.exitableValidators.get? gid = some (v :: rest))
      (h : it.ejectValidator gid = .ok (v', it')) : EjectionRun st it'

theorem EjectionRun.tracks (h : EjectionRun st it) : ∃ cmV1 cmV2, Tracks st cmV1 cmV2 it := by
  induction h with
  | start h => exact iter_tracks h
  | eject _ hv h ih =>
    obtain ⟨cmV1, cmV2, ht⟩ := ih
    obtain ⟨it'', heject, ht', -⟩ := ht.eject hv
    rw [h] at heject
    cases heject
    exact ⟨cmV1, cmV2, ht'⟩

/-- What links and weights leave alone in an operator's record -/
def figures (no : NodeOperatorStats) : NodeOperator × ℤ × ℤ × ℚ :=
  (no.nodeOperator, no.predictableValidators, no.predictableBalance, no.totalStake)

theorem link_figures (group : OperatorGroup) (w : NodeOperatorGlobalIndex → ℚ)
    (gid : NodeOperatorGlobalIndex) (no : NodeOperatorStats) :
    figures (group.link cmV2.id w gid no) = figures no := by
  unfold OperatorGroup.link
  split_ifs <;> rfl

theorem linkAll_figures (groups : List OperatorGroup) (w : NodeOperatorGlobalIndex → ℚ)
    (gid : NodeOperatorGlobalIndex) (no : NodeOperatorStats) :
    figures (linkAll cmV2.id w groups gid no) = figures no := by
  induction groups generalizing no with
  | nil => rfl
  | cons group groups ih =>
    rw [linkAll, List.foldl_cons]
    exact (ih _).trans (link_figures group w gid no)

/-- A record stands under its own operator's index, and its figures are what was posted to it. -/
theorem running_operator {no : NodeOperatorStats}
    (h : ((running st cmV2 c l exitable).shift d).nodeOperatorsStats.get? gid = some no) :
    no.nodeOperator.globalIndex = gid ∧ no.predictableValidators = d.noValidators gid ∧
      no.predictableBalance = d.noBalance gid ∧ no.totalStake = d.noStake gid := by
  rw [frame_get?] at h
  obtain ⟨no₁, h₁, rfl⟩ := Option.map_eq_some_iff.mp h
  obtain ⟨op, hop, rfl⟩ := initial_get? h₁
  obtain ⟨w, hw⟩ := setWeights_eq cmV2.id (moduleOperatorIds cmV2.id (initial st))
    (cmV2Weights st cmV2) gid (initNodeOperatorStats op)
  have hfig := @linkAll_figures cmV2 (metaGroups st cmV2)
    (weighted st cmV2).weightOf gid (setWeights cmV2.id (moduleOperatorIds cmV2.id (initial st))
      (cmV2Weights st cmV2) gid (initNodeOperatorStats op))
  rw [hw] at hfig ⊢
  simp only [figures, Prod.mk.injEq] at hfig
  obtain ⟨h₁, h₂, h₃, h₄⟩ := hfig
  simp only [NodeOperatorStats.shift, h₁, h₂, h₃, h₄]
  simp [initNodeOperatorStats, hop]

/-- A module's figures are what was posted to it. -/
theorem running_module {id : StakingModuleId} {sm : StakingModuleStats}
    (h : ((running st cmV2 c l exitable).shift d).moduleStats.get? id = some sm) :
    sm.predictableBalance = d.smBalance id ∧ sm.totalStake = d.smStake id ∧
      sm.totalWeight = (linked st cmV2).moduleWeight id := by
  have h' : ((prepareModuleStats st).get? id).map (fun sm =>
      StakingModuleStats.shift { sm with
        totalWeight := sm.totalWeight + (linked st cmV2).moduleWeight id } id d) = some sm := by
    simpa [running, frame, addSmWeights, linked, weighted, initial, withExitable] using h
  obtain ⟨sm₁, h₁, rfl⟩ := Option.map_eq_some_iff.mp h'
  obtain ⟨m, -, rfl⟩ := initialModule_get? h₁
  simp [StakingModuleStats.shift]

theorem running_operator_keys :
    ((running st cmV2 c l exitable).shift d).nodeOperatorsStats.keys =
      (prepareNodeOperatorStats st).keys := by
  simp [running, frame, addSmWeights, linked, weighted, initial, withExitable]

theorem running_module_keys :
    ((running st cmV2 c l exitable).shift d).moduleStats.keys = (prepareModuleStats st).keys := by
  simp [running, frame, addSmWeights, linked, weighted, initial, withExitable]

/-- A group's share posts stake on top of what is counted, nothing else. -/
theorem posted_figures (d : Delta) : (posted st cmV1 cmV2 d).total = d.total ∧
    (posted st cmV1 cmV2 d).noValidators = d.noValidators := by
  have hstake := fun g : OperatorGroup => @OperatorGroup.delta_stake_only cmV1.id cmV2.id g
    (weighted st cmV2).weightOf d.noBalance
  unfold posted
  constructor
  · rw [Delta.add_total, Delta.sum_total, List.map_map]
    simp [Function.comp_def, (hstake _).1]
  · rw [Delta.add_noValidators, Delta.sum_noValidators, List.map_map]
    simp [Function.comp_def, (hstake _).2.2.1]

theorem balanced_posted (hc : Checks st cmV1 cmV2 exitable) :
    Balanced st (posted st cmV1 cmV2 (Delta.counted st exitable)) := by
  refine .add (.add (.sum ?_) (.sum ?_)) (.sum ?_)
  · intro d hd
    obtain ⟨e, he, rfl⟩ := List.mem_map.mp hd
    obtain ⟨hk, hall⟩ := hc.exitable e he
    refine .add (.count _ _) (.sum fun d hd => ?_)
    obtain ⟨v, hv, rfl⟩ := List.mem_map.mp hd
    exact .credit (hall v hv).1 hk _
  · intro d hd
    obtain ⟨p, hp, rfl⟩ := List.mem_map.mp hd
    obtain ⟨-, -, hm, hk⟩ := hc.pending p hp
    exact .add (.credit hm hk _) (.count _ _)
  · intro d hd
    obtain ⟨g, hg, rfl⟩ := List.mem_map.mp hd
    exact .group (hc.linkable g hg) _

/-- The books are in order: recomputable, and equal on every level. -/
structure Bookkept (st : StakingState) (it : ValidatorExitIterator) : Prop where
  recomputed : Recomputed st it
  total : it.totalLidoPredictableBalance =
    (exitableBalance it.exitableValidators + st.pendingTotal : ℕ)
  modules : (it.moduleStats.values.map (·.predictableBalance)).sum = it.totalLidoPredictableBalance
  operators :
    (it.nodeOperatorsStats.values.map (·.predictableBalance)).sum = it.totalLidoPredictableBalance
  validators : ∀ gid no, it.nodeOperatorsStats.get? gid = some no → no.predictableValidators =
    (((it.exitableValidators.get? gid).getD []).length + st.pendingCount gid : ℕ)
  stake : ∀ id sm, it.moduleStats.get? id = some sm → sm.totalStake =
    (it.nodeOperatorsStats.entries.map fun e => if e.1.1 = id then e.2.totalStake else 0).sum

theorem Tracks.bookkept (h : Tracks st cmV1 cmV2 it) : Bookkept st it := by
  have hbal := balanced_posted h.checks
  set D := posted st cmV1 cmV2 (Delta.counted st it.exitableValidators) with hD
  have htotal : it.totalLidoPredictableBalance = D.total := by
    rw [h.eq]
    exact zero_add _
  have hop : ∀ gid no, it.nodeOperatorsStats.get? gid = some no →
      no.predictableValidators = D.noValidators gid ∧ no.predictableBalance = D.noBalance gid ∧
        no.totalStake = D.noStake gid := fun gid no hno => (running_operator (h.eq ▸ hno)).2
  have hsm : ∀ id sm, it.moduleStats.get? id = some sm →
      sm.predictableBalance = D.smBalance id ∧ sm.totalStake = D.smStake id := fun id sm h₁ =>
    have hrun := running_module (h.eq ▸ h₁)
    ⟨hrun.1, hrun.2.1⟩
  have hopKeys : it.nodeOperatorsStats.keys = (prepareNodeOperatorStats st).keys := by
    rw [h.eq, running_operator_keys]
  have hsmKeys : it.moduleStats.keys = (prepareModuleStats st).keys := by
    rw [h.eq, running_module_keys]
  refine ⟨recomputed_iff_tracks.mpr ⟨cmV1, cmV2, h⟩, ?_, ?_, ?_, ?_, ?_⟩
  · rw [htotal, hD, (posted_figures _).1, Delta.counted_total]
    push_cast
    rfl
  · rw [htotal, ← hbal.modules, ← hsmKeys]
    exact congrArg List.sum
      (Dict.map_values_eq_map_keys fun id sm he => (hsm id sm (Dict.get?_eq_some_iff.mpr he)).1)
  · rw [htotal, ← hbal.operators, ← hopKeys]
    exact congrArg List.sum
      (Dict.map_values_eq_map_keys fun gid no he => (hop gid no (Dict.get?_eq_some_iff.mpr he)).2.1)
  · intro gid no hno
    rw [(hop gid no hno).1, hD, (posted_figures _).2, Delta.counted_noValidators]
    push_cast
    rfl
  · intro id sm h₁
    have hid : id ∈ prepareModuleStats st := by
      rw [← Dict.mem_keys, ← hsmKeys]
      exact Dict.mem_of_get? h₁
    rw [(hsm id sm h₁).2, hbal.stake id hid, ← hopKeys, Dict.keys, List.map_map]
    refine congrArg List.sum (List.map_congr_left fun e he => ?_)
    rw [(hop e.1 e.2 (Dict.get?_eq_some_iff.mpr he)).2.2]
    rfl

/-- In every run the books are in order, and no operator with exitable validators blocks it. -/
theorem ejectionRun_bookkept (h : EjectionRun st it) :
    Bookkept st it ∧ ∀ gid v rest, it.exitableValidators.get? gid = some (v :: rest) →
      ∃ it', it.ejectValidator gid = .ok (v, it') ∧
        it'.exitableValidators = it.exitableValidators.modify gid fun _ => rest := by
  obtain ⟨cmV1, cmV2, ht⟩ := h.tracks
  refine ⟨ht.bookkept, fun gid v rest hv => ?_⟩
  obtain ⟨it', heject, -, hex, -⟩ := ht.eject hv
  exact ⟨it', heject, hex⟩

end Run

/-! A small staking state: two curated modules of two operators, one connected
group, three validators. The weights are those of the second module's operators. -/

def sampleValidator (index : ValidatorIndex) (balance : Gwei) (operator : NodeOperatorId)
    (address : ChecksumAddress) : LidoValidator where
  index := index
  balance := balance
  validator := { pubkey := "", withdrawalCredentials := "0x01", effectiveBalance := 31 * 10 ^ 9,
                 slashed := false, activationEligibilityEpoch := 0, activationEpoch := 0,
                 exitEpoch := FAR_FUTURE_EPOCH, withdrawableEpoch := FAR_FUTURE_EPOCH,
                 effectiveBalance_le := by decide }
  lidoId := { index := 0, key := "", operatorIndex := operator, moduleAddress := address }
  pendingTopups := []
  consolidatingAsSource := none
  consolidatingAsTarget := []

def sampleModule (id : StakingModuleId) (address name : String) : StakingModule where
  id := id
  stakingModuleAddress := address
  name := name
  exitedValidatorsCount := 0
  priorityExitShareThreshold := 5000

def sampleGroup : OperatorGroup :=
  ⟨"pair", [⟨0, 1⟩], [⟨[0, 1, 0, 0, 0, 0, 0, 0, 0, 0]⟩]⟩

def sampleState (weights : List ℕ) : StakingState where
  stakingModules :=
    [sampleModule 1 "a" CURATED_V1_MODULE_NAME, sampleModule 2 "b" CURATED_V2_MODULE_NAME]
  nodeOperatorDigests := fun _ => [⟨0, 0, 0, 0⟩, ⟨1, 2, 0, 0⟩]
  curatedContract := fun address =>
    if address = "a" then ⟨CURATED_V1_TYPE, 0, fun _ => [], []⟩
    else ⟨CURATED_V2_TYPE, 0, fun _ => weights, [sampleGroup]⟩
  activeLidoValidators := [sampleValidator 7 (32 * 10 ^ 9) 0 "a",
    sampleValidator 3 (31 * 10 ^ 9) 0 "b", sampleValidator 5 (33 * 10 ^ 9) 1 "b"]
  pendingLidoValidators := Dict.empty
  validatorExitRequests := []
  maxBalanceExitRequestedPerReportInEth := 64

theorem iter_sample : ∃ it, iter (sampleState [1, 3]) = .ok it ∧
    ∃ v rest, it.exitableValidators.get? (2, 1) = some (v :: rest) := by
  have h : (match iter (sampleState [1, 3]) with
    | .ok it => ((it.exitableValidators.get? (2, 1)).getD []).isEmpty
    | .error _ => true) = false := by decide +kernel
  cases hit : iter (sampleState [1, 3]) with
  | error e => simp [hit] at h
  | ok it =>
    rw [hit] at h
    refine ⟨it, rfl, ?_⟩
    cases hget : it.exitableValidators.get? (2, 1) with
    | none => simp [hget] at h
    | some validators =>
      cases validators with
      | nil => simp [hget] at h
      | cons v rest => exact ⟨v, rest, rfl⟩

theorem ejectionRun_bookkept_sample : ∃ it₀ v it, iter (sampleState [1, 3]) = .ok it₀ ∧
    it₀.ejectValidator (2, 1) = .ok (v, it) ∧ Bookkept (sampleState [1, 3]) it := by
  obtain ⟨it₀, h₀, v, rest, hv⟩ := iter_sample
  obtain ⟨it, heject, -⟩ := (ejectionRun_bookkept (.start h₀)).2 (2, 1) v rest hv
  exact ⟨it₀, v, it, h₀, heject, (ejectionRun_bookkept (.eject (.start h₀) hv heject)).1⟩

end ValidatorExitIterator

end LidoOracle
