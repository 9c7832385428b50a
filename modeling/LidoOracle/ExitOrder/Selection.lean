import LidoOracle.ExitOrder.Bookkeeping

/-! What the iterator hands out: the exitable validators it starts from, the
outcomes of one step of either loop, and the state between two steps. -/

namespace LidoOracle

/-- Not on exit, not asked to exit recently, and not a consolidation source -/
def canExit (requested : Finset ValidatorIndex) (v : LidoValidator) : Bool :=
  !isOnExit v.toValidator && (v.index ∉ requested) && v.consolidatingAsSource.isNone

namespace StakingState

variable {χ : Type} {st : StakingState} {gid : NodeOperatorGlobalIndex}

theorem mem_ofOperators {α : Type} {a : α} :
    gid ∈ Dict.ofList (st.getLidoNodeOperators.map fun no => (no.globalIndex, a)) ↔
      ∃ no ∈ st.getLidoNodeOperators, no.globalIndex = gid := by
  rw [Dict.mem_ofList, List.map_map, List.mem_map]
  rfl

/-- Both services file under every operator and no one else. -/
theorem mem_recentlyRequested {indexes : Dict NodeOperatorGlobalIndex (Finset ValidatorIndex)}
    (h : (st.getRecentlyRequestedToExitValidatorsByNodeOperator : Py χ _) = .ok indexes) :
    gid ∈ indexes ↔ ∃ no ∈ st.getLidoNodeOperators, no.globalIndex = gid := by
  have hkeys : indexes.keys =
      (Dict.ofList (st.getLidoNodeOperators.map fun no => (no.globalIndex, (∅ : Finset ℕ)))).keys := by
    refine ExceptRun.foldlM_preserves
      (fun d => d.keys = (Dict.ofList (st.getLidoNodeOperators.map fun no =>
        (no.globalIndex, (∅ : Finset ℕ)))).keys) (fun d event d' hd hstep => ?_) rfl h
    obtain ⟨-, rfl⟩ := Py.updateItem_eq_ok.mp hstep
    rw [Dict.keys_modify, hd]
  rw [← Dict.mem_keys, hkeys, Dict.mem_keys, mem_ofOperators]

theorem mem_lidoValidators {validators : Dict NodeOperatorGlobalIndex (List LidoValidator)}
    (h : (st.getLidoValidatorsByNodeOperators : Py χ _) = .ok validators) :
    gid ∈ validators ↔ ∃ no ∈ st.getLidoNodeOperators, no.globalIndex = gid := by
  have hkeys : validators.keys = (Dict.ofList (st.getLidoNodeOperators.map fun no =>
      (no.globalIndex, ([] : List LidoValidator)))).keys := by
    refine ExceptRun.foldlM_preserves
      (fun d => d.keys = (Dict.ofList (st.getLidoNodeOperators.map fun no =>
        (no.globalIndex, ([] : List LidoValidator)))).keys) (fun d v d' hd hstep => ?_) rfl h
    obtain ⟨id, -, hstep⟩ := Except.bind_eq_ok.mp hstep
    rw [Except.pure_eq_ok] at hstep
    rw [← hstep, Dict.keys_modify, hd]
  rw [← Dict.mem_keys, hkeys, Dict.mem_keys, mem_ofOperators]

end StakingState

namespace ValidatorExitIterator

variable {st : StakingState} {gid : NodeOperatorGlobalIndex}

theorem mem_prepareNodeOperatorStats :
    gid ∈ prepareNodeOperatorStats st ↔ ∃ no ∈ st.getLidoNodeOperators, no.globalIndex = gid := by
  rw [prepareNodeOperatorStats, Dict.mem_ofList, List.map_map, List.mem_map]
  rfl

section Inventory

variable {indexes : Dict NodeOperatorGlobalIndex (Finset ValidatorIndex)}

theorem isValidatorExitable_ok {requested : Finset ValidatorIndex}
    (h : indexes.get? gid = some requested) (v : LidoValidator) :
    isValidatorExitable indexes gid v = .ok (canExit requested v) := by
  unfold isValidatorExitable canExit
  by_cases hexit : isOnExit v.toValidator = true
  · simp [hexit, pure, Except.pure]
  · simp [hexit, Py.getItem, h, pure, Except.pure]

/-- The iterator starts from each operator's validators that can exit, by index. -/
theorem prepareValidatorStats_ok {exitable : Dict NodeOperatorGlobalIndex (List LidoValidator)}
    (h : prepareValidatorStats st = .ok exitable) :
    ∃ indexes validators,
      (st.getRecentlyRequestedToExitValidatorsByNodeOperator : Iter _) = .ok indexes ∧
      (st.getLidoValidatorsByNodeOperators : Iter _) = .ok validators ∧
      ∀ gid, exitable.get? gid = (validators.get? gid).map fun vs =>
        Sorted.sortedBy (fun v => v.index) (vs.filter (canExit ((indexes.get? gid).getD ∅))) := by
  obtain ⟨indexes, hidx, h⟩ := Except.bind_eq_ok.mp h
  obtain ⟨validators, hval, h⟩ := Except.bind_eq_ok.mp h
  refine ⟨indexes, validators, hidx, hval, ?_⟩
  have hfilter : ∀ e ∈ validators.entries, Py.filterM (isValidatorExitable indexes e.1) e.2 =
      .ok (e.2.filter (canExit ((indexes.get? e.1).getD ∅))) := by
    intro e he
    have hk : e.1 ∈ indexes := (StakingState.mem_recentlyRequested hidx).mpr
      ((StakingState.mem_lidoValidators hval).mp (Dict.mem_of_mem_entries he))
    obtain ⟨requested, hreq⟩ := Dict.mem_iff_exists_get?.mp hk
    rw [hreq]
    exact Py.filterM_of_ok fun v _ => isValidatorExitable_ok hreq v
  have hloop : ∀ (es : List (NodeOperatorGlobalIndex × List LidoValidator))
      (d : Dict NodeOperatorGlobalIndex (List LidoValidator)), (∀ e ∈ es, e ∈ validators.entries) →
      (es.foldlM (fun exitable e => do
        let vs ← Py.filterM (isValidatorExitable indexes e.1) e.2
        return exitable.set e.1 (Sorted.sortedBy (fun v => v.index) vs)) d : Iter _) =
      .ok ((es.map fun e => (e.1, Sorted.sortedBy (fun v => v.index)
        (e.2.filter (canExit ((indexes.get? e.1).getD ∅))))).foldl (fun d e => d.set e.1 e.2) d) := by
    intro es
    induction es with
    | nil => exact fun _ _ => rfl
    | cons e es ih =>
      intro d hes
      rw [List.forall_mem_cons] at hes
      rw [List.foldlM_cons, hfilter e hes.1]
      exact ih _ hes.2
  rw [hloop _ _ fun e he => he, Except.ok.injEq] at h
  intro gid
  rw [← h]
  have hmap := Dict.ofList_mapKV validators fun gid vs => Sorted.sortedBy (fun v => v.index)
    (vs.filter (canExit ((indexes.get? gid).getD ∅)))
  exact (congrArg (fun d : Dict _ _ => d.get? gid) hmap).trans (Dict.get?_mapKV _ _ _)

end Inventory

section Step

variable {cmV1 cmV2 : StakingModule} {it it' : ValidatorExitIterator} {v : LidoValidator}

/-- Between two steps: the figures are exact and every operator has a list of its own. -/
structure Ready (st : StakingState) (cmV1 cmV2 : StakingModule) (it : ValidatorExitIterator) : Prop
    extends Tracks st cmV1 cmV2 it where
  stocked : ∀ gid ∈ prepareNodeOperatorStats st, gid ∈ it.exitableValidators

/-- The first validator of `gid` is gone and has been counted against the limit. -/
structure Popped (it : ValidatorExitIterator) (gid : NodeOperatorGlobalIndex) (v : LidoValidator)
    (it' : ValidatorExitIterator) : Prop where
  exitable : ∃ rest, it.exitableValidators.get? gid = some (v :: rest) ∧
    it'.exitableValidators = it.exitableValidators.modify gid fun _ => rest
  balance : it'.maxCurrentExitBalance = it.maxCurrentExitBalance + getMaxEffectiveBalance v.validator
  limit : it'.exitLimitInGwei = it.exitLimitInGwei

/-- One step of either loop: nobody to take, one taken too many, or one taken and returned. -/
inductive Step (it : ValidatorExitIterator) :
    Option (NodeOperatorGlobalIndex × LidoValidator) → ValidatorExitIterator → Prop where
  | pass : Step it none it
  | overrun {gid : NodeOperatorGlobalIndex} {v : LidoValidator} {it' : ValidatorExitIterator}
      (pop : Popped it gid v it') (exceeded : it'.exitLimitInGwei < it'.maxCurrentExitBalance) :
      Step it none it'
  | take {gid : NodeOperatorGlobalIndex} {v : LidoValidator} {it' : ValidatorExitIterator}
      (pop : Popped it gid v it') (within : it'.maxCurrentExitBalance ≤ it'.exitLimitInGwei) :
      Step it (some (gid, v)) it'

theorem iter_ready (h : iter st = .ok it) : ∃ cmV1 cmV2, Ready st cmV1 cmV2 it ∧
    prepareValidatorStats st = .ok it.exitableValidators ∧ it.maxCurrentExitBalance = 0 ∧
      it.exitLimitInGwei = st.maxBalanceExitRequestedPerReportInEth * 10 ^ 9 := by
  obtain ⟨cmV1, cmV2, ht⟩ := iter_tracks h
  obtain ⟨exitable, hex, h⟩ := Except.bind_eq_ok.mp h
  obtain ⟨it₀, h₀, h⟩ := Except.bind_eq_ok.mp h
  rw [Except.pure_eq_ok] at h
  obtain ⟨_, _, -, rfl⟩ := calculateFrom_ok_iff.mp h₀
  subst h
  obtain ⟨indexes, validators, -, hval, hget⟩ := prepareValidatorStats_ok hex
  refine ⟨cmV1, cmV2, ⟨ht, fun gid hgid => ?_⟩, hex, rfl, rfl⟩
  obtain ⟨vs, hvs⟩ := Dict.mem_iff_exists_get?.mp
    ((StakingState.mem_lidoValidators hval).mpr (mem_prepareNodeOperatorStats.mp hgid))
  have hex := hget gid
  rw [hvs] at hex
  exact Dict.mem_of_get? hex

/-- A record stands under its own operator's index. -/
theorem Ready.globalIndex (h : Ready st cmV1 cmV2 it) {no : NodeOperatorStats}
    (hno : no ∈ it.nodeOperatorsStats.values) :
    no.nodeOperator.globalIndex ∈ prepareNodeOperatorStats st ∧
      it.nodeOperatorsStats.get? no.nodeOperator.globalIndex = some no := by
  obtain ⟨e, he, rfl⟩ := List.mem_map.mp hno
  have hget := Dict.get?_eq_some_iff.mpr (show (e.1, e.2) ∈ it.nodeOperatorsStats.entries from he)
  have hgid : e.2.nodeOperator.globalIndex = e.1 := by
    have hrun := hget
    rw [h.eq] at hrun
    exact (running_operator hrun).1
  have hkeys : it.nodeOperatorsStats.keys = (prepareNodeOperatorStats st).keys := by
    rw [h.eq, running_operator_keys]
  rw [hgid]
  refine ⟨?_, hget⟩
  rw [← Dict.mem_keys, ← hkeys]
  exact Dict.mem_of_get? hget

theorem Ready.eject (h : Ready st cmV1 cmV2 it) {rest : List LidoValidator}
    (hv : it.exitableValidators.get? gid = some (v :: rest)) :
    ∃ it₁, it.ejectValidator gid = .ok (v, it₁) ∧
      Popped it gid v { it₁ with
        maxCurrentExitBalance := it₁.maxCurrentExitBalance + getMaxEffectiveBalance v.validator } ∧
      Ready st cmV1 cmV2 { it₁ with
        maxCurrentExitBalance := it₁.maxCurrentExitBalance + getMaxEffectiveBalance v.validator } := by
  obtain ⟨it₁, heject, ht, hex, hc, hl⟩ := h.toTracks.eject hv
  refine ⟨it₁, heject, ⟨⟨rest, hv, hex⟩, by rw [hc], hl⟩, ht.withBalance _, fun gid hgid => ?_⟩
  change gid ∈ it₁.exitableValidators
  rw [hex, Dict.mem_modify]
  exact h.stocked gid hgid

/-- The loop of `__next__` takes from the first operator that has anybody left. -/
theorem Ready.nextFrom (h : Ready st cmV1 cmV2 it) {ops : List NodeOperatorStats}
    (hops : ∀ no ∈ ops, no ∈ it.nodeOperatorsStats.values) :
    ∃ y it', it.nextFrom ops = .ok (y, it') ∧ Step it y it' ∧ Ready st cmV1 cmV2 it' ∧
      (y = none → it'.maxCurrentExitBalance ≤ it'.exitLimitInGwei →
        ∀ no ∈ ops, it'.exitableValidators.get? no.nodeOperator.globalIndex = some []) := by
  induction ops with
  | nil => exact ⟨none, it, rfl, .pass, h, by simp⟩
  | cons no ops ih =>
    rw [List.forall_mem_cons] at hops
    obtain ⟨vs, hvs⟩ := Dict.mem_iff_exists_get?.mp (h.stocked _ (h.globalIndex hops.1).1)
    have hitem : (Py.getItem it.exitableValidators no.nodeOperator.globalIndex : Iter _) = .ok vs :=
      Py.getItem_eq_ok.mpr hvs
    cases vs with
    | nil =>
      obtain ⟨y, it', hnext, hstep, hready, hempty⟩ := ih hops.2
      refine ⟨y, it', ?_, hstep, hready, fun hy hle => ?_⟩
      · rw [ValidatorExitIterator.nextFrom, hitem]
        exact hnext
      · refine List.forall_mem_cons.mpr ⟨?_, hempty hy hle⟩
        subst hy
        cases hstep with
        | pass => exact hvs
        | overrun _ hover => exact absurd hover (not_lt.mpr hle)
    | cons v rest =>
      obtain ⟨it₁, heject, hpop, hready⟩ := h.eject hvs
      set it₂ : ValidatorExitIterator := { it₁ with
        maxCurrentExitBalance := it₁.maxCurrentExitBalance + getMaxEffectiveBalance v.validator } with h₂
      by_cases hover : it₂.exitLimitInGwei < it₂.maxCurrentExitBalance
      · refine ⟨none, it₂, ?_, .overrun hpop hover, hready, fun _ hle => absurd hover (not_lt.mpr hle)⟩
        rw [ValidatorExitIterator.nextFrom, hitem, Except.ok_bind]
        simp only [List.isEmpty_cons, Bool.false_eq_true, if_false, heject, Except.ok_bind]
        exact if_pos hover
      · refine ⟨some (_, v), it₂, ?_, .take hpop (not_lt.mp hover), hready, by simp⟩
        rw [ValidatorExitIterator.nextFrom, hitem, Except.ok_bind]
        simp only [List.isEmpty_cons, Bool.false_eq_true, if_false, heject, Except.ok_bind]
        exact if_neg hover

/-- What a call of `__next__` that returns has done -/
theorem Ready.next (h : Ready st cmV1 cmV2 it) {y : Option (NodeOperatorGlobalIndex × LidoValidator)}
    (hnext : it.next = .ok (y, it')) :
    Step it y it' ∧ Ready st cmV1 cmV2 it' ∧
      (y = none → it'.maxCurrentExitBalance ≤ it'.exitLimitInGwei →
        ∀ gid vs, it'.exitableValidators.get? gid = some vs → vs = []) := by
  obtain ⟨ops, hsort, hnext⟩ := Except.bind_eq_ok.mp hnext
  have hperm := (Py.sortedByM_ok hsort).1
  obtain ⟨y', it'', hfrom, hstep, hready, hempty⟩ := h.nextFrom fun no hno => hperm.mem_iff.mp hno
  rw [hnext] at hfrom
  cases hfrom
  refine ⟨hstep, hready, fun hy hle gid vs hvs => ?_⟩
  have hgid := (hready.checks.exitable _ (Dict.get?_eq_some_iff.mp hvs)).1
  have hmem : gid ∈ it.nodeOperatorsStats := by
    rw [h.eq, ← Dict.mem_keys, running_operator_keys]
    exact hgid
  obtain ⟨no, hno⟩ := Dict.mem_iff_exists_get?.mp hmem
  have hval : no ∈ it.nodeOperatorsStats.values :=
    List.mem_map_of_mem (Dict.get?_eq_some_iff.mp hno)
  have hkey : no.nodeOperator.globalIndex = gid := by
    rw [h.eq] at hno
    exact (running_operator hno).1
  have := hempty hy hle no (hperm.mem_iff.mpr hval)
  rw [hkey, hvs, Option.some.injEq] at this
  exact this

/-- The result of a forced step as that of a step -/
def ForcedStep.outcome : ForcedStep →
    Option (NodeOperatorGlobalIndex × LidoValidator) × ValidatorExitIterator
  | .done it => (none, it)
  | .ejected gid v it => (some (gid, v), it)

theorem Ready.forcedStepFrom (h : Ready st cmV1 cmV2 it) {ops : List NodeOperatorStats}
    (hops : ∀ no ∈ ops, no ∈ it.nodeOperatorsStats.values) :
    ∃ r, it.forcedStepFrom ops = .ok r ∧ Step it r.outcome.1 r.outcome.2 ∧
      Ready st cmV1 cmV2 r.outcome.2 := by
  induction ops with
  | nil => exact ⟨.done it, rfl, .pass, h⟩
  | cons no ops ih =>
    rw [List.forall_mem_cons] at hops
    by_cases hforce : noForcePredicate no = 0
    · exact ⟨.done it, if_pos hforce, .pass, h⟩
    obtain ⟨vs, hvs⟩ := Dict.mem_iff_exists_get?.mp (h.stocked _ (h.globalIndex hops.1).1)
    have hitem : (Py.getItem it.exitableValidators no.nodeOperator.globalIndex : Iter _) = .ok vs :=
      Py.getItem_eq_ok.mpr hvs
    cases vs with
    | nil =>
      obtain ⟨r, hnext, hr⟩ := ih hops.2
      refine ⟨r, ?_, hr⟩
      rw [ValidatorExitIterator.forcedStepFrom, if_neg hforce]
      change (Py.getItem it.exitableValidators no.nodeOperator.globalIndex >>= _) = _
      rw [hitem]
      exact hnext
    | cons v rest =>
      obtain ⟨it₁, heject, hpop, hready⟩ := h.eject hvs
      set it₂ : ValidatorExitIterator := { it₁ with
        maxCurrentExitBalance := it₁.maxCurrentExitBalance + getMaxEffectiveBalance v.validator } with h₂
      by_cases hover : it₂.exitLimitInGwei < it₂.maxCurrentExitBalance
      · refine ⟨.done it₂, ?_, .overrun hpop hover, hready⟩
        rw [ValidatorExitIterator.forcedStepFrom, if_neg hforce]
        change (Py.getItem it.exitableValidators no.nodeOperator.globalIndex >>= _) = _
        rw [hitem, Except.ok_bind]
        simp only [List.isEmpty_cons, Bool.false_eq_true, if_false, heject, Except.ok_bind]
        exact if_pos hover
      · refine ⟨.ejected _ v it₂, ?_, .take hpop (not_lt.mp hover), hready⟩
        rw [ValidatorExitIterator.forcedStepFrom, if_neg hforce]
        change (Py.getItem it.exitableValidators no.nodeOperator.globalIndex >>= _) = _
        rw [hitem, Except.ok_bind]
        simp only [List.isEmpty_cons, Bool.false_eq_true, if_false, heject, Except.ok_bind]
        exact if_neg hover

theorem Ready.lowestValidatorIndex_ok (h : Ready st cmV1 cmV2 it) {no : NodeOperatorStats}
    (hno : no ∈ it.nodeOperatorsStats.values) : ∃ i, it.lowestValidatorIndexPredicate no = .ok i := by
  obtain ⟨vs, hvs⟩ := Dict.mem_iff_exists_get?.mp (h.stocked _ (h.globalIndex hno).1)
  have hitem : (Py.getItem it.exitableValidators no.nodeOperator.globalIndex : Iter _) = .ok vs :=
    Py.getItem_eq_ok.mpr hvs
  rw [lowestValidatorIndexPredicate, hitem]
  exact ⟨_, rfl⟩

/-- A pass of the forced loop never raises. -/
theorem Ready.forcedStep (h : Ready st cmV1 cmV2 it) :
    ∃ r, it.forcedStep = .ok r ∧ Step it r.outcome.1 r.outcome.2 ∧ Ready st cmV1 cmV2 r.outcome.2 := by
  cases hsort : Py.sortedByM it.noRemainingForcedPredicate it.nodeOperatorsStats.values with
  | error e =>
    obtain ⟨no, hno, herr⟩ := Py.sortedByM_error hsort
    obtain ⟨i, hi⟩ := h.lowestValidatorIndex_ok hno
    rw [noRemainingForcedPredicate, hi] at herr
    cases herr
  | ok ops =>
    have hperm := (Py.sortedByM_ok hsort).1
    obtain ⟨r, hfrom, hr⟩ := h.forcedStepFrom fun no hno => hperm.mem_iff.mp hno
    refine ⟨r, ?_, hr⟩
    rw [ValidatorExitIterator.forcedStep, hsort]
    exact hfrom

end Step

section Taking

/-- Everything that can still be taken, operator by operator -/
def stock (exitable : Dict NodeOperatorGlobalIndex (List LidoValidator)) :
    List (NodeOperatorGlobalIndex × LidoValidator) :=
  exitable.entries.flatMap fun e => e.2.map fun v => (e.1, v)

theorem mem_stock {exitable : Dict NodeOperatorGlobalIndex (List LidoValidator)}
    {y : NodeOperatorGlobalIndex × LidoValidator} :
    y ∈ stock exitable ↔ ∃ vs, exitable.get? y.1 = some vs ∧ y.2 ∈ vs := by
  unfold stock
  rw [List.mem_flatMap]
  constructor
  · rintro ⟨e, he, hy⟩
    obtain ⟨v, hv, rfl⟩ := List.mem_map.mp hy
    exact ⟨e.2, Dict.get?_eq_some_iff.mpr he, hv⟩
  · rintro ⟨vs, hvs, hy⟩
    exact ⟨(y.1, vs), Dict.get?_eq_some_iff.mp hvs, List.mem_map.mpr ⟨y.2, hy, rfl⟩⟩

theorem length_stock (it : ValidatorExitIterator) :
    (stock it.exitableValidators).length = it.exitableCount := by
  unfold stock exitableCount Dict.values
  rw [List.length_flatMap, List.map_map]
  simp [Function.comp_def]

variable {cmV1 cmV2 : StakingModule} {it it₁ it' : ValidatorExitIterator} {v : LidoValidator}
  {ys ys' : List (NodeOperatorGlobalIndex × LidoValidator)}

theorem Popped.stock (h : Popped it gid v it') :
    (stock it.exitableValidators).Perm ((gid, v) :: stock it'.exitableValidators) := by
  obtain ⟨rest, hv, hmod⟩ := h.exitable
  obtain ⟨pre, post, hpre, hpost⟩ := Dict.entries_modify_of_get? hv fun _ => rest
  rw [ValidatorExitIterator.stock, ValidatorExitIterator.stock, hmod, hpre, hpost]
  simp only [List.flatMap_append, List.flatMap_cons, List.map_cons, List.cons_append]
  exact List.perm_middle

theorem Popped.list (h : Popped it gid v it') (k : NodeOperatorGlobalIndex) :
    (it.exitableValidators.get? k).getD [] =
      (if k = gid then [v] else []) ++ (it'.exitableValidators.get? k).getD [] := by
  obtain ⟨rest, hv, hmod⟩ := h.exitable
  rw [hmod, Dict.get?_modify]
  split_ifs with hk
  · rw [hk, hv]
    rfl
  · rfl

/-- Validators taken one after the other -/
inductive Takes : ValidatorExitIterator → List (NodeOperatorGlobalIndex × LidoValidator) →
    ValidatorExitIterator → Prop where
  | refl (it : ValidatorExitIterator) : Takes it [] it
  | step {it it₁ it' : ValidatorExitIterator} {y : NodeOperatorGlobalIndex × LidoValidator}
      {ys : List (NodeOperatorGlobalIndex × LidoValidator)} (head : Step it (some y) it₁)
      (tail : Takes it₁ ys it') : Takes it (y :: ys) it'

theorem Takes.trans (h : Takes it ys it₁) (h' : Takes it₁ ys' it') : Takes it (ys ++ ys') it' := by
  induction h with
  | refl => exact h'
  | step head _ ih => exact .step head (ih h')

theorem Takes.stock (h : Takes it ys it') :
    (stock it.exitableValidators).Perm (ys ++ ValidatorExitIterator.stock it'.exitableValidators) := by
  induction h with
  | refl => exact .refl _
  | step head _ ih =>
    cases head with
    | take pop _ => exact pop.stock.trans (ih.cons _)

/-- What is taken of an operator is the front of its list. -/
theorem Takes.list (h : Takes it ys it') (k : NodeOperatorGlobalIndex) :
    (it.exitableValidators.get? k).getD [] =
      (ys.filter fun y => y.1 = k).map Prod.snd ++ (it'.exitableValidators.get? k).getD [] := by
  induction h with
  | refl => rfl
  | step head _ ih =>
    cases head with
    | @take gid v _ pop _ =>
      rw [pop.list k, ih, List.filter_cons]
      by_cases hk : gid = k
      · simp [hk]
      · simp [hk, Ne.symm hk]

theorem Takes.limit (h : Takes it ys it') : it'.exitLimitInGwei = it.exitLimitInGwei := by
  induction h with
  | refl => rfl
  | step head _ ih =>
    cases head with
    | take pop _ => exact ih.trans pop.limit

/-- The counter of the limit is the sum of the caps of what was taken. -/
theorem Takes.balance (h : Takes it ys it') : it'.maxCurrentExitBalance = it.maxCurrentExitBalance +
    (ys.map fun y => getMaxEffectiveBalance y.2.validator).sum := by
  induction h with
  | refl => rfl
  | step head _ ih =>
    cases head with
    | take pop _ => rw [ih, pop.balance, List.map_cons, List.sum_cons, add_assoc]

theorem Takes.within (h : Takes it ys it')
    (hle : it.maxCurrentExitBalance ≤ it.exitLimitInGwei) :
    it'.maxCurrentExitBalance ≤ it'.exitLimitInGwei := by
  induction h with
  | refl => exact hle
  | step head _ ih =>
    cases head with
    | take _ within => exact ih within

/-- After an overrun nothing is taken any more: the counter never falls. -/
theorem Takes.eq_nil_of_over (h : Takes it ys it')
    (hover : it.exitLimitInGwei < it.maxCurrentExitBalance) : ys = [] := by
  cases h with
  | refl => rfl
  | step head _ =>
    cases head with
    | take pop within =>
      rw [pop.balance, pop.limit] at within
      exact absurd (hover.trans_le (Nat.le_add_right _ _)) (not_lt.mpr within)

/-- The forced loop takes until a pass takes nothing; the passes granted always suffice. -/
theorem Ready.forcedLoop {st : StakingState} {passes : ℕ} (h : Ready st cmV1 cmV2 it)
    (hpasses : it.exitableCount < passes) :
    ∃ ys it₁ it', ValidatorExitIterator.forcedLoop passes it = .ok (some (ys, it')) ∧
      Takes it ys it₁ ∧ Step it₁ none it' ∧ Ready st cmV1 cmV2 it' := by
  induction passes generalizing it with
  | zero => exact absurd hpasses (Nat.not_lt_zero _)
  | succ passes ih =>
    obtain ⟨r, hr, hstep, hready⟩ := h.forcedStep
    cases r with
    | done it' =>
      refine ⟨[], it, it', ?_, .refl it, hstep, hready⟩
      rw [ValidatorExitIterator.forcedLoop, hr]
      rfl
    | ejected gid v it₁ =>
      have hcount : it₁.exitableCount < passes := by
        have hlen : (stock it.exitableValidators).length = (stock it₁.exitableValidators).length + 1 := by
          cases hstep with
          | take pop _ => exact pop.stock.length_eq
        rw [length_stock, length_stock] at hlen
        omega
      have hready₁ : Ready st cmV1 cmV2 it₁ := hready
      obtain ⟨ys, it₂, it', hloop, htakes, hlast, hready'⟩ := ih hready₁ hcount
      refine ⟨(gid, v) :: ys, it₂, it', ?_, .step hstep htakes, hlast, hready'⟩
      rw [ValidatorExitIterator.forcedLoop, hr, Except.ok_bind]
      change (ValidatorExitIterator.forcedLoop passes it₁ >>= _) = _
      rw [hloop]
      rfl

theorem Ready.getRemainingForcedValidators {st : StakingState} (h : Ready st cmV1 cmV2 it) :
    ∃ ys it₁ it', it.getRemainingForcedValidators = .ok (some (ys, it')) ∧
      Takes it ys it₁ ∧ Step it₁ none it' ∧ Ready st cmV1 cmV2 it' :=
  h.forcedLoop (Nat.lt_succ_self _)

end Taking

end ValidatorExitIterator

end LidoOracle
