import LidoOracle.ExitOrder.Exitable
import LidoOracle.ExitOrder.ForcedExits

/-! The list of a report. The withdrawal queue draws validators from the
iterator until the predicted balance covers it; operators over a forced target
are then served from what the iterator has left. -/

namespace LidoOracle

namespace Ejector

open ValidatorExitIterator

/-- How the phase driven by withdrawals ended -/
inductive PhaseEnd where
  | notEntered
  | demandMet
  | stopIteration
  deriving DecidableEq

structure WithdrawalPhase where
  validatorsToEject : List (NodeOperatorGlobalIndex × LidoValidator)
  totalBalanceToEject : Gwei
  it : ValidatorExitIterator
  ended : PhaseEnd

/-- The `for` loop. The balance prediction is asked once per validator, and its calls are
numbered; `none` would mean that the passes granted did not suffice. -/
def withdrawalLoop (toWithdrawAmount : ℕ) (getPredictedElBalance : ℕ → Gwei → Iter ℤ) :
    ℕ → ValidatorExitIterator → ℕ → Gwei → Iter (Option WithdrawalPhase)
  | 0, _, _, _ => return none
  | passes + 1, it, calls, totalBalanceToEject => do
    match ← it.next with
    | (none, it) => return some ⟨[], totalBalanceToEject, it, .stopIteration⟩
    | (some (gid, v), it) => do
      let totalBalanceToEject := totalBalanceToEject + getPredictableInboundBalance v
      let predictableElBalance ← getPredictedElBalance calls totalBalanceToEject
      if predictableElBalance + gweiToWei totalBalanceToEject ≥ toWithdrawAmount then
        return some ⟨[(gid, v)], totalBalanceToEject, it, .demandMet⟩
      let rest ← withdrawalLoop toWithdrawAmount getPredictedElBalance passes it (calls + 1)
        totalBalanceToEject
      return rest.map fun r => { r with validatorsToEject := (gid, v) :: r.validatorsToEject }

def withdrawalPhase (st : StakingState) (toWithdrawAmount : ℕ)
    (getPredictedElBalance : ℕ → Gwei → Iter ℤ) : Iter (Option WithdrawalPhase) := do
  let predictableElBalance ← getPredictedElBalance 0 0
  let it ← iter st
  if toWithdrawAmount ≠ 0 && toWithdrawAmount > predictableElBalance then do
    -- the loop calls `iter` on the iterator once more
    let it ← iter st
    withdrawalLoop toWithdrawAmount getPredictedElBalance (it.exitableCount + 1) it 1 0
  else return some ⟨[], 0, it, .notEntered⟩

def getValidatorsToEject (st : StakingState) (toWithdrawAmount : ℕ)
    (getPredictedElBalance : ℕ → Gwei → Iter ℤ) :
    Iter (Option (List (NodeOperatorGlobalIndex × LidoValidator))) := do
  match ← withdrawalPhase st toWithdrawAmount getPredictedElBalance with
  | none => return none
  | some phase => do
    let forcedValidators ← phase.it.getRemainingForcedValidators
    return forcedValidators.map fun r => phase.validatorsToEject ++ r.1

/-- What every report guarantees about its validators -/
structure SafeReport (st : StakingState) (ys : List (NodeOperatorGlobalIndex × LidoValidator)) :
    Prop where
  distinct : (ys.map fun y => y.2.index).Nodup
  active : ∀ y ∈ ys, y.2 ∈ st.activeLidoValidators ∧ st.gidOf y.2 = some y.1
  notOnExit : ∀ y ∈ ys, isOnExit y.2.toValidator = false
  notRequested : ∀ y ∈ ys, ¬ ∃ event ∈ st.validatorExitRequests,
    (event.stakingModuleId, event.nodeOperatorId) = y.1 ∧ event.validatorIndex = y.2.index
  notConsolidating : ∀ y ∈ ys, y.2.consolidatingAsSource = none
  ascending : ∀ gid, ((ys.filter fun y => y.1 = gid).map Prod.snd).Pairwise
    fun a b => a.index < b.index
  front : ∀ gid, (ys.filter fun y => y.1 = gid).map Prod.snd <+: st.exitableOf gid
  within : (ys.map fun y => getMaxEffectiveBalance y.2.validator).sum ≤
    st.maxBalanceExitRequestedPerReportInEth * 10 ^ 9

/-- What the validators bring in when they are withdrawn -/
def inboundOf (ys : List (NodeOperatorGlobalIndex × LidoValidator)) : Gwei :=
  (ys.map fun y => getPredictableInboundBalance y.2).sum

/-- With these validators on exit the predicted balance covers the demand. -/
def Covered (toWithdrawAmount : ℕ) (getPredictedElBalance : ℕ → Gwei → Iter ℤ)
    (ys : List (NodeOperatorGlobalIndex × LidoValidator)) : Prop :=
  ∃ predictableElBalance, getPredictedElBalance ys.length (inboundOf ys) = .ok predictableElBalance ∧
    (toWithdrawAmount : ℤ) ≤ predictableElBalance + gweiToWei (inboundOf ys)

/-- Where the phase ended, by the demand and the predictions: it is not entered without a demand that is not covered
yet, and it goes on until the validators it has taken cover it. -/
structure EndsByDemand (toWithdrawAmount : ℕ) (getPredictedElBalance : ℕ → Gwei → Iter ℤ)
    (phase : WithdrawalPhase) : Prop where
  notEntered_iff : phase.ended = .notEntered ↔ toWithdrawAmount = 0 ∨ Covered toWithdrawAmount getPredictedElBalance []
  notEntered : phase.ended = .notEntered → phase.validatorsToEject = []
  before : ∀ n, n + 1 < phase.validatorsToEject.length →
    ¬ Covered toWithdrawAmount getPredictedElBalance (phase.validatorsToEject.take (n + 1))
  demandMet_iff : phase.ended = .demandMet ↔ phase.validatorsToEject ≠ [] ∧
    Covered toWithdrawAmount getPredictedElBalance phase.validatorsToEject

variable {st : StakingState} {cmV1 cmV2 : StakingModule} {it it' : ValidatorExitIterator}
  {toWithdrawAmount : ℕ} {getPredictedElBalance : ℕ → Gwei → Iter ℤ}
  {ys : List (NodeOperatorGlobalIndex × LidoValidator)}

theorem inboundOf_concat (y : NodeOperatorGlobalIndex × LidoValidator) :
    inboundOf (ys ++ [y]) = inboundOf ys + getPredictableInboundBalance y.2 := by
  simp [inboundOf]

/-- Whatever is taken from a started iterator makes a safe report. -/
theorem safeReport_of_takes (hindex : (st.activeLidoValidators.map (·.index)).Nodup)
    (hiter : iter st = .ok it) (h : Takes it ys it') : SafeReport st ys := by
  obtain ⟨cmV1, cmV2, -, -, hcounter, hlimit⟩ := iter_ready hiter
  have hmem : ∀ y ∈ ys, st.IsOperator y.1 ∧ y.2 ∈ st.exitableOf y.1 := fun y hy =>
    (mem_stock_iter hiter).mp (h.stock.mem_iff.mpr (List.mem_append_left _ hy))
  have hcan : ∀ y ∈ ys, isOnExit y.2.toValidator = false ∧ y.2.index ∉ st.requestedOf y.1 ∧
      y.2.consolidatingAsSource = none := by
    intro y hy
    have hcan := (StakingState.mem_exitableOf.mp (hmem y hy).2).2
    simpa [canExit, and_assoc] using hcan
  have hfront : ∀ gid, (ys.filter fun y => y.1 = gid).map Prod.snd <+: st.exitableOf gid := by
    intro gid
    have hlist := h.list gid
    rcases @iter_exitable st gid it hiter with ⟨hget, -⟩ | ⟨hget, -⟩
    · rw [hget] at hlist
      exact ⟨_, hlist.symm⟩
    · rw [hget] at hlist
      obtain ⟨hnil, -⟩ := List.append_eq_nil_iff.mp hlist.symm
      rw [hnil]
      exact List.nil_prefix
  constructor
  · have hnodup := stock_iter_nodup hiter hindex
    rw [(h.stock.map _).nodup_iff, List.map_append] at hnodup
    exact (List.nodup_append'.mp hnodup).1
  · exact fun y hy => StakingState.mem_validatorsOf.mp (StakingState.mem_exitableOf.mp (hmem y hy).2).1
  · exact fun y hy => (hcan y hy).1
  · exact fun y hy hreq => (hcan y hy).2.1 (StakingState.mem_requestedOf.mpr hreq)
  · exact fun y hy => (hcan y hy).2.2
  · exact fun gid => (StakingState.exitableOf_ascending hindex).sublist (hfront gid).sublist
  · exact hfront
  · have hsum := h.balance
    have hle := h.within (by rw [hcounter]; exact Nat.zero_le _)
    rw [hcounter, Nat.zero_add] at hsum
    rw [← hsum, ← hlimit, ← h.limit]
    exact hle

/-- The loop hands out what it took and stops with nobody left, over the limit, or satisfied. -/
theorem withdrawalLoop_ok {passes calls : ℕ} {total : Gwei} {out : Option WithdrawalPhase}
    (hready : Ready st cmV1 cmV2 it) (hpasses : it.exitableCount < passes)
    (h : withdrawalLoop toWithdrawAmount getPredictedElBalance passes it calls total = .ok out) :
    ∃ phase it₁, out = some phase ∧ Takes it phase.validatorsToEject it₁ ∧
      Ready st cmV1 cmV2 phase.it ∧
      ((phase.ended = .demandMet ∧ phase.it = it₁) ∨
        (phase.ended = .stopIteration ∧ Step it₁ none phase.it ∧
          (phase.it.maxCurrentExitBalance ≤ phase.it.exitLimitInGwei →
            stock phase.it.exitableValidators = []))) := by
  induction passes generalizing it calls total out with
  | zero => exact absurd hpasses (Nat.not_lt_zero _)
  | succ passes ih =>
    obtain ⟨⟨y, it₁⟩, hnext, h⟩ := Except.bind_eq_ok.mp h
    obtain ⟨hstep, hready₁, hempty⟩ := hready.next hnext
    cases y with
    | none =>
      rw [Except.pure_eq_ok] at h
      refine ⟨_, it, h.symm, .refl it, hready₁, .inr ⟨rfl, hstep, fun hle => ?_⟩⟩
      refine List.eq_nil_iff_forall_not_mem.mpr fun y hy => ?_
      obtain ⟨vs, hvs, hv⟩ := mem_stock.mp hy
      rw [hempty rfl hle y.1 vs hvs] at hv
      exact List.not_mem_nil hv
    | some y =>
      obtain ⟨gid, v⟩ := y
      obtain ⟨elBalance, -, h⟩ := Except.bind_eq_ok.mp h
      split_ifs at h with hmet
      · rw [Except.pure_eq_ok] at h
        exact ⟨_, it₁, h.symm, .step hstep (.refl it₁), hready₁, .inl ⟨rfl, rfl⟩⟩
      · obtain ⟨rest, hrest, h⟩ := Except.bind_eq_ok.mp h
        rw [Except.pure_eq_ok] at h
        have hcount : it₁.exitableCount < passes := by
          cases hstep with
          | take pop _ =>
            have hlen := pop.stock.length_eq
            rw [List.length_cons, length_stock, length_stock] at hlen
            omega
        obtain ⟨phase, it₂, rfl, htakes, hready₂, hend⟩ := ih hready₁ hcount hrest
        exact ⟨_, it₂, h.symm, .step hstep htakes, hready₂, hend⟩

/-- After `ys`, the loop asks for the predictions in turn and stops at the first that covers the demand. -/
theorem withdrawalLoop_covered {passes : ℕ} {phase : WithdrawalPhase}
    (h : withdrawalLoop toWithdrawAmount getPredictedElBalance passes it (ys.length + 1) (inboundOf ys) =
      .ok (some phase)) :
    phase.ended ≠ .notEntered ∧
      (∀ n, n + 1 < phase.validatorsToEject.length →
        ¬ Covered toWithdrawAmount getPredictedElBalance (ys ++ phase.validatorsToEject.take (n + 1))) ∧
      (phase.ended = .demandMet ↔ phase.validatorsToEject ≠ [] ∧
        Covered toWithdrawAmount getPredictedElBalance (ys ++ phase.validatorsToEject)) := by
  induction passes generalizing it ys phase with
  | zero => cases h
  | succ passes ih =>
    obtain ⟨⟨y?, it₁⟩, -, h⟩ := Except.bind_eq_ok.mp h
    cases y? with
    | none =>
      rw [Except.pure_eq_ok, Option.some.injEq] at h
      subst h
      simp
    | some y =>
      dsimp only at h
      rw [← inboundOf_concat] at h
      obtain ⟨elBalance, hel, h⟩ := Except.bind_eq_ok.mp h
      have hlast : Covered toWithdrawAmount getPredictedElBalance (ys ++ [y]) ↔
          (toWithdrawAmount : ℤ) ≤ elBalance + gweiToWei (inboundOf (ys ++ [y])) := by
        rw [Covered, List.length_append, List.length_singleton, hel]
        simp
      split_ifs at h with hmet
      · rw [Except.pure_eq_ok, Option.some.injEq] at h
        subst h
        refine ⟨by simp, fun n hn => absurd hn (by simp), ?_⟩
        simpa using hlast.mpr hmet
      · obtain ⟨rest, hrest, h⟩ := Except.bind_eq_ok.mp h
        rw [Except.pure_eq_ok] at h
        obtain ⟨phase', rfl, rfl⟩ := Option.map_eq_some_iff.mp h
        have hnot : ¬ Covered toWithdrawAmount getPredictedElBalance (ys ++ [y]) := fun hcov => hmet (hlast.mp hcov)
        have hlength : ys.length + 1 = (ys ++ [y]).length := by simp
        rw [hlength] at hrest
        obtain ⟨hentered, hbefore, hend⟩ := ih hrest
        refine ⟨hentered, fun n hn => ?_, hend.trans ?_⟩
        · cases n with
          | zero => exact hnot
          | succ n =>
            rw [List.length_cons] at hn
            have hprefix := hbefore n (by omega)
            rwa [List.append_assoc] at hprefix
        · rw [List.append_assoc, List.singleton_append]
          refine ⟨fun hcov => ⟨List.cons_ne_nil _ _, hcov.2⟩, fun hcov => ⟨fun hnil => ?_, hcov.2⟩⟩
          rw [hnil] at hcov
          exact hnot hcov.2

/-- The forced phase continues the first one: after an overrun it takes nothing. -/
theorem takes_forced {it₀ it₁ it₂ : ValidatorExitIterator}
    {ys ys' : List (NodeOperatorGlobalIndex × LidoValidator)} (h : Takes it₀ ys it₁)
    (hstep : Step it₁ none it) (h' : Takes it ys' it₂) : ∃ it', Takes it₀ (ys ++ ys') it' := by
  cases hstep with
  | pass => exact ⟨it₂, h.trans h'⟩
  | overrun pop exceeded =>
    rw [h'.eq_nil_of_over exceeded, List.append_nil]
    exact ⟨it₁, h⟩

/-- Every report that is built is safe, and complete where neither the demand nor the limit ended the withdrawal
phase. Where the limit ended it, the next validator did not fit. -/
theorem getValidatorsToEject_safe (hindex : (st.activeLidoValidators.map (·.index)).Nodup)
    {out : Option (List (NodeOperatorGlobalIndex × LidoValidator))}
    (h : getValidatorsToEject st toWithdrawAmount getPredictedElBalance = .ok out) :
    ∃ phase forced it', out = some (phase.validatorsToEject ++ forced) ∧
      withdrawalPhase st toWithdrawAmount getPredictedElBalance = .ok (some phase) ∧
      phase.it.getRemainingForcedValidators = .ok (some (forced, it')) ∧
      SafeReport st (phase.validatorsToEject ++ forced) ∧
      EndsByDemand toWithdrawAmount getPredictedElBalance phase ∧
      (toWithdrawAmount ≠ 0 → ¬ Covered toWithdrawAmount getPredictedElBalance [] →
        ¬ Covered toWithdrawAmount getPredictedElBalance phase.validatorsToEject →
        phase.it.maxCurrentExitBalance ≤ phase.it.exitLimitInGwei →
        ∀ gid v, st.IsOperator gid → v ∈ st.exitableOf gid →
          (gid, v) ∈ phase.validatorsToEject ++ forced) ∧
      (phase.it.exitLimitInGwei < phase.it.maxCurrentExitBalance → forced = [] ∧ ∃ gid v, st.IsOperator gid ∧
        v ∈ st.exitableOf gid ∧ (gid, v) ∉ phase.validatorsToEject ∧
        st.maxBalanceExitRequestedPerReportInEth * 10 ^ 9 <
          (phase.validatorsToEject.map fun y => getMaxEffectiveBalance y.2.validator).sum +
            getMaxEffectiveBalance v.validator) := by
  obtain ⟨phase?, hphase, h⟩ := Except.bind_eq_ok.mp h
  obtain ⟨elBalance, hel, hphase'⟩ := Except.bind_eq_ok.mp hphase
  obtain ⟨it₀, hiter, hphase'⟩ := Except.bind_eq_ok.mp hphase'
  obtain ⟨cmV1, cmV2, hready₀, -, hcounter, hlimit⟩ := iter_ready hiter
  have hcovered : Covered toWithdrawAmount getPredictedElBalance [] ↔ (toWithdrawAmount : ℤ) ≤ elBalance := by
    have hinbound : inboundOf [] = 0 := rfl
    rw [Covered, hinbound, List.length_nil, hel]
    simp [gweiToWei]
  -- both phases start from the same iterator, whether or not the loop restarts it
  have hfirst : ∃ phase it₁, phase? = some phase ∧ Takes it₀ phase.validatorsToEject it₁ ∧
      Ready st cmV1 cmV2 phase.it ∧ Step it₁ none phase.it ∧
      EndsByDemand toWithdrawAmount getPredictedElBalance phase ∧
      (phase.ended = .stopIteration → phase.it.maxCurrentExitBalance ≤ phase.it.exitLimitInGwei →
        stock phase.it.exitableValidators = []) := by
    split_ifs at hphase' with hentered
    · rw [hiter, Except.ok_bind] at hphase'
      obtain ⟨phase, it₁, rfl, htakes, hready, hend⟩ :=
        withdrawalLoop_ok hready₀ (Nat.lt_succ_self _) hphase'
      have hloop : withdrawalLoop toWithdrawAmount getPredictedElBalance (it₀.exitableCount + 1) it₀
        (([] : List (NodeOperatorGlobalIndex × LidoValidator)).length + 1) (inboundOf []) = .ok (some phase) := hphase'
      obtain ⟨hended, hbefore, hmet⟩ := withdrawalLoop_covered hloop
      have hguard : ¬(toWithdrawAmount = 0 ∨ Covered toWithdrawAmount getPredictedElBalance []) := by
        rw [hcovered]
        simpa using hentered
      refine ⟨phase, it₁, rfl, htakes, hready, ?_, ⟨iff_of_false hended hguard, fun hnone => absurd hnone hended,
        hbefore, hmet⟩, ?_⟩
      · rcases hend with ⟨-, rfl⟩ | ⟨-, hstep, -⟩
        · exact .pass
        · exact hstep
      · rcases hend with ⟨hended, -⟩ | ⟨-, -, hempty⟩
        · exact fun hstop => absurd (hended.symm.trans hstop) (by decide)
        · exact fun _ => hempty
    · rw [Except.pure_eq_ok] at hphase'
      have hguard : toWithdrawAmount = 0 ∨ Covered toWithdrawAmount getPredictedElBalance [] := by
        rw [hcovered]
        simpa [or_iff_not_imp_left] using hentered
      subst hphase'
      refine ⟨_, it₀, rfl, .refl it₀, hready₀, .pass, ⟨iff_of_true rfl hguard, fun _ => rfl, fun n hn => ?_, ?_⟩,
        fun hstop => by cases hstop⟩
      · cases hn
      · simp
  obtain ⟨phase, it₁, rfl, htakes, hready, hstep, hends, hempty⟩ := hfirst
  obtain ⟨forced, it₂, it₃, hforced, htakes', -, -⟩ := hready.getRemainingForcedValidators
  dsimp only at h
  rw [hforced, Except.ok_bind, Except.pure_eq_ok] at h
  obtain ⟨it', hall⟩ := takes_forced htakes hstep htakes'
  refine ⟨phase, forced, it₃, h.symm, hphase, hforced, safeReport_of_takes hindex hiter hall, hends, ?_,
    fun hover => ?_⟩
  · intro hdemand hbefore hafter hle gid v hop hv
    have hended : phase.ended = .stopIteration := by
      have hentered := fun hnone => (hends.notEntered_iff.mp hnone).elim hdemand hbefore
      have hunmet := fun hmet => hafter (hends.demandMet_iff.mp hmet).2
      cases hphase : phase.ended with
      | notEntered => exact absurd hphase hentered
      | demandMet => exact absurd hphase hunmet
      | stopIteration => rfl
    have hstock := (mem_stock_iter hiter).mpr (show st.IsOperator (gid, v).1 ∧ (gid, v).2 ∈ _ from ⟨hop, hv⟩)
    have hnil := hempty hended hle
    cases hstep with
    | pass =>
      have hmem := htakes.stock.mem_iff.mp hstock
      rw [hnil, List.append_nil] at hmem
      exact List.mem_append_left _ hmem
    | overrun pop exceeded => exact absurd exceeded (not_lt.mpr hle)
  · cases hstep with
    | pass =>
      refine absurd hover (not_lt.mpr (htakes.within ?_))
      rw [hcounter]
      exact Nat.zero_le _
    | @overrun gid v _ pop exceeded =>
      have hstock := htakes.stock.trans (pop.stock.append_left _)
      have hmem := (mem_stock_iter hiter).mp (hstock.mem_iff.mpr (List.mem_append_right _ List.mem_cons_self))
      have hnodup := stock_iter_nodup hiter hindex
      rw [(hstock.map _).nodup_iff, List.map_append, List.nodup_append'] at hnodup
      refine ⟨htakes'.eq_nil_of_over exceeded, gid, v, hmem.1, hmem.2, fun htaken => ?_, ?_⟩
      · exact hnodup.2.2 (List.mem_map_of_mem htaken) (List.mem_map_of_mem List.mem_cons_self)
      · rw [← hlimit, ← htakes.limit, ← pop.limit]
        rw [pop.balance, htakes.balance, hcounter, Nat.zero_add] at exceeded
        exact exceeded

/-- The withdrawals take the validator of one operator, the forced phase that of the other. -/
theorem getValidatorsToEject_sample : ∃ phase forced,
    getValidatorsToEject forcedState (30 * 10 ^ 18) (fun _ _ => .ok 0) = .ok (some (phase.validatorsToEject ++ forced)) ∧
      named phase.validatorsToEject = [((1, 1), 9)] ∧ named forced = [((2, 1), 5)] ∧
      SafeReport forcedState (phase.validatorsToEject ++ forced) ∧
      EndsByDemand (30 * 10 ^ 18) (fun _ _ => .ok 0) phase := by
  have hfirst : ((withdrawalPhase forcedState (30 * 10 ^ 18) fun _ _ => .ok 0).toOption.join.map fun phase =>
      named phase.validatorsToEject) = some [((1, 1), 9)] := by decide +kernel
  have hlist : (getValidatorsToEject forcedState (30 * 10 ^ 18) fun _ _ => .ok 0).toOption.join.map named =
      some [((1, 1), 9), ((2, 1), 5)] := by decide +kernel
  cases hout : getValidatorsToEject forcedState (30 * 10 ^ 18) (fun _ _ => .ok 0) with
  | error e =>
    rw [hout] at hlist
    cases hlist
  | ok out =>
    obtain ⟨phase, forced, it', rfl, hphase, -, hsafe, hends, -⟩ := getValidatorsToEject_safe (by decide) hout
    rw [hphase] at hfirst
    rw [hout] at hlist
    have hnamed : named phase.validatorsToEject = [((1, 1), 9)] := Option.some.inj hfirst
    have happend : named (phase.validatorsToEject ++ forced) = [((1, 1), 9), ((2, 1), 5)] := Option.some.inj hlist
    have hsplit : named (phase.validatorsToEject ++ forced) = named phase.validatorsToEject ++ named forced :=
      List.map_append
    rw [hsplit, hnamed, List.singleton_append] at happend
    exact ⟨phase, forced, rfl, hnamed, (List.cons.inj happend).2, hsafe, hends⟩

end Ejector

end LidoOracle
