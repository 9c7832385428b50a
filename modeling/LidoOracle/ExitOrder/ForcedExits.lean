import LidoOracle.ExitOrder.DivisionSafety

/-! The forced exits that follow the exit order. Each pass takes one validator
of an operator above its forced target, so an operator is asked exactly for its
excess, as far as it has validators left. -/

namespace LidoOracle

namespace StakingState

variable (st : StakingState)

def operatorAt (gid : NodeOperatorGlobalIndex) : Option NodeOperator :=
  ((ValidatorExitIterator.prepareNodeOperatorStats st).get? gid).map (·.nodeOperator)

/-- How far an operator with so many exitable validators is above its forced target -/
def forcedExcess (gid : NodeOperatorGlobalIndex) (exitable : ℕ) : ℕ :=
  match st.operatorAt gid with
  | some op => if op.isTargetLimitActive = .force then exitable + st.pendingCount gid - op.targetValidatorsCount else 0
  | none => 0

/-- How many validators an operator can still be forced to exit -/
def forcedLeft (it : ValidatorExitIterator) (gid : NodeOperatorGlobalIndex) : ℕ :=
  min (st.forcedExcess gid ((it.exitableValidators.get? gid).getD []).length)
    ((it.exitableValidators.get? gid).getD []).length

variable {st} {gid : NodeOperatorGlobalIndex}

theorem forcedExcess_succ {n : ℕ} (h : 0 < st.forcedExcess gid (n + 1)) :
    st.forcedExcess gid (n + 1) = st.forcedExcess gid n + 1 := by
  unfold forcedExcess at h ⊢
  cases hop : st.operatorAt gid with
  | none =>
    rw [hop] at h
    exact absurd h (lt_irrefl 0)
  | some op =>
    rw [hop] at h
    dsimp only at h ⊢
    split_ifs at h ⊢ with hforce
    · omega
    · exact absurd h (lt_irrefl 0)

end StakingState

namespace ValidatorExitIterator

variable {st : StakingState} {cmV1 cmV2 : StakingModule} {it it' : ValidatorExitIterator}
  {gid : NodeOperatorGlobalIndex} {v : LidoValidator} {no : NodeOperatorStats}

/-! The excess of an operator, from its record -/

theorem link_forceExitTo (group : OperatorGroup) (w : NodeOperatorGlobalIndex → ℚ) (gid : NodeOperatorGlobalIndex)
    (no : NodeOperatorStats) : (group.link cmV2.id w gid no).forceExitTo = no.forceExitTo := by
  unfold OperatorGroup.link
  split_ifs <;> rfl

theorem linkAll_forceExitTo (groups : List OperatorGroup) (w : NodeOperatorGlobalIndex → ℚ)
    (gid : NodeOperatorGlobalIndex) (no : NodeOperatorStats) :
    (linkAll cmV2.id w groups gid no).forceExitTo = no.forceExitTo := by
  induction groups generalizing no with
  | nil => rfl
  | cons group groups ih =>
    rw [linkAll, List.foldl_cons]
    exact (ih _).trans (link_forceExitTo group w gid no)

/-- No step moves an operator's target. -/
theorem Tracks.operatorAt (h : Tracks st cmV1 cmV2 it) (hno : it.nodeOperatorsStats.get? gid = some no) :
    st.operatorAt gid = some no.nodeOperator ∧
      no.forceExitTo = (initNodeOperatorStats no.nodeOperator).forceExitTo := by
  rw [h.eq, frame_get?] at hno
  obtain ⟨no₁, h₁, rfl⟩ := Option.map_eq_some_iff.mp hno
  rw [StakingState.operatorAt, h₁]
  obtain ⟨op, -, rfl⟩ := initial_get? h₁
  obtain ⟨w, hw⟩ := setWeights_eq cmV2.id (moduleOperatorIds cmV2.id (initial st))
    (cmV2Weights st cmV2) gid (initNodeOperatorStats op)
  have hfigures := congrArg Prod.fst (@linkAll_figures cmV2 (metaGroups st cmV2) (weighted st cmV2).weightOf gid
    (setWeights cmV2.id (moduleOperatorIds cmV2.id (initial st)) (cmV2Weights st cmV2) gid (initNodeOperatorStats op)))
  have hforce := @linkAll_forceExitTo cmV2 (metaGroups st cmV2) (weighted st cmV2).weightOf gid
    (setWeights cmV2.id (moduleOperatorIds cmV2.id (initial st)) (cmV2Weights st cmV2) gid (initNodeOperatorStats op))
  rw [hw] at hfigures hforce ⊢
  simp only [figures] at hfigures
  simp only [NodeOperatorStats.shift, hfigures, hforce]
  exact ⟨rfl, rfl⟩

/-- The predicate counts the excess. -/
theorem Tracks.noForcePredicate_eq (h : Tracks st cmV1 cmV2 it) (hno : it.nodeOperatorsStats.get? gid = some no) :
    noForcePredicate no = (st.forcedExcess gid ((it.exitableValidators.get? gid).getD []).length : ℕ) := by
  obtain ⟨hop, hforce⟩ := h.operatorAt hno
  have hvalidators := h.bookkept.validators gid no hno
  generalize ((it.exitableValidators.get? gid).getD []).length = n at hvalidators ⊢
  rw [noForcePredicate, hvalidators, hforce, StakingState.forcedExcess, hop, initNodeOperatorStats]
  dsimp only
  split_ifs with hmode
  · unfold getExpectedValidatorsDiff
    dsimp only
    split_ifs with hover <;> omega
  · rfl

/-- A forced ejection lowers what is left of its operator, and of no other. -/
theorem Popped.forcedLeft (h : Popped it gid v it') (hleft : 0 < st.forcedLeft it gid) (k : NodeOperatorGlobalIndex) :
    st.forcedLeft it k = st.forcedLeft it' k + if k = gid then 1 else 0 := by
  have hlist := congrArg List.length (h.list k)
  rw [List.length_append] at hlist
  unfold StakingState.forcedLeft at hleft ⊢
  split_ifs at hlist ⊢ with hk
  · subst hk
    rw [List.length_singleton, Nat.add_comm] at hlist
    rw [hlist] at hleft ⊢
    have hexcess := StakingState.forcedExcess_succ (lt_min_iff.mp hleft).1
    omega
  · rw [List.length_nil, Nat.zero_add] at hlist
    rw [hlist, Nat.add_zero]

theorem Popped.other (h : Popped it gid v it') {k : NodeOperatorGlobalIndex} (hk : k ≠ gid) :
    it'.exitableValidators.get? k = it.exitableValidators.get? k := by
  obtain ⟨rest, -, hmod⟩ := h.exitable
  rw [hmod, Dict.get?_modify, if_neg hk]

/-! One pass -/

theorem Tracks.forcedLeft_eq (h : Tracks st cmV1 cmV2 it) (hno : it.nodeOperatorsStats.get? gid = some no) :
    (st.forcedLeft it gid : ℤ) = min (noForcePredicate no) ((it.exitableValidators.get? gid).getD []).length := by
  rw [h.noForcePredicate_eq hno, StakingState.forcedLeft, Nat.cast_min]

/-- Over operators in the order of their excess, a pass takes a validator of one that is still above its target, and
only where there is none it takes nobody. -/
theorem Ready.forcedStepFrom_cases (h : Ready st cmV1 cmV2 it) {ops : List NodeOperatorStats}
    (hops : ∀ no ∈ ops, no ∈ it.nodeOperatorsStats.values)
    (hsorted : ops.Pairwise fun a b => noForcePredicate b ≤ noForcePredicate a) {r : ForcedStep}
    (hr : it.forcedStepFrom ops = .ok r) :
    (r = .done it ∧ ∀ no ∈ ops, st.forcedLeft it no.nodeOperator.globalIndex = 0) ∨
    ∃ gid v it', 0 < st.forcedLeft it gid ∧ Popped it gid v it' ∧
      (it'.exitLimitInGwei < it'.maxCurrentExitBalance ∧ r = .done it' ∨
        it'.maxCurrentExitBalance ≤ it'.exitLimitInGwei ∧ r = .ejected gid v it') := by
  induction ops with
  | nil => exact Or.inl ⟨(Except.ok.inj hr).symm, fun no hno => absurd hno List.not_mem_nil⟩
  | cons no ops ih =>
    have hleft : ∀ no' ∈ no :: ops, (st.forcedLeft it no'.nodeOperator.globalIndex : ℤ) = min (noForcePredicate no')
        ((it.exitableValidators.get? no'.nodeOperator.globalIndex).getD []).length := fun no' hno' =>
      h.toTracks.forcedLeft_eq (h.globalIndex (hops no' hno')).2
    rw [List.forall_mem_cons] at hops hleft
    rw [List.pairwise_cons] at hsorted
    rw [ValidatorExitIterator.forcedStepFrom] at hr
    by_cases hforce : noForcePredicate no = 0
    · rw [if_pos hforce] at hr
      refine Or.inl ⟨(Except.ok.inj hr).symm, List.forall_mem_cons.mpr ⟨?_, fun no' hno' => ?_⟩⟩
      · have := hleft.1
        omega
      · have := hleft.2 no' hno'
        have := hsorted.1 no' hno'
        omega
    rw [if_neg hforce] at hr
    obtain ⟨vs, hvs⟩ := Dict.mem_iff_exists_get?.mp (h.stocked _ (h.globalIndex hops.1).1)
    have hitem : (Py.getItem it.exitableValidators no.nodeOperator.globalIndex : Iter _) = .ok vs :=
      Py.getItem_eq_ok.mpr hvs
    change (Py.getItem it.exitableValidators no.nodeOperator.globalIndex >>= _) = _ at hr
    rw [hitem, Except.ok_bind] at hr
    rw [hvs] at hleft
    cases vs with
    | nil =>
      have hnone : st.forcedLeft it no.nodeOperator.globalIndex = 0 := by
        have hmin := hleft.1
        have hpos := h.toTracks.noForcePredicate_eq (h.globalIndex hops.1).2
        simp only [Option.getD_some, List.length_nil] at hmin
        omega
      rcases ih hops.2 hsorted.2 hr with ⟨hdone, hall⟩ | hpop
      · exact Or.inl ⟨hdone, List.forall_mem_cons.mpr ⟨hnone, hall⟩⟩
      · exact Or.inr hpop
    | cons v rest =>
      obtain ⟨it₁, heject, hpop, -⟩ := h.eject hvs
      simp only [List.isEmpty_cons, Bool.false_eq_true, if_false, heject, Except.ok_bind] at hr
      have hpos : 0 < st.forcedLeft it no.nodeOperator.globalIndex := by
        have hmin := hleft.1
        have hexcess := h.toTracks.noForcePredicate_eq (h.globalIndex hops.1).2
        simp only [Option.getD_some, List.length_cons] at hmin
        omega
      refine Or.inr ⟨_, v, _, hpos, hpop, ?_⟩
      split_ifs at hr with hover
      · exact Or.inl ⟨hover, (Except.ok.inj hr).symm⟩
      · exact Or.inr ⟨not_lt.mp hover, (Except.ok.inj hr).symm⟩

/-- The operators in the order of a pass -/
def forcedOrder (it : ValidatorExitIterator) : List NodeOperatorStats :=
  Sorted.sortedBy (fun no => toLex (-noForcePredicate no,
    (((it.exitableValidators.get? no.nodeOperator.globalIndex).getD []).head?.map fun v => v.index).getD 0))
    it.nodeOperatorsStats.values

theorem Ready.noRemainingForcedPredicate_eq (h : Ready st cmV1 cmV2 it) (hno : no ∈ it.nodeOperatorsStats.values) :
    it.noRemainingForcedPredicate no = .ok (toLex (-noForcePredicate no,
      (((it.exitableValidators.get? no.nodeOperator.globalIndex).getD []).head?.map fun v => v.index).getD 0)) := by
  obtain ⟨vs, hvs⟩ := Dict.mem_iff_exists_get?.mp (h.stocked _ (h.globalIndex hno).1)
  have hitem : (Py.getItem it.exitableValidators no.nodeOperator.globalIndex : Iter _) = .ok vs :=
    Py.getItem_eq_ok.mpr hvs
  rw [noRemainingForcedPredicate, lowestValidatorIndexPredicate, hitem, hvs]
  cases vs <;> rfl

theorem Ready.forcedStep_eq (h : Ready st cmV1 cmV2 it) : it.forcedStep = it.forcedStepFrom it.forcedOrder := by
  rw [ValidatorExitIterator.forcedStep, Py.sortedByM_of_ok fun no hno => h.noRemainingForcedPredicate_eq hno]
  rfl

theorem forcedOrder_pairwise : it.forcedOrder.Pairwise fun a b => noForcePredicate b ≤ noForcePredicate a := by
  refine Sorted.pairwise_sortedBy.imp fun hle => ?_
  rcases Prod.Lex.toLex_le_toLex.mp hle with hlt | ⟨heq, -⟩
  · exact (neg_lt_neg_iff.mp hlt).le
  · exact (neg_inj.mp heq).ge

theorem Ready.forcedStep_cases (h : Ready st cmV1 cmV2 it) {r : ForcedStep} (hr : it.forcedStep = .ok r) :
    (r = .done it ∧ ∀ gid, st.forcedLeft it gid = 0) ∨
    ∃ gid v it', 0 < st.forcedLeft it gid ∧ Popped it gid v it' ∧
      (it'.exitLimitInGwei < it'.maxCurrentExitBalance ∧ r = .done it' ∨
        it'.maxCurrentExitBalance ≤ it'.exitLimitInGwei ∧ r = .ejected gid v it') := by
  rw [h.forcedStep_eq] at hr
  rcases h.forcedStepFrom_cases (fun no hno => Sorted.mem_sortedBy.mp hno) forcedOrder_pairwise hr with
    ⟨hdone, hnone⟩ | hpop
  · refine Or.inl ⟨hdone, fun gid => ?_⟩
    cases hvs : it.exitableValidators.get? gid with
    | none =>
      rw [StakingState.forcedLeft, hvs]
      exact Nat.min_zero _
    | some vs =>
      have hgid := (h.checks.exitable _ (Dict.get?_eq_some_iff.mp hvs)).1
      have hmem : gid ∈ it.nodeOperatorsStats := by
        rw [h.eq, ← Dict.mem_keys, running_operator_keys]
        exact hgid
      obtain ⟨no, hno⟩ := Dict.mem_iff_exists_get?.mp hmem
      have hkey : no.nodeOperator.globalIndex = gid := by
        rw [h.eq] at hno
        exact (running_operator hno).1
      rw [← hkey]
      exact hnone no (Sorted.mem_sortedBy.mpr (List.mem_map_of_mem (Dict.get?_eq_some_iff.mp hno)))
  · exact Or.inr hpop

/-! The loop -/

/-- The last pass took a validator too many for the report. -/
def StoppedByLimit (it : ValidatorExitIterator) (ys : List (NodeOperatorGlobalIndex × LidoValidator))
    (it' : ValidatorExitIterator) : Prop :=
  ∃ it₁ gid v, Takes it ys it₁ ∧ Popped it₁ gid v it' ∧ it'.exitLimitInGwei < it'.maxCurrentExitBalance

/-- How often an operator is asked in the loop -/
def askedOf (gid : NodeOperatorGlobalIndex) (ys : List (NodeOperatorGlobalIndex × LidoValidator)) : ℕ :=
  ys.countP fun y => y.1 = gid

/-- The loop ends with nothing left to force out, each operator asked for what was left of it; or the limit stops it,
which takes one validator more. -/
theorem Ready.forcedLoop_cases {passes : ℕ} (h : Ready st cmV1 cmV2 it) (hpasses : it.exitableCount < passes) :
    ∃ ys it', ValidatorExitIterator.forcedLoop passes it = .ok (some (ys, it')) ∧ Ready st cmV1 cmV2 it' ∧
      (∀ gid, askedOf gid ys ≤ st.forcedLeft it gid) ∧
      (∀ gid, st.forcedLeft it gid = 0 → it'.exitableValidators.get? gid = it.exitableValidators.get? gid) ∧
      (Takes it ys it' ∧ (∀ gid, st.forcedLeft it' gid = 0 ∧ askedOf gid ys = st.forcedLeft it gid) ∨
        StoppedByLimit it ys it') := by
  induction passes generalizing it with
  | zero => exact absurd hpasses (Nat.not_lt_zero _)
  | succ passes ih =>
    obtain ⟨r, hr, -, hready⟩ := h.forcedStep
    rw [ValidatorExitIterator.forcedLoop, hr, Except.ok_bind]
    rcases h.forcedStep_cases hr with ⟨rfl, hnone⟩ | ⟨gid, v, it₁, hleft, hpop, ⟨hover, rfl⟩ | ⟨hwithin, rfl⟩⟩
    · exact ⟨[], it, rfl, h, fun gid => Nat.zero_le _, fun gid _ => rfl,
        Or.inl ⟨.refl it, fun gid => ⟨hnone gid, (hnone gid).symm⟩⟩⟩
    · refine ⟨[], it₁, rfl, hready, fun gid => Nat.zero_le _, fun k hk => hpop.other ?_,
        Or.inr ⟨it, gid, v, .refl it, hpop, hover⟩⟩
      rintro rfl
      exact hleft.ne' hk
    · have hcount : it₁.exitableCount < passes := by
        have hlen := hpop.stock.length_eq
        rw [List.length_cons, length_stock, length_stock] at hlen
        omega
      have hready₁ : Ready st cmV1 cmV2 it₁ := hready
      obtain ⟨ys, it', hloop, hready', hasked, hsame, hend⟩ := ih hready₁ hcount
      have hstep : ∀ k, askedOf k ((gid, v) :: ys) = askedOf k ys + if k = gid then 1 else 0 := fun k => by
        simp [askedOf, List.countP_cons, eq_comm]
      refine ⟨(gid, v) :: ys, it', ?_, hready', fun k => ?_, fun k hk => ?_, ?_⟩
      · dsimp only
        rw [hloop]
        rfl
      · rw [hstep, hpop.forcedLeft hleft k]
        exact Nat.add_le_add_right (hasked k) _
      · have hne : k ≠ gid := by
          rintro rfl
          exact hleft.ne' hk
        rw [hpop.forcedLeft hleft k, if_neg hne] at hk
        rw [hsame k hk, hpop.other hne]
      · rcases hend with ⟨htakes, hall⟩ | ⟨it₂, gid', v', htakes, hpop', hover⟩
        · refine Or.inl ⟨.step (.take hpop hwithin) htakes, fun k => ⟨(hall k).1, ?_⟩⟩
          rw [hstep, hpop.forcedLeft hleft k, (hall k).2]
        · exact Or.inr ⟨it₂, gid', v', .step (.take hpop hwithin) htakes, hpop', hover⟩

/-! A larger report limit -/

def withLimit (it : ValidatorExitIterator) (limit : Gwei) : ValidatorExitIterator :=
  { it with exitLimitInGwei := limit }

section Limit

variable {limit : Gwei}

theorem Tracks.withLimit (h : Tracks st cmV1 cmV2 it) : Tracks st cmV1 cmV2 (it.withLimit limit) where
  checks := h.checks
  eq := congrArg (fun it₀ : ValidatorExitIterator => it₀.withLimit limit) h.eq

theorem Ready.withLimit (h : Ready st cmV1 cmV2 it) : Ready st cmV1 cmV2 (it.withLimit limit) :=
  ⟨h.toTracks.withLimit, h.stocked⟩

/-- An ejection does not look at the limit. -/
theorem Tracks.ejectValidator_withLimit (h : Tracks st cmV1 cmV2 it) {rest : List LidoValidator}
    (hv : it.exitableValidators.get? gid = some (v :: rest)) (heject : it.ejectValidator gid = .ok (v, it')) :
    (it.withLimit limit).ejectValidator gid = .ok (v, it'.withLimit limit) := by
  have hgid : gid ∈ prepareNodeOperatorStats st := (h.checks.exitable _ (Dict.get?_eq_some_iff.mp hv)).1
  have hall := fun l => ejectValidator_ok (c := it.maxCurrentExitBalance) (l := l)
    (d := posted st cmV1 cmV2 (Delta.counted st it.exitableValidators)) h.checks hgid hv
  have hlow := hall it.exitLimitInGwei
  have hhigh := hall limit
  rw [← h.eq, heject, Except.ok.injEq, Prod.mk.injEq] at hlow
  have hit : (running st cmV2 it.maxCurrentExitBalance limit it.exitableValidators).shift
      (posted st cmV1 cmV2 (Delta.counted st it.exitableValidators)) = it.withLimit limit :=
    (congrArg (fun it₀ : ValidatorExitIterator => it₀.withLimit limit) h.eq).symm
  rw [hit] at hhigh
  rw [hhigh, hlow.2]
  rfl

/-- A pass that ejects within a limit ejects the same validator within a larger one. -/
theorem Ready.forcedStepFrom_withLimit (h : Ready st cmV1 cmV2 it) (hle : it.exitLimitInGwei ≤ limit)
    {ops : List NodeOperatorStats} (hops : ∀ no ∈ ops, no ∈ it.nodeOperatorsStats.values)
    (hr : it.forcedStepFrom ops = .ok (.ejected gid v it')) :
    (it.withLimit limit).forcedStepFrom ops = .ok (.ejected gid v (it'.withLimit limit)) := by
  induction ops with
  | nil => cases hr
  | cons no ops ih =>
    rw [List.forall_mem_cons] at hops
    rw [ValidatorExitIterator.forcedStepFrom] at hr ⊢
    by_cases hforce : noForcePredicate no = 0
    · rw [if_pos hforce] at hr
      cases hr
    rw [if_neg hforce] at hr ⊢
    obtain ⟨vs, hvs⟩ := Dict.mem_iff_exists_get?.mp (h.stocked _ (h.globalIndex hops.1).1)
    have hitem : (Py.getItem it.exitableValidators no.nodeOperator.globalIndex : Iter _) = .ok vs :=
      Py.getItem_eq_ok.mpr hvs
    change (Py.getItem it.exitableValidators no.nodeOperator.globalIndex >>= _) = _ at hr ⊢
    rw [hitem, Except.ok_bind] at hr ⊢
    cases vs with
    | nil => exact ih hops.2 hr
    | cons v' rest =>
      obtain ⟨it₁, heject, hpop, -⟩ := h.eject hvs
      have hheject : (it.withLimit limit).ejectValidator _ = _ := h.toTracks.ejectValidator_withLimit hvs heject
      simp only [List.isEmpty_cons, Bool.false_eq_true, if_false, heject, hheject, Except.ok_bind] at hr ⊢
      split_ifs at hr with hover
      · cases hr
      · rw [Except.pure_eq_ok, ForcedStep.ejected.injEq] at hr
        obtain ⟨rfl, rfl, rfl⟩ := hr
        have hlimit : it₁.exitLimitInGwei = it.exitLimitInGwei := hpop.limit
        exact if_neg (not_lt.mpr ((not_lt.mp hover).trans (hlimit.trans_le hle)))

theorem Ready.forcedStep_withLimit (h : Ready st cmV1 cmV2 it) (hle : it.exitLimitInGwei ≤ limit)
    (hr : it.forcedStep = .ok (.ejected gid v it')) :
    (it.withLimit limit).forcedStep = .ok (.ejected gid v (it'.withLimit limit)) := by
  rw [h.forcedStep_eq] at hr
  rw [h.withLimit.forcedStep_eq]
  exact h.forcedStepFrom_withLimit hle (fun no hno => Sorted.mem_sortedBy.mp hno) hr

/-- With a larger limit the loop takes the same validators, and then maybe others. -/
theorem Ready.forcedLoop_prefix {passes : ℕ} {ys ys' : List (NodeOperatorGlobalIndex × LidoValidator)}
    {last last' : ValidatorExitIterator} (h : Ready st cmV1 cmV2 it) (hle : it.exitLimitInGwei ≤ limit)
    (hlow : ValidatorExitIterator.forcedLoop passes it = .ok (some (ys, last)))
    (hhigh : ValidatorExitIterator.forcedLoop passes (it.withLimit limit) = .ok (some (ys', last'))) : ys <+: ys' := by
  induction passes generalizing it ys ys' with
  | zero => cases hlow
  | succ passes ih =>
    obtain ⟨r, hr, -, hready⟩ := h.forcedStep
    rw [ValidatorExitIterator.forcedLoop, hr, Except.ok_bind] at hlow
    cases r with
    | done it' =>
      rw [Except.pure_eq_ok, Option.some.injEq, Prod.mk.injEq] at hlow
      rw [← hlow.1]
      exact List.nil_prefix
    | ejected gid v it' =>
      have hready' : Ready st cmV1 cmV2 it' := hready
      have hlimit : it'.exitLimitInGwei = it.exitLimitInGwei := by
        rcases h.forcedStep_cases hr with ⟨hdone, -⟩ | ⟨gid', v', it₁, -, hpop, ⟨-, hdone⟩ | ⟨-, heq⟩⟩
        · cases hdone
        · cases hdone
        · cases heq
          exact hpop.limit
      rw [ValidatorExitIterator.forcedLoop, h.forcedStep_withLimit hle hr, Except.ok_bind] at hhigh
      obtain ⟨rest, hrest, hlow⟩ := Except.bind_eq_ok.mp hlow
      obtain ⟨rest', hrest', hhigh⟩ := Except.bind_eq_ok.mp hhigh
      rw [Except.pure_eq_ok, Option.map_eq_some_iff] at hlow hhigh
      obtain ⟨found, rfl, hfound⟩ := hlow
      obtain ⟨found', rfl, hfound'⟩ := hhigh
      rw [Prod.mk.injEq] at hfound hfound'
      obtain ⟨rfl, rfl⟩ := hfound
      obtain ⟨rfl, rfl⟩ := hfound'
      exact List.cons_prefix_cons.mpr ⟨rfl, ih hready' (hlimit.trans_le hle) hrest hrest'⟩

end Limit

/-- An operator with nothing left to force out is at its target or has no exitable validator. -/
theorem Ready.reached (h : Ready st cmV1 cmV2 it) (hleft : st.forcedLeft it gid = 0)
    (hno : it.nodeOperatorsStats.get? gid = some no) (hforce : no.nodeOperator.isTargetLimitActive = .force) :
    no.predictableValidators ≤ no.nodeOperator.targetValidatorsCount ∨ it.exitableValidators.get? gid = some [] := by
  have hgid : gid ∈ prepareNodeOperatorStats st := by
    have hmem := Dict.mem_of_get? hno
    rwa [h.eq, ← Dict.mem_keys, running_operator_keys] at hmem
  obtain ⟨vs, hvs⟩ := Dict.mem_iff_exists_get?.mp (h.stocked gid hgid)
  have hvalidators := h.bookkept.validators gid no hno
  rw [StakingState.forcedLeft, StakingState.forcedExcess, (h.operatorAt hno).1, hvs, Nat.min_eq_zero_iff] at hleft
  rw [hvs] at hvalidators ⊢
  simp only [if_pos hforce, Option.getD_some] at hleft hvalidators
  rcases hleft with hexcess | hnone
  · refine Or.inl ?_
    rw [hvalidators]
    exact Int.ofNat_le.mpr (Nat.sub_eq_zero_iff_le.mp hexcess)
  · exact Or.inr (congrArg some (List.length_eq_zero_iff.mp hnone))

/-- The forced exits of any state of a run: the loop ends; unless the limit stops it, every operator is asked exactly
for its excess as far as it has validators left; and the limit cuts the list off, nothing else. -/
theorem getRemainingForcedValidators_exact (st : StakingState) (it : ValidatorExitIterator) (h : IterationRun st it) :
    ∃ ys it', it.getRemainingForcedValidators = .ok (some (ys, it')) ∧
      (¬StoppedByLimit it ys it' → Takes it ys it' ∧
        (∀ gid no, it'.nodeOperatorsStats.get? gid = some no → no.nodeOperator.isTargetLimitActive = .force →
          no.predictableValidators ≤ no.nodeOperator.targetValidatorsCount ∨
            it'.exitableValidators.get? gid = some []) ∧
        ∀ gid no, it.nodeOperatorsStats.get? gid = some no → (askedOf gid ys : ℤ) =
          min (noForcePredicate no) ((it.exitableValidators.get? gid).getD []).length) ∧
      (∀ gid no, it.nodeOperatorsStats.get? gid = some no →
        (askedOf gid ys : ℤ) ≤ min (noForcePredicate no) ((it.exitableValidators.get? gid).getD []).length ∧
        (noForcePredicate no = 0 → it'.exitableValidators.get? gid = it.exitableValidators.get? gid)) ∧
      ∀ limit, it.exitLimitInGwei ≤ limit → ∃ ys' last,
        (it.withLimit limit).getRemainingForcedValidators = .ok (some (ys', last)) ∧ ys <+: ys' := by
  obtain ⟨cmV1, cmV2, hready⟩ := h.ready
  obtain ⟨ys, it', hloop, hready', hasked, hsame, hend⟩ := hready.forcedLoop_cases (Nat.lt_succ_self _)
  refine ⟨ys, it', hloop, fun hlimit => ?_, fun gid no hno => ?_, fun limit hle => ?_⟩
  · obtain ⟨htakes, hall⟩ := hend.resolve_right hlimit
    refine ⟨htakes, fun gid no hno hforce => hready'.reached (hall gid).1 hno hforce, fun gid no hno => ?_⟩
    rw [(hall gid).2, hready.toTracks.forcedLeft_eq hno]
  · have hleft := hready.toTracks.forcedLeft_eq hno
    refine ⟨hleft ▸ Int.ofNat_le.mpr (hasked gid), fun hforce => ?_⟩
    rw [hforce, min_eq_left (Int.natCast_nonneg _)] at hleft
    exact hsame gid (Int.ofNat_eq_zero.mp hleft)
  · obtain ⟨ys', -, last, hhigh, -⟩ := (Ready.withLimit hready : Ready st cmV1 cmV2 (it.withLimit limit)).getRemainingForcedValidators
    exact ⟨ys', last, hhigh, hready.forcedLoop_prefix hle hloop hhigh⟩

/-- Two operators above their forced targets -/
def forcedState : StakingState := { sampleState [1, 3] with
  activeLidoValidators := sampleValidator 9 (32 * 10 ^ 9) 1 "a" :: (sampleState [1, 3]).activeLidoValidators }

def named (ys : List (NodeOperatorGlobalIndex × LidoValidator)) : List (NodeOperatorGlobalIndex × ValidatorIndex) :=
  ys.map fun y => (y.1, y.2.index)

/-- One of them has two validators. The limit, in ether, is for as many exits of 32 each. -/
def crowdedState (limit : ℕ) : StakingState := { forcedState with
  activeLidoValidators := sampleValidator 11 (32 * 10 ^ 9) 1 "a" :: forcedState.activeLidoValidators
  maxBalanceExitRequestedPerReportInEth := limit }

/-- What the forced phase returns, and whether it stays in a limit -/
def forcedRun (st : StakingState) (limit : Gwei) : Option (List (NodeOperatorGlobalIndex × ValidatorIndex) × Bool) :=
  (iter st).toOption.bind fun it => ((it.withLimit limit).getRemainingForcedValidators).toOption.join.map fun r =>
    (named r.1, decide (r.2.maxCurrentExitBalance ≤ r.2.exitLimitInGwei))

theorem of_forcedRun {st : StakingState} {limit : Gwei} {it : ValidatorExitIterator} (hit : iter st = .ok it)
    {ys : List (NodeOperatorGlobalIndex × LidoValidator)} {it' : ValidatorExitIterator}
    (hforced : (it.withLimit limit).getRemainingForcedValidators = .ok (some (ys, it')))
    {names : List (NodeOperatorGlobalIndex × ValidatorIndex)} {within : Bool}
    (h : forcedRun st limit = some (names, within)) :
    named ys = names ∧ decide (it'.maxCurrentExitBalance ≤ it'.exitLimitInGwei) = within := by
  unfold forcedRun at h
  rw [Except.toOption_eq_some.mpr hit, Option.bind_some, Except.toOption_eq_some.mpr hforced] at h
  exact Prod.mk.inj (Option.some.inj h)

theorem exists_iter_of_forcedRun {st : StakingState} {limit : Gwei}
    {r : List (NodeOperatorGlobalIndex × ValidatorIndex) × Bool} (h : forcedRun st limit = some r) :
    ∃ it, iter st = .ok it := by
  obtain ⟨it, hit, -⟩ := Option.bind_eq_some_iff.mp h
  exact ⟨it, Except.toOption_eq_some.mp hit⟩

/-- Three exits are due. With room for three each operator is asked for its excess; with room for two the third one
is cut off, and comes back with a higher limit. -/
theorem getRemainingForcedValidators_exact_sample :
    (∃ it ys it', iter (crowdedState 96) = .ok it ∧ it.getRemainingForcedValidators = .ok (some (ys, it')) ∧
      named ys = [((1, 1), 9), ((2, 1), 5), ((1, 1), 11)] ∧ Takes it ys it' ∧
      ∀ gid no, it.nodeOperatorsStats.get? gid = some no → (askedOf gid ys : ℤ) =
        min (noForcePredicate no) ((it.exitableValidators.get? gid).getD []).length) ∧
    ∃ it ys it' ys' last, iter (crowdedState 64) = .ok it ∧ it.getRemainingForcedValidators = .ok (some (ys, it')) ∧
      named ys = [((1, 1), 9), ((2, 1), 5)] ∧
      (it.withLimit (96 * 10 ^ 9)).getRemainingForcedValidators = .ok (some (ys', last)) ∧ ys <+: ys' ∧
      named ys' = [((1, 1), 9), ((2, 1), 5), ((1, 1), 11)] := by
  have hroom : forcedRun (crowdedState 96) (96 * 10 ^ 9) = some ([((1, 1), 9), ((2, 1), 5), ((1, 1), 11)], true) := by
    decide +kernel
  have hcut : forcedRun (crowdedState 64) (64 * 10 ^ 9) = some ([((1, 1), 9), ((2, 1), 5)], false) := by
    decide +kernel
  have hhigher : forcedRun (crowdedState 64) (96 * 10 ^ 9) = some ([((1, 1), 9), ((2, 1), 5), ((1, 1), 11)], true) := by
    decide +kernel
  have hlimit : ∀ {st : StakingState} {it : ValidatorExitIterator}, iter st = .ok it →
      it.withLimit (st.maxBalanceExitRequestedPerReportInEth * 10 ^ 9) = it := fun hit => by
    obtain ⟨-, -, -, -, -, hlimit⟩ := iter_ready hit
    rw [withLimit, ← hlimit]
  obtain ⟨it, hit⟩ := exists_iter_of_forcedRun hroom
  obtain ⟨small, hsmall⟩ := exists_iter_of_forcedRun hcut
  obtain ⟨ys, it', hforced, hexact, -⟩ := getRemainingForcedValidators_exact (crowdedState 96) it (.start hit)
  obtain ⟨few, small', hfew, -, -, hhigh⟩ := getRemainingForcedValidators_exact (crowdedState 64) small (.start hsmall)
  obtain ⟨many, last, hmany, hprefix⟩ := hhigh (96 * 10 ^ 9) (by
    rw [← hlimit hsmall]
    exact (by decide : 64 * 10 ^ 9 ≤ 96 * 10 ^ 9))
  obtain ⟨hnamed, hwithin⟩ := of_forcedRun hit (hlimit hit ▸ hforced) hroom
  refine ⟨⟨it, ys, it', hit, hforced, hnamed, ?_⟩, small, few, small', many, last, hsmall, hfew,
    (of_forcedRun hsmall (hlimit hsmall ▸ hfew) hcut).1, hmany, hprefix, (of_forcedRun hsmall hmany hhigher).1⟩
  obtain ⟨htakes, -, hasked⟩ := hexact fun ⟨_, _, _, _, _, hover⟩ => absurd (of_decide_eq_true hwithin) (not_le.mpr hover)
  exact ⟨htakes, hasked⟩

end ValidatorExitIterator

end LidoOracle
