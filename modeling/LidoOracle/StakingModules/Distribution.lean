import LidoOracle.Lib.ProRata
import LidoOracle.StakingModules.RewardsTree
import LidoOracle.StakingModules.State

/-! The distribution of a report: every frame splits the shares that came in
since the frame before it among the operators, by what their validators
attested, and rebates the rest to the protocol. -/

namespace LidoOracle

namespace StakingModules

open FloatingPoint (double double_nonneg double_le)

namespace Distribution

structure ValidatorDutiesOutcome where
  participationShare : ParticipationShares
  rebateShare : ParticipationShares
  strikes : ℕ
  deriving DecidableEq

/-- What the providers and the contracts give at the block of a frame -/
structure FrameView where
  sharesToDistribute : ℕ
  moduleValidators : Dict NodeOperatorId (List LidoValidator)
  getCurveParams : NodeOperatorId → CurveParams

def getValidatorDutiesOutcome (validator : LidoValidator) (duties : ValidatorDuties) (threshold rewardShare : ℚ)
    (perfCoeffs : PerformanceCoefficients) : Distributing ValidatorDutiesOutcome :=
  match duties.attestation with
  | none => return ⟨0, 0, 0⟩
  | some attestation => do
    if attestation.assigned = 0 then return ⟨0, 0, 0⟩
    if validator.validator.slashed then return ⟨0, 0, if threshold > 0 then 1 else 0⟩
    let performance ← perfCoeffs.calcPerformance duties
    let valEffectiveBalance := max MIN_ACTIVATION_BALANCE validator.validator.effectiveBalance
    let participationShareMultiplier := valEffectiveBalance / EFFECTIVE_BALANCE_INCREMENT
    if performance ≥ threshold then
      let assignedAtt := attestation.assigned * participationShareMultiplier
      let participationShare := ⌈double (double assignedAtt * rewardShare)⌉
      let rebateShare := assignedAtt - participationShare
      if rebateShare < 0 then throw (.raised .negativeRebateShare)
      return ⟨participationShare, rebateShare, 0⟩
    return ⟨0, 0, 1⟩

/-- 7% of 3200 attestations round up to 225, since the product of the floats is above 224. -/
example : ⌈double (double (3200 : ℕ) * double (700 / TOTAL_BASIS_POINTS))⌉ = 225 := by decide +kernel

/-- The shares of every validator, the operators that have one, and the sum over them -/
def addOperatorShares (acc : Dict NodeOperatorId ParticipationShares × ParticipationShares)
    (operator : NodeOperatorId × Dict ValidatorIndex ParticipationShares) :
    Dict NodeOperatorId ParticipationShares × ParticipationShares :=
  let noParticipationShare := operator.2.values.sum
  if noParticipationShare = 0 then acc
  else (acc.1.set operator.1 noParticipationShare, acc.2 + noParticipationShare)

def calcRewardsDistributionInFrame
    (participationShares : Dict NodeOperatorId (Dict ValidatorIndex ParticipationShares))
    (rebateShare : ParticipationShares) (rewardsToDistribute : ℤ) : Distributing (Dict NodeOperatorId ℤ) := do
  if rewardsToDistribute < 0 then throw (.raised .negativeRewardsToDistribute)
  let (perNodeOperatorParticipationShares, nodeOperatorsParticipationSharesSum) :=
    participationShares.entries.foldl addOperatorShares (Dict.empty, 0)
  let totalShares := rebateShare + nodeOperatorsParticipationSharesSum
  let rewardsDistribution ← perNodeOperatorParticipationShares.entries.foldlM (fun rewardsDistribution operator => do
    let rewards ← Py.floorDiv (rewardsToDistribute * operator.2) totalShares
    return rewardsDistribution.set operator.1 rewards) Dict.empty
  let distributedSum := rewardsDistribution.values.sum
  if distributedSum > rewardsToDistribute then throw (.raised .distributedAboveRewards)
  return rewardsDistribution

/-- What the validators of a frame add up to -/
structure FrameShares where
  totalRebateShare : ParticipationShares
  participationShares : Dict NodeOperatorId (Dict ValidatorIndex ParticipationShares)
  frameStrikes : Dict StrikesValidator ℕ

def FrameShares.start : FrameShares := ⟨0, Dict.empty, Dict.empty⟩

/-- What a frame gives to the operators and to the protocol -/
structure FrameRewards where
  rewardsMap : Dict NodeOperatorId ℤ
  distributedRewards : ℤ
  rebateToProtocol : ℤ
  strikesInFrame : Dict StrikesValidator ℕ

/-- The result as it is built up, and what was distributed so far -/
structure Progress where
  totalRewards : ℤ
  totalRebate : ℤ
  totalRewardsMap : Dict NodeOperatorId ℤ
  strikes : StrikesStore × ℕ
  distributedSoFar : ℤ

/-- The strikes of the last report, every list an object of its own -/
def loadStrikes (lastStrikes : Dict StrikesValidator StrikesList) : StrikesStore × ℕ :=
  ObjectStore.newDict ⟨lastStrikes.values, []⟩ (Dict.ofList lastStrikes.keys.zipIdx)

def Progress.start (lastStrikes : Dict StrikesValidator StrikesList) : Progress :=
  ⟨0, 0, Dict.empty, loadStrikes lastStrikes, 0⟩

section Frame

variable (state : State) (frame : Frame)

def getNetworkPerformance : Distributing ℚ := do
  let attAggr ← state.getAttNetworkAggr frame
  let propAggr ← state.getPropNetworkAggr frame
  let syncAggr ← state.getSyncNetworkAggr frame
  defaultCoefficients.calcPerformance ⟨some attAggr, some propAggr, some syncAggr⟩

/-- The lookup leaves an accumulator of zeros for a validator that has none, which nothing after it reads. -/
def isActiveInFrame (validator : LidoValidator) : Distributing Bool := do
  let frameData ← Py.getItem state.data frame
  return 0 < (frameData.attestations.totalAt validator.index).assigned

/-- From biggest to smallest balance and by index from oldest to newest -/
def numberedValidators (activeValidators : List LidoValidator) : List (LidoValidator × ℕ) :=
  (Sorted.sortedBy (fun v => toLex
    (-(min v.validator.effectiveBalance MAX_EFFECTIVE_BALANCE_ELECTRA : ℤ), v.index)) activeValidators).zipIdx 1

def addValidator (networkPerf : ℚ) (noId : NodeOperatorId) (curveParams : CurveParams) (shares : FrameShares)
    (numbered : LidoValidator × ℕ) : Distributing FrameShares := do
  let (validator, keyNumber) := numbered
  let leeway ← getFor curveParams.perfLeewayData keyNumber
  let keyThreshold := max (double (networkPerf - leeway)) 0
  let keyRewardShare ← getFor curveParams.rewardShareData keyNumber
  let duties ← state.getValidatorDuties frame validator.index
  let outcome ← getValidatorDutiesOutcome validator duties keyThreshold keyRewardShare curveParams.perfCoeffs
  let frameStrikes ← (if outcome.strikes ≠ 0 then do
      let pubkey ← hexStrToBytes validator.validator.pubkey
      return shares.frameStrikes.set (noId, pubkey) outcome.strikes
    else pure shares.frameStrikes)
  return {
    totalRebateShare := shares.totalRebateShare + outcome.rebateShare
    participationShares := shares.participationShares.setIn noId validator.index outcome.participationShare
    frameStrikes := frameStrikes }

def addOperator (networkPerf : ℚ) (getCurveParams : NodeOperatorId → CurveParams) (shares : FrameShares)
    (operator : NodeOperatorId × List LidoValidator) : Distributing FrameShares := do
  let activeValidators ← Py.filterM (isActiveInFrame state frame) operator.2
  if activeValidators = [] then return shares
  (numberedValidators activeValidators).foldlM
    (addValidator state frame networkPerf operator.1 (getCurveParams operator.1)) shares

def frameShares (view : FrameView) : Distributing FrameShares := do
  let networkPerf ← getNetworkPerformance state frame
  view.moduleValidators.entries.foldlM (addOperator state frame networkPerf view.getCurveParams) FrameShares.start

/-- All rewards are rebated if there are no active validators or validators are below the threshold. -/
def calculateDistributionInFrame (view : FrameView) (rewardsToDistribute : ℤ) : Distributing FrameRewards := do
  let shares ← frameShares state frame view
  let rewardsMap ← calcRewardsDistributionInFrame shares.participationShares shares.totalRebateShare rewardsToDistribute
  let distributedRewards := rewardsMap.values.sum
  let rebateToProtocol := rewardsToDistribute - distributedRewards
  return ⟨rewardsMap, distributedRewards, rebateToProtocol, shares.frameStrikes⟩

end Frame

section Calculate

variable (services : Services) (state : State) (view : Frame → FrameView)

/-- One frame of the loop -/
def addFrame (progress : Progress) (frame : Frame) : Distributing Progress := do
  let totalRewardsToDistribute : ℤ := (view frame).sharesToDistribute
  let rewardsToDistributeInFrame := totalRewardsToDistribute - progress.distributedSoFar
  let inFrame ← calculateDistributionInFrame state frame (view frame) rewardsToDistributeInFrame
  let strikes ← processStrikes progress.strikes.1 progress.strikes.2 ⟨inFrame.strikesInFrame, (view frame).getCurveParams⟩
  let totalRewards := progress.totalRewards + inFrame.distributedRewards
  let totalRebate := progress.totalRebate + inFrame.rebateToProtocol
  validateDistribution totalRewards totalRebate totalRewardsToDistribute
  return {
    totalRewards := totalRewards
    totalRebate := totalRebate
    totalRewardsMap := progress.totalRewardsMap.addAll inFrame.rewardsMap.entries
    strikes := strikes
    distributedSoFar := totalRewards + totalRebate }

def calculate (lastReport : LastReport) : Reporting Progress := do
  let lastStrikes ← lastReport.strikes services.strikes
  let result ← Py.lift ReportError.distribution (state.frames.foldlM (addFrame state view) (Progress.start lastStrikes))
  if result.totalRewards ≠ result.totalRewardsMap.values.sum then
    throw (.raised (.distribution .inconsistentData))
  let lastReportRewards ← lastReport.rewards services.rewards
  return { result with
    totalRewardsMap := result.totalRewardsMap.addAll (lastReportRewards.map fun leaf => (leaf.1, (leaf.2 : ℤ))) }

end Calculate

/-! What a split has to say -/

/-- The shares of an operator: what its validators have together -/
def FrameShares.ownShares (shares : FrameShares) (noId : NodeOperatorId) : ParticipationShares :=
  ((shares.participationShares.get? noId).getD Dict.empty).values.sum

def FrameShares.totalShares (shares : FrameShares) : ParticipationShares :=
  shares.totalRebateShare + (shares.participationShares.keys.map shares.ownShares).sum

/-- No share is negative. -/
structure FrameShares.Nonneg (shares : FrameShares) : Prop where
  rebate : 0 ≤ shares.totalRebateShare
  participation : ∀ noId index share,
    ((shares.participationShares.get? noId).getD Dict.empty).get? index = some share → 0 ≤ share

/-- Rewards that are split: every operator with shares gets its part, rounded down, and no other gets any. -/
structure Splits (shares : FrameShares) (rewardsToDistribute : ℤ) (rewardsMap : Dict NodeOperatorId ℤ) : Prop where
  participating : ∀ noId, 0 < shares.ownShares noId → rewardsMap.get? noId =
    some ⌊((rewardsToDistribute * shares.ownShares noId : ℤ) : ℚ) / shares.totalShares⌋
  others : ∀ noId, ¬0 < shares.ownShares noId → noId ∉ rewardsMap
  nonneg : ∀ noId rewards, rewardsMap.get? noId = some rewards → 0 ≤ rewards
  sum_le : rewardsMap.values.sum ≤ rewardsToDistribute

section Split

variable {shares : FrameShares}

theorem FrameShares.Nonneg.ownShares_nonneg (h : shares.Nonneg) (noId : NodeOperatorId) : 0 ≤ shares.ownShares noId := by
  refine List.sum_nonneg fun share hshare => ?_
  obtain ⟨entry, hentry, rfl⟩ := List.mem_map.mp hshare
  exact h.participation noId entry.1 entry.2 (Dict.get?_eq_some_iff.mpr hentry)

theorem ownShares_of_mem_entries {operator : NodeOperatorId × Dict ValidatorIndex ParticipationShares}
    (h : operator ∈ shares.participationShares.entries) : operator.2.values.sum = shares.ownShares operator.1 := by
  have hget : shares.participationShares.get? operator.1 = some operator.2 := Dict.get?_eq_some_iff.mpr h
  rw [FrameShares.ownShares, hget]
  rfl

/-- The operators with shares are kept, in their order, and all shares are summed up. -/
theorem foldl_addOperatorShares {operators : List (NodeOperatorId × Dict ValidatorIndex ParticipationShares)}
    (hnodup : (operators.map Prod.fst).Nodup) (acc : Dict NodeOperatorId ParticipationShares × ParticipationShares)
    (hnew : ∀ operator ∈ operators, operator.1 ∉ acc.1) :
    (operators.foldl addOperatorShares acc).1.entries = acc.1.entries ++
        (operators.map fun operator => (operator.1, operator.2.values.sum)).filter (fun operator => operator.2 ≠ 0) ∧
      (operators.foldl addOperatorShares acc).2 = acc.2 + (operators.map fun operator => operator.2.values.sum).sum := by
  induction operators generalizing acc with
  | nil => exact ⟨(List.append_nil _).symm, (add_zero _).symm⟩
  | cons operator operators ih =>
    rw [List.map_cons, List.nodup_cons] at hnodup
    rw [List.forall_mem_cons] at hnew
    rw [List.foldl_cons, List.map_cons, List.map_cons, List.sum_cons, List.filter_cons]
    by_cases hzero : operator.2.values.sum = 0
    · have hstep : addOperatorShares acc operator = acc := if_pos hzero
      rw [hstep, hzero, zero_add]
      exact ih hnodup.2 _ hnew.2
    · have hstep : addOperatorShares acc operator =
          (acc.1.set operator.1 operator.2.values.sum, acc.2 + operator.2.values.sum) := if_neg hzero
      have hfresh : ∀ other ∈ operators, other.1 ∉ (addOperatorShares acc operator).1 := by
        intro other hother hmem
        rw [hstep] at hmem
        rcases Dict.mem_set.mp hmem with heq | hmem
        · exact hnodup.1 (heq ▸ List.mem_map_of_mem hother)
        · exact hnew.2 other hother hmem
      obtain ⟨hentries, hsum⟩ := ih hnodup.2 _ hfresh
      rw [hentries, hsum, hstep, Dict.entries_set_of_not_mem hnew.1, List.append_assoc, add_assoc]
      simp [hzero]

/-- The parts of the operators that are left in the split -/
theorem foldlM_floorDiv {rewardsToDistribute totalShares : ℤ} {perNodeOperator : Dict NodeOperatorId ParticipationShares}
    (htotal : ∀ operator ∈ perNodeOperator.entries, totalShares ≠ 0) :
    perNodeOperator.entries.foldlM (fun rewardsDistribution operator => (do
        let rewards ← Py.floorDiv (rewardsToDistribute * operator.2) totalShares
        return rewardsDistribution.set operator.1 rewards : Distributing (Dict NodeOperatorId ℤ))) Dict.empty =
      .ok (perNodeOperator.mapKV fun _ => ProRata.part rewardsToDistribute totalShares) := by
  rw [← Dict.ofList_mapKV, Dict.ofList, List.foldl_map]
  refine @ExceptRun.foldlM_of_ok _ _ _ _ _ id _ _ (fun operator hoperator rewardsDistribution => ?_) Dict.empty
  have hpart : (Py.floorDiv (rewardsToDistribute * operator.2) totalShares : Distributing ℤ) =
      .ok (ProRata.part rewardsToDistribute totalShares operator.2) :=
    Py.floorDiv_eq_ok.mpr ⟨htotal operator hoperator, rfl⟩
  rw [hpart]
  rfl

/-- What is collected of the operators before anything is divided -/
theorem operatorShares_spec (h : shares.Nonneg) :
    ∃ perNodeOperator participationSum,
      shares.participationShares.entries.foldl addOperatorShares (Dict.empty, 0) = (perNodeOperator, participationSum) ∧
      (∀ noId own, (noId, own) ∈ perNodeOperator.entries ↔ own = shares.ownShares noId ∧ 0 < own) ∧
      perNodeOperator.values.sum = participationSum ∧
      shares.totalRebateShare + participationSum = shares.totalShares := by
  obtain ⟨hentries, hsum⟩ := foldl_addOperatorShares shares.participationShares.nodupKeys
    (Dict.empty, 0) fun _ _ hmem => List.not_mem_nil hmem
  have hown : (shares.participationShares.entries.map fun operator => operator.2.values.sum) =
      shares.participationShares.keys.map shares.ownShares := by
    rw [Dict.keys, List.map_map]
    exact List.map_congr_left fun operator hoperator => ownShares_of_mem_entries hoperator
  refine ⟨_, _, rfl, fun noId own => ?_, ?_, ?_⟩
  · rw [hentries]
    simp only [Dict.empty, List.nil_append, List.mem_filter, List.mem_map, Prod.mk.injEq, decide_eq_true_eq]
    constructor
    · rintro ⟨⟨operator, hoperator, rfl, rfl⟩, hne⟩
      have heq := ownShares_of_mem_entries hoperator
      rw [heq] at hne ⊢
      exact ⟨rfl, lt_of_le_of_ne (h.ownShares_nonneg _) hne.symm⟩
    · rintro ⟨rfl, hpos⟩
      refine ⟨?_, hpos.ne'⟩
      cases hget : shares.participationShares.get? noId with
      | none =>
        rw [FrameShares.ownShares, hget] at hpos
        exact absurd hpos (lt_irrefl 0)
      | some validators =>
        have hmem := Dict.get?_eq_some_iff.mp hget
        exact ⟨(noId, validators), hmem, rfl, ownShares_of_mem_entries hmem⟩
  · rw [Dict.values, hentries, hsum, zero_add]
    refine (Dict.sum_filter_ne_zero _).trans ?_
    rw [List.map_map]
    rfl
  · rw [hsum, hown, zero_add]
    rfl

/-- Without negative shares the split of what is there succeeds. -/
theorem calcRewardsDistributionInFrame_ok (h : shares.Nonneg) {rewardsToDistribute : ℤ} (hrewards : 0 ≤ rewardsToDistribute) :
    ∃ rewardsMap, calcRewardsDistributionInFrame shares.participationShares shares.totalRebateShare
        rewardsToDistribute = .ok rewardsMap ∧ Splits shares rewardsToDistribute rewardsMap := by
  obtain ⟨perNodeOperator, participationSum, hper, hmem, hvalues, htotal⟩ := operatorShares_spec h
  have hnonneg : ∀ own ∈ perNodeOperator.values, 0 < own := by
    intro own hown
    obtain ⟨entry, hentry, rfl⟩ := List.mem_map.mp hown
    exact ((hmem entry.1 entry.2).mp hentry).2
  have hle : perNodeOperator.values.sum ≤ shares.totalShares := by
    rw [← htotal, hvalues]
    exact le_add_of_nonneg_left h.rebate
  have hpos : ∀ own ∈ perNodeOperator.values, 0 < shares.totalShares := fun own hown =>
    (hnonneg own hown).trans_le
      ((List.single_le_sum (fun x hx => (hnonneg x hx).le) own hown).trans hle)
  have hget : ∀ noId, perNodeOperator.get? noId =
      if 0 < shares.ownShares noId then some (shares.ownShares noId) else none := by
    intro noId
    split_ifs with hown
    · exact Dict.get?_eq_some_iff.mpr ((hmem _ _).mpr ⟨rfl, hown⟩)
    · rw [Dict.get?_eq_none_iff]
      rintro hno
      obtain ⟨own, hno⟩ := Dict.mem_iff_exists_get?.mp hno
      obtain ⟨rfl, hpos⟩ := (hmem _ _).mp (Dict.get?_eq_some_iff.mp hno)
      exact hown hpos
  have hparts : (perNodeOperator.mapKV fun _ => ProRata.part rewardsToDistribute shares.totalShares).values =
      perNodeOperator.values.map (ProRata.part rewardsToDistribute shares.totalShares) := by
    rw [Dict.values_mapKV, Dict.values, List.map_map]
    rfl
  have hsum : (perNodeOperator.mapKV fun _ => ProRata.part rewardsToDistribute shares.totalShares).values.sum ≤
      rewardsToDistribute := by
    rw [hparts]
    cases hlist : perNodeOperator.values with
    | nil => exact hrewards
    | cons own rest =>
      rw [← hlist]
      exact ProRata.sum_part_le hrewards (hpos own (hlist ▸ List.mem_cons_self)) hle
  refine ⟨perNodeOperator.mapKV fun _ => ProRata.part rewardsToDistribute shares.totalShares, ?_, ?_, ?_, ?_, hsum⟩
  · unfold calcRewardsDistributionInFrame
    rw [if_neg (not_lt.mpr hrewards), hper]
    dsimp only
    rw [htotal, foldlM_floorDiv fun operator hoperator => (hpos _ (List.mem_map_of_mem hoperator)).ne', Except.ok_bind,
      if_neg (not_lt.mpr hsum)]
    rfl
  · intro noId hown
    have hin : shares.ownShares noId ∈ perNodeOperator.values :=
      List.mem_map_of_mem (f := Prod.snd) ((hmem noId _).mpr ⟨rfl, hown⟩)
    rw [Dict.get?_mapKV, hget, if_pos hown, ← ProRata.part_eq_floor _ _ (hpos _ hin)]
    rfl
  · intro noId hown
    rw [← Dict.get?_eq_none_iff, Dict.get?_mapKV, hget, if_neg hown]
    rfl
  · intro noId rewards hrewardsAt
    rw [Dict.get?_mapKV, hget] at hrewardsAt
    split_ifs at hrewardsAt with hown
    · have hin : shares.ownShares noId ∈ perNodeOperator.values :=
        List.mem_map_of_mem (f := Prod.snd) ((hmem noId _).mpr ⟨rfl, hown⟩)
      cases hrewardsAt
      exact ProRata.part_nonneg hrewards (hpos _ hin) hown.le
    · cases hrewardsAt

end Split

/-! What a frame can raise -/

/-- The errors that say that shares were lost or made up -/
def conservationErrors : List DistributionError :=
  [.negativeRebateShare, .negativeRewardsToDistribute, .distributedAboveRewards, .distributedAboveTotal, .nothingDistributed,
    .inconsistentData]

/-- Every error but those -/
def Tolerated (errors : List DistributionError) (e : PyError DistributionError) : Prop := ∀ error ∈ errors, e ≠ .raised error

theorem tolerated_raised {errors : List DistributionError} {error : DistributionError} (h : error ∉ errors) :
    Tolerated errors (.raised error) :=
  fun _ hother heq => h (PyError.raised.inj heq ▸ hother)

/-- The reward shares of a curve are shares of one. -/
def SharesOfOne (curveParams : CurveParams) : Prop :=
  ∀ interval ∈ curveParams.rewardShareData, interval.value ≤ TOTAL_BASIS_POINTS

/-- The counts of attestations are so small that a count for every balance increment of a validator is a double. -/
def FewAttestations (state : State) : Prop :=
  ∀ frame data, state.data.get? frame = some data → ∀ index duty, data.attestations.get? index = some duty →
    duty.assigned < 2 ^ 42

section Validators

open ExceptRun

variable {errors : List DistributionError}

theorem getFor_ensures (herrors : errors ⊆ conservationErrors) {intervals : KeyNumberValueIntervalList} {keyNumber : ℕ} :
    Ensures (Tolerated errors)
      (fun value => ∃ interval ∈ intervals, value = double ((interval.value : ℚ) / TOTAL_BASIS_POINTS))
      (getFor intervals keyNumber) := by
  unfold getFor
  split_ifs with hkey
  · exact tolerated_raised fun hmem => absurd (herrors hmem) (by decide)
  · split
    · rename_i interval hfind
      exact ⟨interval, Sorted.mem_sortedBy.mp (List.mem_of_find?_eq_some hfind), rfl⟩
    · exact tolerated_raised fun hmem => absurd (herrors hmem) (by decide)

theorem getFor_rewardShare (herrors : errors ⊆ conservationErrors) {curveParams : CurveParams}
    (hcurve : .negativeRebateShare ∈ errors → SharesOfOne curveParams) {keyNumber : ℕ} :
    Ensures (Tolerated errors) (fun share => 0 ≤ share ∧ (.negativeRebateShare ∈ errors → share ≤ 1))
      (getFor curveParams.rewardShareData keyNumber) := by
  refine (getFor_ensures herrors).imp fun share hshare => ?_
  obtain ⟨interval, hinterval, rfl⟩ := hshare
  have hpos : (0 : ℚ) < TOTAL_BASIS_POINTS := Nat.cast_pos.mpr (by decide)
  have hnonneg : 0 ≤ (interval.value : ℚ) / TOTAL_BASIS_POINTS := div_nonneg (Nat.cast_nonneg _) hpos.le
  refine ⟨double_nonneg hnonneg, fun hmem => ?_⟩
  have hle : (interval.value : ℚ) ≤ TOTAL_BASIS_POINTS := Nat.cast_le.mpr (hcurve hmem interval hinterval)
  have hone : (interval.value : ℚ) / TOTAL_BASIS_POINTS ≤ (1 : ℕ) := by
    rw [Nat.cast_one]
    exact (div_le_one hpos).mpr hle
  exact (double_le (by decide) hnonneg hone).trans_eq Nat.cast_one

theorem calcPerformance_ensures (herrors : errors ⊆ conservationErrors) (coeffs : PerformanceCoefficients)
    (duties : ValidatorDuties) : Ensures (Tolerated errors) (fun _ => True) (coeffs.calcPerformance duties) := by
  have hdivision : ∀ a b : ℚ, Ensures (Tolerated errors) (fun _ => True) (Py.trueDiv a b : Distributing ℚ) := by
    intro a b
    unfold Py.trueDiv
    split_ifs
    · exact fun _ _ h => by cases h
    · trivial
  exact (hdivision _ _).bind fun _ _ =>
    Ensures.guard (fun _ => tolerated_raised fun hmem => absurd (herrors hmem) (by decide)) fun _ => trivial

/-- A validator has at most 2048 balance increments. -/
theorem assignedAtt_lt {assigned : ℕ} (h : assigned < 2 ^ 42) (validator : LidoValidator) :
    assigned * (max MIN_ACTIVATION_BALANCE validator.validator.effectiveBalance / EFFECTIVE_BALANCE_INCREMENT) < 2 ^ 53 := by
  have hbalance : max MIN_ACTIVATION_BALANCE validator.validator.effectiveBalance ≤ MAX_EFFECTIVE_BALANCE_ELECTRA := by
    refine max_le (by decide) (validator.validator.effectiveBalance_le.trans ?_)
    unfold maxEffectiveBalanceOf
    split_ifs
    · exact le_rfl
    · decide
  have hmultiplier : max MIN_ACTIVATION_BALANCE validator.validator.effectiveBalance / EFFECTIVE_BALANCE_INCREMENT ≤ 2 ^ 11 :=
    (Nat.div_le_div_right hbalance).trans (by decide)
  calc assigned * _ ≤ assigned * 2 ^ 11 := Nat.mul_le_mul_left _ hmultiplier
    _ < 2 ^ 42 * 2 ^ 11 := Nat.mul_lt_mul_of_pos_right h (by decide)
    _ = 2 ^ 53 := by decide

/-- The participation share of a number of attestations is no more than that number. -/
theorem ceil_double_le {assignedAtt : ℕ} (hlt : assignedAtt < 2 ^ 53) {rewardShare : ℚ} (hshare : 0 ≤ rewardShare)
    (hone : rewardShare ≤ 1) : ⌈double (double assignedAtt * rewardShare)⌉ ≤ (assignedAtt : ℤ) := by
  have hnonneg : (0 : ℚ) ≤ (assignedAtt : ℚ) := Nat.cast_nonneg _
  have hdouble : double (assignedAtt : ℚ) ≤ assignedAtt := double_le hlt hnonneg le_rfl
  have hproduct : double (assignedAtt : ℚ) * rewardShare ≤ assignedAtt :=
    (mul_le_of_le_one_right (double_nonneg hnonneg) hone).trans hdouble
  exact Int.ceil_le.mpr (double_le hlt (mul_nonneg (double_nonneg hnonneg) hshare) hproduct)

/-- The rest of what a validator attested goes to the rebate. -/
theorem getValidatorDutiesOutcome_ensures (herrors : errors ⊆ conservationErrors) (validator : LidoValidator)
    (duties : ValidatorDuties) (threshold : ℚ) (perfCoeffs : PerformanceCoefficients) {rewardShare : ℚ}
    (hshare : 0 ≤ rewardShare ∧ (.negativeRebateShare ∈ errors → rewardShare ≤ 1))
    (hfew : .negativeRebateShare ∈ errors → ∀ attestation, duties.attestation = some attestation →
      attestation.assigned < 2 ^ 42) :
    Ensures (Tolerated errors) (fun outcome => 0 ≤ outcome.participationShare ∧ 0 ≤ outcome.rebateShare)
      (getValidatorDutiesOutcome validator duties threshold rewardShare perfCoeffs) := by
  have hzero : ∀ strikes : ℕ, (0 : ℤ) ≤ (ValidatorDutiesOutcome.mk 0 0 strikes).participationShare ∧
      (0 : ℤ) ≤ (ValidatorDutiesOutcome.mk 0 0 strikes).rebateShare := fun _ => ⟨le_rfl, le_rfl⟩
  unfold getValidatorDutiesOutcome
  cases hattestation : duties.attestation with
  | none => exact hzero 0
  | some attestation =>
    dsimp only
    by_cases hassigned : attestation.assigned = 0
    · rw [if_pos hassigned]
      exact hzero 0
    rw [if_neg hassigned]
    by_cases hslashed : validator.validator.slashed
    · rw [if_pos hslashed]
      exact hzero _
    rw [if_neg hslashed]
    refine (calcPerformance_ensures herrors perfCoeffs duties).bind fun performance _ => ?_
    by_cases hperformance : performance ≥ threshold
    · rw [if_pos hperformance]
      set assignedAtt := attestation.assigned *
        (max MIN_ACTIVATION_BALANCE validator.validator.effectiveBalance / EFFECTIVE_BALANCE_INCREMENT)
      have hparticipation : 0 ≤ ⌈double (double (assignedAtt : ℚ) * rewardShare)⌉ :=
        Int.ceil_nonneg (double_nonneg (mul_nonneg (double_nonneg (Nat.cast_nonneg _)) hshare.1))
      refine Ensures.guard (fun hneg => tolerated_raised fun hmem => ?_) fun hrebate => ⟨hparticipation, not_lt.mp hrebate⟩
      have hlt : assignedAtt < 2 ^ 53 := assignedAtt_lt (hfew hmem attestation hattestation) validator
      exact absurd (sub_nonneg.mpr (ceil_double_le hlt hshare.1 (hshare.2 hmem))) (not_le.mpr hneg)
    · rw [if_neg hperformance]
      exact hzero 1

theorem hexStrToBytes_ensures (text : HexStr) :
    Ensures (Tolerated errors) (fun _ => True) (hexStrToBytes text : Distributing HexBytes) :=
  ensures_iff.mpr ⟨fun _ _ => trivial, fun e he error _ heq => by
    have hvalue := Py.fromHex_eq_error he
    rw [heq] at hvalue
    cases hvalue⟩

theorem frameData_ensures (herrors : errors ⊆ conservationErrors) (state : State) (frame : Frame) :
    Ensures (Tolerated errors) (fun data => state.data.get? frame = some data) (state.frameData frame) := by
  unfold State.frameData
  split
  · assumption
  · exact tolerated_raised fun hmem => absurd (herrors hmem) (by decide)

theorem getDutyNetworkAggr_ensures (herrors : errors ⊆ conservationErrors) (duties : Dict ValidatorIndex DutyAccumulator) :
    Ensures (Tolerated errors) (fun _ => True) (State.getDutyNetworkAggr duties) := by
  refine ensures_foldlM (fun _ _ => True) (fun duty _ aggr _ => ?_) trivial
  unfold State.aggregateDuty
  split_ifs
  · exact tolerated_raised fun hmem => absurd (herrors hmem) (by decide)
  · trivial

theorem getNetworkPerformance_ensures (herrors : errors ⊆ conservationErrors) (state : State) (frame : Frame) :
    Ensures (Tolerated errors) (fun _ => True) (getNetworkPerformance state frame) := by
  have haggr : ∀ duties : NetworkDuties → Dict ValidatorIndex DutyAccumulator, Ensures (Tolerated errors) (fun _ => True)
      (state.frameData frame >>= fun frameData => State.getDutyNetworkAggr (duties frameData)) := fun duties =>
    (frameData_ensures herrors state frame).bind fun _ _ => getDutyNetworkAggr_ensures herrors _
  exact (haggr (·.attestations)).bind fun _ _ => (haggr (·.proposals)).bind fun _ _ =>
    (haggr (·.syncs)).bind fun _ _ => calcPerformance_ensures herrors _ _

/-- One validator adds no negative shares. -/
theorem addValidator_ensures (herrors : errors ⊆ conservationErrors) {state : State}
    (hfew : .negativeRebateShare ∈ errors → FewAttestations state) (frame : Frame) (networkPerf : ℚ)
    (noId : NodeOperatorId) {curveParams : CurveParams} (hcurve : .negativeRebateShare ∈ errors → SharesOfOne curveParams)
    {shares : FrameShares} (h : shares.Nonneg) (numbered : LidoValidator × ℕ) : Ensures (Tolerated errors)
      FrameShares.Nonneg (addValidator state frame networkPerf noId curveParams shares numbered) := by
  have hduties : Ensures (Tolerated errors) (fun duties => .negativeRebateShare ∈ errors → ∀ attestation,
      duties.attestation = some attestation → attestation.assigned < 2 ^ 42)
      (state.getValidatorDuties frame numbered.1.index) :=
    (frameData_ensures herrors state frame).bind fun data hdata hmem attestation hattestation =>
      hfew hmem frame data hdata _ attestation hattestation
  refine (getFor_ensures herrors).bind fun leeway _ => (getFor_rewardShare herrors hcurve).bind fun share hshare =>
    hduties.bind fun duties hduty =>
      (getValidatorDutiesOutcome_ensures herrors _ _ _ _ hshare hduty).bind fun outcome houtcome => ?_
  have hnonneg : ∀ strikes, FrameShares.Nonneg ⟨shares.totalRebateShare + outcome.rebateShare,
      shares.participationShares.setIn noId numbered.1.index outcome.participationShare, strikes⟩ := by
    refine fun strikes => ⟨add_nonneg h.rebate houtcome.2, fun id index share hget => ?_⟩
    rw [Dict.getD_setIn] at hget
    split_ifs at hget with hid
    · rw [Dict.get?_set] at hget
      split_ifs at hget with hindex
      · exact Option.some.inj hget ▸ houtcome.1
      · exact h.participation id index share hget
    · exact h.participation id index share hget
  by_cases hstrikes : outcome.strikes ≠ 0
  · have hset : Ensures (Tolerated errors) (fun _ => True) (do
        let pubkey ← hexStrToBytes numbered.1.validator.pubkey
        return shares.frameStrikes.set (noId, pubkey) outcome.strikes : Distributing (Dict StrikesValidator ℕ)) :=
      (hexStrToBytes_ensures _).bind fun _ _ => trivial
    rw [if_pos hstrikes]
    exact hset.bind fun strikes _ => hnonneg strikes
  · rw [if_neg hstrikes]
    exact hnonneg _

theorem addOperator_ensures (herrors : errors ⊆ conservationErrors) {state : State}
    (hfew : .negativeRebateShare ∈ errors → FewAttestations state) (frame : Frame) (networkPerf : ℚ)
    (getCurveParams : NodeOperatorId → CurveParams) {shares : FrameShares} (h : shares.Nonneg)
    {operator : NodeOperatorId × List LidoValidator}
    (hcurve : .negativeRebateShare ∈ errors → SharesOfOne (getCurveParams operator.1)) : Ensures (Tolerated errors)
      FrameShares.Nonneg (addOperator state frame networkPerf getCurveParams shares operator) := by
  have hactive : Ensures (Tolerated errors) (fun _ => True) (Py.filterM (isActiveInFrame state frame) operator.2) := by
    refine ensures_iff.mpr ⟨fun _ _ => trivial, fun e he error herror heq => ?_⟩
    refine Py.filterM_avoids (fun validator hraised => ?_) operator.2 (heq ▸ he)
    rcases Except.bind_eq_error.mp hraised with hraised | ⟨_, _, hraised⟩
    · cases (Py.getItem_eq_error.mp hraised).2
    · cases hraised
  refine hactive.bind fun activeValidators _ => ?_
  split_ifs
  · exact h
  · exact ensures_foldlM (fun _ => FrameShares.Nonneg)
      (fun numbered _ _ hshares =>
        addValidator_ensures herrors hfew frame networkPerf operator.1 hcurve hshares numbered) h

theorem frameShares_ensures (herrors : errors ⊆ conservationErrors) {state : State}
    (hfew : .negativeRebateShare ∈ errors → FewAttestations state) (frame : Frame) {view : FrameView}
    (hcurve : .negativeRebateShare ∈ errors → ∀ noId ∈ view.moduleValidators, SharesOfOne (view.getCurveParams noId)) :
    Ensures (Tolerated errors) FrameShares.Nonneg (frameShares state frame view) := by
  refine (getNetworkPerformance_ensures herrors state frame).bind fun networkPerf _ => ?_
  have hstart : FrameShares.start.Nonneg := ⟨le_rfl, fun _ _ _ hget => by cases hget⟩
  refine (ensures_foldlM (fun rest shares => (∀ operator ∈ rest, .negativeRebateShare ∈ errors →
    SharesOfOne (view.getCurveParams operator.1)) ∧ shares.Nonneg) (fun operator rest shares hshares => ?_)
    ⟨fun operator hoperator => ?_, hstart⟩).imp fun _ h => h.2
  · rw [List.forall_mem_cons] at hshares
    exact (addOperator_ensures herrors hfew frame networkPerf _ hshares.2 hshares.1.1).imp fun _ h => ⟨hshares.1.2, h⟩
  · exact fun hmem => hcurve hmem operator.1 (Dict.mem_of_mem_entries hoperator)

/-- A split that is not negative succeeds. -/
theorem calcRewardsDistributionInFrame_ensures {shares : FrameShares} (h : shares.Nonneg) {rewardsToDistribute : ℤ}
    (hrewards : .negativeRewardsToDistribute ∈ errors → 0 ≤ rewardsToDistribute) :
    Ensures (Tolerated errors) (Splits shares rewardsToDistribute) (calcRewardsDistributionInFrame
      shares.participationShares shares.totalRebateShare rewardsToDistribute) := by
  rcases lt_or_ge rewardsToDistribute 0 with hneg | hnonneg
  · unfold calcRewardsDistributionInFrame
    rw [if_pos hneg]
    exact tolerated_raised fun hmem => absurd (hrewards hmem) (not_le.mpr hneg)
  · obtain ⟨rewardsMap, hok, hsplits⟩ := calcRewardsDistributionInFrame_ok h hnonneg
    rw [hok]
    exact hsplits

end Validators

/-! The strikes raise nothing of their own. -/

section Strikes

open ExceptRun

variable {errors : List DistributionError}

theorem getItem_ensures {κ ν : Type} [DecidableEq κ] (d : Dict κ ν) (k : κ) :
    Ensures (Tolerated errors) (fun _ => True) (Py.getItem d k : Distributing ν) :=
  ensures_iff.mpr ⟨fun _ _ => trivial, fun e he error _ heq => by
    have hkey := (Py.getItem_eq_error.mp he).2
    rw [heq] at hkey
    cases hkey⟩

theorem callItem_ensures (store : StrikesStore) (merged : ℕ) (key : StrikesValidator) (f : StrikesList → StrikesList) :
    Ensures (Tolerated errors) (fun _ => True) (store.callItem merged key f : Distributing StrikesStore) :=
  (getItem_ensures _ _).bind fun _ _ => trivial

theorem processStrikes_ensures (store : StrikesStore) (acc : ℕ) (frame : StrikesFrame) :
    Ensures (Tolerated errors) (fun _ => True) (processStrikes store acc frame) := by
  have hpush : ∀ merged store key, Ensures (Tolerated errors) (fun _ => True) (pushStrikes merged frame.strikesInFrame store key) :=
    fun merged store key => (getItem_ensures _ _).bind fun _ _ => callItem_ensures _ _ _ _
  have hshift : ∀ merged store key, Ensures (Tolerated errors) (fun _ => True) (shiftStrikes merged frame store key) := by
    intro merged store key
    have hsentinel : Ensures (Tolerated errors) (fun _ => True) (if key ∉ frame.strikesInFrame then
        store.callItem merged key (StrikesList.push StrikesList.SENTINEL) else pure store : Distributing StrikesStore) := by
      by_cases hin : key ∉ frame.strikesInFrame
      · rw [if_pos hin]
        exact callItem_ensures _ _ _ _
      · rw [if_neg hin]
        trivial
    have hread : ∀ store : StrikesStore,
        Ensures (Tolerated errors) (fun _ => True) (store.readItem merged key : Distributing StrikesList) := fun store =>
      (getItem_ensures _ _).bind fun _ _ => trivial
    exact hsentinel.bind fun _ _ => (callItem_ensures _ _ _ _).bind fun _ _ => (hread _).bind fun _ _ => trivial
  exact (ensures_foldlM (fun _ _ => True) (fun _ _ _ _ => hpush _ _ _) trivial).bind fun _ _ =>
    (ensures_foldlM (fun _ _ => True) (fun _ _ _ _ => hshift _ _ _) trivial).bind fun _ _ => trivial

end Strikes

/-! The budget over the frames -/

section Budget

open ExceptRun

variable {errors : List DistributionError} {state : State} {view : Frame → FrameView}

/-- Where the loop stands: every share that was given out is in the map. -/
structure Progress.Accounted (progress : Progress) : Prop where
  soFar : progress.distributedSoFar = progress.totalRewards + progress.totalRebate
  map : progress.totalRewardsMap.values.sum = progress.totalRewards
  nonneg : ∀ noId, 0 ≤ progress.totalRewardsMap.totalAt noId

/-- Before the frames `rest` nothing is left to pay for twice. -/
structure Progress.Conserves (view : Frame → FrameView) (rest : List Frame) (progress : Progress) : Prop
    extends progress.Accounted where
  budget : ∀ frame ∈ rest, progress.distributedSoFar ≤ (view frame).sharesToDistribute
  ordered : (rest.map fun frame => (view frame).sharesToDistribute).Pairwise (· ≤ ·)

theorem accounted_start (lastStrikes : Dict StrikesValidator StrikesList) : (Progress.start lastStrikes).Accounted where
  soFar := rfl
  map := rfl
  nonneg := fun _ => le_rfl

theorem conserves_start {frames : List Frame} (hordered : (frames.map fun frame => (view frame).sharesToDistribute).Pairwise (· ≤ ·))
    (lastStrikes : Dict StrikesValidator StrikesList) : (Progress.start lastStrikes).Conserves view frames where
  toAccounted := accounted_start lastStrikes
  budget := fun _ _ => Nat.cast_nonneg _
  ordered := hordered

/-- The rewards and the rebate of a frame are what was there to distribute. -/
theorem calculateDistributionInFrame_ensures (herrors : errors ⊆ conservationErrors)
    (hfew : .negativeRebateShare ∈ errors → FewAttestations state) {frame : Frame} {view : FrameView}
    {rewardsToDistribute : ℤ}
    (hcurve : .negativeRebateShare ∈ errors → ∀ noId ∈ view.moduleValidators, SharesOfOne (view.getCurveParams noId))
    (hrewards : .negativeRewardsToDistribute ∈ errors → 0 ≤ rewardsToDistribute) :
    Ensures (Tolerated errors) (fun inFrame : FrameRewards =>
      inFrame.distributedRewards + inFrame.rebateToProtocol = rewardsToDistribute ∧
      inFrame.rewardsMap.values.sum = inFrame.distributedRewards ∧ ∀ noId, 0 ≤ inFrame.rewardsMap.totalAt noId)
      (calculateDistributionInFrame state frame view rewardsToDistribute) := by
  refine (frameShares_ensures herrors hfew frame hcurve).bind fun shares hshares =>
    (calcRewardsDistributionInFrame_ensures hshares hrewards).bind fun rewardsMap hsplits => ?_
  refine ⟨add_sub_cancel _ _, rfl, fun noId => ?_⟩
  cases hget : rewardsMap.get? noId with
  | none =>
    rw [Dict.totalAt, hget]
    exact le_rfl
  | some rewards =>
    rw [Dict.totalAt, hget]
    exact hsplits.nonneg noId rewards hget

/-- One frame uses up its budget, no more and no less. -/
theorem addFrame_ensures (herrors : errors ⊆ conservationErrors)
    (hfew : .negativeRebateShare ∈ errors → FewAttestations state) {progress : Progress} {frame : Frame}
    (hcurve : .negativeRebateShare ∈ errors →
      ∀ noId ∈ (view frame).moduleValidators, SharesOfOne ((view frame).getCurveParams noId))
    (hbudget : .negativeRewardsToDistribute ∈ errors → progress.distributedSoFar ≤ (view frame).sharesToDistribute)
    (h : progress.Accounted) :
    Ensures (Tolerated errors) (fun next : Progress => next.Accounted ∧ next.distributedSoFar = (view frame).sharesToDistribute)
      (addFrame state view progress frame) := by
  refine (calculateDistributionInFrame_ensures herrors hfew hcurve fun hmem => sub_nonneg.mpr (hbudget hmem)).bind
    fun inFrame hinFrame => (processStrikes_ensures _ _ _).bind fun strikes _ => ?_
  have htotal : progress.totalRewards + inFrame.distributedRewards + (progress.totalRebate + inFrame.rebateToProtocol) =
      (view frame).sharesToDistribute := by
    have hsoFar := h.soFar
    have hframe := hinFrame.1
    rw [hsoFar] at hframe
    rw [add_add_add_comm, hframe]
    exact add_sub_cancel _ _
  have hvalid : Ensures (Tolerated errors) (fun _ => True) (validateDistribution
      (progress.totalRewards + inFrame.distributedRewards) (progress.totalRebate + inFrame.rebateToProtocol)
      (view frame).sharesToDistribute) := by
    refine Ensures.guard (fun habove => absurd htotal habove.ne') fun _ => ?_
    split_ifs with hnothing
    · rw [hnothing.2.1, hnothing.2.2] at htotal
      exact absurd htotal.symm hnothing.1
    · trivial
  refine hvalid.bind fun _ _ => ⟨⟨rfl, ?_, fun noId => ?_⟩, htotal⟩
  · rw [Dict.sum_values_addAll, h.map]
    exact congrArg _ hinFrame.2.1
  · rw [Dict.totalAt_addAll, Dict.amountAt_entries]
    exact add_nonneg (h.nonneg noId) (hinFrame.2.2 noId)

theorem addFrame_conserves (hfew : FewAttestations state) {progress : Progress} {frame : Frame} {rest : List Frame}
    (hcurve : ∀ noId ∈ (view frame).moduleValidators, SharesOfOne ((view frame).getCurveParams noId))
    (h : progress.Conserves view (frame :: rest)) :
    Ensures (Tolerated conservationErrors) (fun next : Progress => next.Conserves view rest ∧
        next.totalRewards + next.totalRebate = (view frame).sharesToDistribute) (addFrame state view progress frame) := by
  have hordered : _ ∧ _ := List.pairwise_cons.mp h.ordered
  refine (addFrame_ensures (List.Subset.refl _) (fun _ => hfew) (fun _ => hcurve)
    (fun _ => h.budget frame List.mem_cons_self) h.toAccounted).imp fun next hnext => ⟨⟨hnext.1, fun later hlater => ?_,
      hordered.2⟩, hnext.1.soFar.symm.trans hnext.2⟩
  rw [hnext.2]
  exact Nat.cast_le.mpr (hordered.1 _ (List.mem_map_of_mem hlater))

/-- The frames of a report, from wherever the loop stands -/
theorem foldlM_addFrame_conserves (hfew : FewAttestations state) {progress : Progress} {frames rest : List Frame}
    (hcurve : ∀ frame ∈ frames, ∀ noId ∈ (view frame).moduleValidators, SharesOfOne ((view frame).getCurveParams noId))
    (h : progress.Conserves view (frames ++ rest)) : Ensures (Tolerated conservationErrors) (Progress.Conserves view rest)
      (frames.foldlM (addFrame state view) progress) := by
  refine (ensures_foldlM (fun frames progress => progress.Conserves view (frames ++ rest) ∧
    ∀ frame ∈ frames, ∀ noId ∈ (view frame).moduleValidators, SharesOfOne ((view frame).getCurveParams noId))
    (fun frame frames progress hprogress => ?_) ⟨h, hcurve⟩).imp fun _ hprogress => hprogress.1
  rw [List.forall_mem_cons] at hprogress
  exact (addFrame_conserves hfew hprogress.2.1 hprogress.1).imp fun _ hnext => ⟨hnext.1, hprogress.2.2⟩

end Budget

/-- Fetching the trees of the last report raises no error of a distribution. -/
structure FetchesApart (services : Services) (lastReport : LastReport) : Prop where
  strikes : ∀ error, lastReport.strikes services.strikes ≠ .error (.raised (.distribution error))
  rewards : ∀ error, lastReport.rewards services.rewards ≠ .error (.raised (.distribution error))

section Whole

open ExceptRun

variable {services : Services} {state : State} {view : Frame → FrameView} {lastReport : LastReport}

/-- What the loop over the frames leaves -/
theorem calculate_eq_ok_iff {result : Progress} :
    calculate services state view lastReport = .ok result ↔
      ∃ lastStrikes progress leaves, lastReport.strikes services.strikes = .ok lastStrikes ∧
        state.frames.foldlM (addFrame state view) (Progress.start lastStrikes) = .ok progress ∧
        progress.totalRewards = progress.totalRewardsMap.values.sum ∧
        lastReport.rewards services.rewards = .ok leaves ∧
        result = { progress with
          totalRewardsMap := progress.totalRewardsMap.addAll (leaves.map fun leaf => (leaf.1, (leaf.2 : ℤ))) } := by
  unfold calculate
  constructor
  · intro h
    obtain ⟨lastStrikes, hstrikes, h⟩ := Except.bind_eq_ok.mp h
    obtain ⟨progress, hprogress, h⟩ := Except.bind_eq_ok.mp h
    obtain ⟨hsum, h⟩ := Except.guard_eq_ok.mp h
    obtain ⟨leaves, hleaves, h⟩ := Except.bind_eq_ok.mp h
    exact ⟨lastStrikes, progress, leaves, hstrikes, Py.lift_eq_ok.mp hprogress, not_not.mp hsum, hleaves,
      (Except.ok.inj h).symm⟩
  · rintro ⟨lastStrikes, progress, leaves, hstrikes, hprogress, hsum, hleaves, rfl⟩
    rw [hstrikes, Except.ok_bind, Py.lift_eq_ok.mpr hprogress, Except.ok_bind, if_neg (not_not.mpr hsum), hleaves]
    rfl

/-- Whatever the validators did, nothing is lost or made up between the shares that come in and the map of a
report: no frame fails on its amounts, every operator gets its part rounded down, rewards and rebate always use up
what the contract had, and no operator falls behind the last report. -/
theorem calculate_conserves
    (hcurve : ∀ frame ∈ state.frames, ∀ noId ∈ (view frame).moduleValidators, SharesOfOne ((view frame).getCurveParams noId))
    (hfew : FewAttestations state)
    (hordered : (state.frames.map fun frame => (view frame).sharesToDistribute).Pairwise (· ≤ ·))
    (hfetch : FetchesApart services lastReport) :
    (∀ error ∈ conservationErrors, calculate services state view lastReport ≠ .error (.raised (.distribution error))) ∧
    (∀ lastStrikes before frame later progress, state.frames = before ++ frame :: later →
      before.foldlM (addFrame state view) (Progress.start lastStrikes) = .ok progress →
      (∀ shares, frameShares state frame (view frame) = .ok shares →
        ∃ rewardsMap, calcRewardsDistributionInFrame shares.participationShares shares.totalRebateShare
            ((view frame).sharesToDistribute - progress.distributedSoFar) = .ok rewardsMap ∧
          Splits shares ((view frame).sharesToDistribute - progress.distributedSoFar) rewardsMap) ∧
      ∀ next, addFrame state view progress frame = .ok next →
        next.totalRewards + next.totalRebate = (view frame).sharesToDistribute) ∧
    ∀ result, calculate services state view lastReport = .ok result →
      ∃ leaves, lastReport.rewards services.rewards = .ok leaves ∧
        result.totalRewardsMap.values.sum = result.totalRewards + (leaves.map fun leaf => (leaf.2 : ℤ)).sum ∧
        ∀ leaf ∈ leaves, leaf.2 ≤ result.totalRewardsMap.totalAt leaf.1 := by
  have hrun : ∀ lastStrikes before rest, state.frames = before ++ rest → Ensures (Tolerated conservationErrors)
      (Progress.Conserves view rest) (before.foldlM (addFrame state view) (Progress.start lastStrikes)) := by
    intro lastStrikes before rest hframes
    refine foldlM_addFrame_conserves hfew (fun frame hframe => hcurve frame ?_) (conserves_start (hframes ▸ hordered) _)
    rw [hframes]
    exact List.mem_append_left _ hframe
  refine ⟨fun error herror hcalculate => ?_, ?_, fun result hresult => ?_⟩
  · rcases Except.bind_eq_error.mp hcalculate with hstrikes | ⟨lastStrikes, -, hcalculate⟩
    · exact hfetch.strikes error hstrikes
    have hframes := hrun lastStrikes state.frames [] (List.append_nil _).symm
    rcases Except.bind_eq_error.mp hcalculate with hloop | ⟨progress, hprogress, hcalculate⟩
    · obtain ⟨e, he, hmap⟩ := Py.lift_eq_error.mp hloop
      cases e with
      | raised raised =>
        cases hmap
        exact hframes.of_error he error herror rfl
      | _ => cases hmap
    have hprogress := hframes.of_ok (Py.lift_eq_ok.mp hprogress)
    rcases Except.guard_eq_error.mp hcalculate with ⟨hsum, -⟩ | ⟨-, hcalculate⟩
    · exact hsum hprogress.map.symm
    rcases Except.bind_eq_error.mp hcalculate with hrewards | ⟨leaves, -, hcalculate⟩
    · exact hfetch.rewards error hrewards
    · cases hcalculate
  · intro lastStrikes before frame later progress hframes hprogress
    have hconserves := (hrun lastStrikes before (frame :: later) hframes).of_ok hprogress
    have hmem : frame ∈ state.frames := hframes ▸ List.mem_append_right _ List.mem_cons_self
    refine ⟨fun shares hshares => ?_, fun next hnext => ?_⟩
    · have hnonneg : shares.Nonneg := (frameShares_ensures (List.Subset.refl _) (fun _ => hfew) frame
        (fun _ => hcurve frame hmem)).of_ok hshares
      exact calcRewardsDistributionInFrame_ok hnonneg (sub_nonneg.mpr (hconserves.budget frame List.mem_cons_self))
    · exact ((addFrame_conserves hfew (hcurve frame hmem) hconserves).of_ok hnext).2
  · obtain ⟨lastStrikes, progress, leaves, -, hprogress, hsum, hleaves, rfl⟩ := calculate_eq_ok_iff.mp hresult
    have hconserves := (hrun lastStrikes state.frames [] (List.append_nil _).symm).of_ok hprogress
    refine ⟨leaves, hleaves, ?_, fun leaf hleaf => ?_⟩
    · rw [Dict.sum_values_addAll, hsum, List.map_map]
      rfl
    · dsimp only
      rw [Dict.totalAt_addAll]
      refine le_add_of_nonneg_of_le (hconserves.nonneg _) ?_
      have hleaves : ∀ amount ∈ leaves.map fun leaf => (leaf.1, (leaf.2 : ℤ)), 0 ≤ amount.2 :=
        List.forall_mem_map.mpr fun _ _ => Nat.cast_nonneg _
      exact Dict.le_amountAt hleaves (List.mem_map_of_mem (f := fun leaf : RewardsTreeLeaf => (leaf.1, (leaf.2 : ℤ))) hleaf)

/-! Two frames, and two operators of one validator each; the second one gets 85% of its rewards. -/

def sampleValidator (index : ValidatorIndex) : LidoValidator where
  index := index
  balance := MIN_ACTIVATION_BALANCE
  validator := {
    pubkey := "0x0a"
    withdrawalCredentials := "0x01"
    effectiveBalance := MIN_ACTIVATION_BALANCE
    slashed := false
    activationEligibilityEpoch := 0
    activationEpoch := 0
    exitEpoch := FAR_FUTURE_EPOCH
    withdrawableEpoch := FAR_FUTURE_EPOCH
    effectiveBalance_le := le_refl _ }
  lidoId := ⟨0, "0x0a", 3, "0xc"⟩
  pendingTopups := []
  consolidatingAsSource := none
  consolidatingAsTarget := []

def sampleDuties : NetworkDuties := ⟨Dict.ofList [(1, ⟨10, 9⟩), (2, ⟨10, 9⟩)], Dict.empty, Dict.empty⟩

def sampleState : State := ⟨Dict.ofList [((0, 0), sampleDuties), ((1, 1), sampleDuties)]⟩

def sampleView (frame : Frame) : FrameView where
  sharesToDistribute := if frame.1 = 0 then 100 else 150
  moduleValidators := Dict.ofList [(3, [sampleValidator 1]), (5, [sampleValidator 2])]
  getCurveParams noId := {
    perfCoeffs := defaultCoefficients
    perfLeewayData := [⟨1, 500⟩]
    rewardShareData := [⟨1, if noId = 3 then 10000 else 8500⟩]
    strikesParams := ⟨6, 3⟩ }

def sampleLastReport : LastReport := ⟨1, [1], ZERO_HASH, some "QmOne", none⟩

theorem sampleView_curves (frame : Frame) (noId : NodeOperatorId) : SharesOfOne ((sampleView frame).getCurveParams noId) := by
  intro interval hinterval
  rw [List.mem_singleton.mp hinterval]
  dsimp only
  split_ifs <;> decide

theorem sampleState_few : FewAttestations sampleState := by
  intro frame data hdata index duty hduty
  have hframe : (frame, data) ∈ [((0, 0), sampleDuties), ((1, 1), sampleDuties)] := Dict.get?_eq_some_iff.mp hdata
  have hsame : data = sampleDuties := by
    simp only [List.mem_cons, Prod.mk.injEq, List.not_mem_nil, or_false] at hframe
    rcases hframe with ⟨-, hframe⟩ | ⟨-, hframe⟩ <;> exact hframe
  rw [hsame] at hduty
  have hentry : (index, duty) ∈ [(1, (⟨10, 9⟩ : DutyAccumulator)), (2, ⟨10, 9⟩)] := Dict.get?_eq_some_iff.mp hduty
  simp only [List.mem_cons, Prod.mk.injEq, List.not_mem_nil, or_false] at hentry
  rcases hentry with ⟨-, rfl⟩ | ⟨-, rfl⟩ <;> decide

theorem sampleLastReport_apart : FetchesApart sampleServices sampleLastReport where
  strikes _ h := by
    have hstrikes : sampleLastReport.strikes sampleServices.strikes = .ok Dict.empty := rfl
    rw [hstrikes] at h
    cases h
  rewards _ h := by
    have hrewards : sampleLastReport.rewards sampleServices.rewards = .ok [(3, 7), (MAX_OPERATORS_COUNT, 0)] := rfl
    rw [hrewards] at h
    cases h

theorem sample_calculated : ∃ result, calculate sampleServices sampleState sampleView sampleLastReport = .ok result ∧
    result.totalRewards = 138 ∧ result.totalRebate = 12 := by
  have htotals : (calculate sampleServices sampleState sampleView sampleLastReport).toOption.map
      (fun result => (result.totalRewards, result.totalRebate)) = some (138, 12) := by decide +kernel
  cases hresult : calculate sampleServices sampleState sampleView sampleLastReport with
  | error error =>
    rw [hresult] at htotals
    cases htotals
  | ok result =>
    rw [hresult] at htotals
    obtain ⟨hrewards, hrebate⟩ := Prod.mk.inj (Option.some.inj htotals)
    exact ⟨result, rfl, hrewards, hrebate⟩

theorem calculate_conserves_sample :
    ∃ result, calculate sampleServices sampleState sampleView sampleLastReport = .ok result ∧
      result.totalRewardsMap.values.sum = 138 + 7 ∧ 7 ≤ result.totalRewardsMap.totalAt 3 := by
  obtain ⟨result, hresult, hrewards, -⟩ := sample_calculated
  obtain ⟨-, -, hleaves⟩ := calculate_conserves (fun frame _ noId _ => sampleView_curves frame noId) sampleState_few
    (by decide : (sampleState.frames.map fun frame => (sampleView frame).sharesToDistribute).Pairwise (· ≤ ·))
    sampleLastReport_apart
  obtain ⟨leaves, hread, hsum, hbehind⟩ := hleaves result hresult
  have hrewardsLeaves : leaves = [(3, 7), (MAX_OPERATORS_COUNT, 0)] := (Except.ok.inj hread).symm
  subst hrewardsLeaves
  rw [hrewards] at hsum
  exact ⟨result, hresult, hsum, hbehind (3, 7) List.mem_cons_self⟩

end Whole

/-! The tree's view of the same frames: amounts that are natural numbers -/

section Tree

open ExceptRun

variable {services : Services} {state : State} {view : Frame → FrameView} {lastReport : LastReport}

/-- What is known of a result needs no errors to be left out. -/
theorem noErrors {error : DistributionError} {p : Prop} (h : error ∈ ([] : List DistributionError)) : p :=
  absurd h List.not_mem_nil

/-- A frame as the rewards tree counts it -/
def FrameRewards.toDistribution (inFrame : FrameRewards) (sharesToDistribute : ℕ) : FrameDistribution where
  totalRewardsToDistribute := sharesToDistribute
  rewardsMap := inFrame.rewardsMap.mapKV fun _ => Int.toNat
  distributedRewards := inFrame.distributedRewards.toNat
  rebateToProtocol := inFrame.rebateToProtocol

def castHom : ℕ →+ ℤ := Nat.castAddMonoidHom ℤ

structure Progress.Simulates (progress : Progress) (result : DistributionResult) : Prop where
  rewards : progress.totalRewards = result.totalRewards
  rebate : progress.totalRebate = result.totalRebate
  map : progress.totalRewardsMap = result.totalRewardsMap.mapKV fun _ => castHom

/-- A map without negative values is one of natural numbers. -/
theorem mapKV_toNat {rewardsMap : Dict NodeOperatorId ℤ} (h : ∀ noId, 0 ≤ rewardsMap.totalAt noId) :
    (rewardsMap.mapKV fun _ => Int.toNat).mapKV (fun _ => castHom) = rewardsMap := by
  rw [Dict.mapKV_mapKV]
  refine Dict.mapKV_id fun noId rewards hentry => ?_
  have hvalue := h noId
  rw [Dict.totalAt_of_mem_entries hentry] at hvalue
  exact Int.toNat_of_nonneg hvalue

/-- What the tree is told of a frame -/
structure Reports (state : State) (view : Frame → FrameView) (frame : Frame) (distribution : FrameDistribution) : Prop where
  total : distribution.totalRewardsToDistribute = (view frame).sharesToDistribute
  split : ∃ shares rewardsToDistribute, frameShares state frame (view frame) = .ok shares ∧
    Splits shares rewardsToDistribute (distribution.rewardsMap.mapKV fun _ => castHom) ∧
    distribution.distributedRewards + distribution.rebateToProtocol = rewardsToDistribute

theorem addFrame_simulates {progress next : Progress} {frame : Frame} (h : addFrame state view progress frame = .ok next) :
    ∃ distribution, Reports state view frame distribution ∧ ∀ result, progress.Simulates result →
      ∃ result', result.addFrame distribution = .ok result' ∧ next.Simulates result' := by
  obtain ⟨inFrame, hinFrame, h⟩ := Except.bind_eq_ok.mp h
  obtain ⟨strikes, -, h⟩ := Except.bind_eq_ok.mp h
  obtain ⟨hunit, hvalid, h⟩ := Except.bind_eq_ok.mp h
  obtain ⟨htotal, hmap, hnonneg⟩ := (calculateDistributionInFrame_ensures (List.nil_subset _) noErrors noErrors
    noErrors).of_ok hinFrame
  have hcast : (inFrame.rewardsMap.mapKV fun _ => Int.toNat).mapKV (fun _ => castHom) = inFrame.rewardsMap :=
    mapKV_toNat hnonneg
  have hrewards : (inFrame.distributedRewards.toNat : ℤ) = inFrame.distributedRewards := by
    refine Int.toNat_of_nonneg ?_
    rw [← hmap, Dict.sum_values_eq inFrame.rewardsMap.keys_nodup fun _ hmem => hmem]
    exact List.sum_nonneg (List.forall_mem_map.mpr fun noId _ => hnonneg noId)
  refine ⟨inFrame.toDistribution (view frame).sharesToDistribute, ⟨rfl, ?_⟩, fun result hsimulates => ?_⟩
  · obtain ⟨shares, hshares, hsplit⟩ := Except.bind_eq_ok.mp hinFrame
    have hsharesNonneg := (frameShares_ensures (List.nil_subset _) noErrors frame noErrors).of_ok hshares
    obtain ⟨rewardsMap, hrewardsMap, hframe⟩ := Except.bind_eq_ok.mp hsplit
    have hsplits := (calcRewardsDistributionInFrame_ensures hsharesNonneg noErrors).of_ok hrewardsMap
    have hframeMap : inFrame.rewardsMap = rewardsMap := by
      cases hframe
      rfl
    refine ⟨shares, (view frame).sharesToDistribute - progress.distributedSoFar, hshares, ?_, ?_⟩
    · rw [FrameRewards.toDistribution, hcast, hframeMap]
      exact hsplits
    · rw [FrameRewards.toDistribution, hrewards]
      exact htotal
  · have htotalRewards : ((result.totalRewards + inFrame.distributedRewards.toNat : ℕ) : ℤ) =
        progress.totalRewards + inFrame.distributedRewards := by
      rw [Nat.cast_add, hrewards, hsimulates.rewards]
    have hguard : validateDistribution ((result.totalRewards + inFrame.distributedRewards.toNat : ℕ) : ℤ)
        (result.totalRebate + inFrame.rebateToProtocol) ((view frame).sharesToDistribute : ℤ) = .ok hunit := by
      rw [htotalRewards, ← hsimulates.rebate]
      exact hvalid
    have hentries : ((inFrame.rewardsMap.mapKV fun _ => Int.toNat).entries.map fun a => (a.1, castHom a.2)) =
        inFrame.rewardsMap.entries := congrArg Dict.entries hcast
    refine ⟨{ result with
      totalRewards := result.totalRewards + inFrame.distributedRewards.toNat
      totalRebate := result.totalRebate + inFrame.rebateToProtocol
      totalRewardsMap := result.totalRewardsMap.addAll (inFrame.rewardsMap.mapKV fun _ => Int.toNat).entries }, ?_, ?_⟩
    · unfold DistributionResult.addFrame FrameRewards.toDistribution
      dsimp only
      rw [hguard]
      rfl
    · cases h
      refine ⟨htotalRewards.symm, congrArg (· + inFrame.rebateToProtocol) hsimulates.rebate, ?_⟩
      dsimp only
      rw [Dict.mapKV_addAll, hentries, hsimulates.map]

/-- The frames one after the other -/
theorem foldlM_simulates {frames : List Frame} {progress last : Progress} (h : frames.foldlM (addFrame state view) progress = .ok last) :
    ∃ distributions, List.Forall₂ (Reports state view) frames distributions ∧ ∀ result, progress.Simulates result →
      ∃ result', distributions.foldlM DistributionResult.addFrame result = .ok result' ∧ last.Simulates result' := by
  induction frames generalizing progress with
  | nil =>
    cases h
    exact ⟨[], List.Forall₂.nil, fun result hsimulates => ⟨result, rfl, hsimulates⟩⟩
  | cons frame frames ih =>
    obtain ⟨next, hnext, h⟩ := foldlM_cons_ok.mp h
    obtain ⟨distribution, hreports, hstep⟩ := addFrame_simulates hnext
    obtain ⟨distributions, hall, hrest⟩ := ih h
    refine ⟨distribution :: distributions, List.Forall₂.cons hreports hall, fun result hsimulates => ?_⟩
    obtain ⟨result₁, hresult₁, hsimulates₁⟩ := hstep result hsimulates
    obtain ⟨result', hresult', hlast⟩ := hrest result₁ hsimulates₁
    exact ⟨result', foldlM_cons_ok.mpr ⟨result₁, hresult₁, hresult'⟩, hlast⟩

/-- The distribution that the tree of a report is made from is the one its frames were split into. -/
theorem calculate_simulates {result : Progress}
    (h : calculate services state view lastReport = .ok result) :
    ∃ distributions, List.Forall₂ (Reports state view) state.frames distributions ∧
      ∀ input : ReportInput, input.frames = distributions →
        ∃ distribution, StakingModules.calculate services input lastReport = .ok distribution ∧
          result.Simulates distribution := by
  obtain ⟨lastStrikes, progress, leaves, hlastStrikes, hprogress, hsum, hleaves, rfl⟩ := calculate_eq_ok_iff.mp h
  obtain ⟨distributions, hreports, hfold⟩ := foldlM_simulates hprogress
  refine ⟨distributions, hreports, fun input hinput => ?_⟩
  obtain ⟨split, hsplit, hlast⟩ := hfold ⟨0, 0, Dict.empty, input.processStrikes lastStrikes⟩ ⟨rfl, rfl, rfl⟩
  have hvalues : progress.totalRewardsMap.values.sum = (split.totalRewardsMap.values.sum : ℕ) := by
    rw [hlast.map, Dict.values_mapKV, ← Nat.coe_castAddMonoidHom, map_list_sum, Dict.values, List.map_map]
    rfl
  have hcheck : split.totalRewards = split.totalRewardsMap.values.sum := by
    rw [hlast.rewards, hvalues] at hsum
    exact Nat.cast_injective hsum
  refine ⟨{ split with totalRewardsMap := split.totalRewardsMap.addAll leaves }, ?_, hlast.rewards, hlast.rebate, ?_⟩
  · unfold StakingModules.calculate
    rw [hlastStrikes, Except.ok_bind, hinput, hsplit]
    unfold Py.lift
    rw [Except.ok_bind, if_neg (not_not.mpr hcheck), hleaves]
    rfl
  · dsimp only
    rw [Dict.mapKV_addAll, ← hlast.map]
    rfl

/-- The sample's tree is made from two frames that give out 92 and 46 shares. -/
theorem calculate_simulates_sample :
    ∃ distributions, List.Forall₂ (Reports sampleState sampleView) sampleState.frames distributions ∧
      ∃ distribution, StakingModules.calculate sampleServices { sampleInput 3 7 with frames := distributions }
          sampleLastReport = .ok distribution ∧ distribution.totalRewards = 138 := by
  obtain ⟨result, hresult, hrewards, -⟩ := sample_calculated
  obtain ⟨distributions, hreports, hinput⟩ := calculate_simulates hresult
  obtain ⟨distribution, hdistribution, hsimulates⟩ := hinput { sampleInput 3 7 with frames := distributions } rfl
  refine ⟨distributions, hreports, distribution, hdistribution, ?_⟩
  have hcast := hsimulates.rewards
  rw [hrewards] at hcast
  exact Nat.cast_injective hcast.symm

end Tree

end Distribution

end StakingModules

end LidoOracle
