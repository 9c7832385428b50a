import LidoOracle.LidoValidators.Provider

/-! The consensus-layer balance that a report carries, before and after the head
of the pending queue is processed. Active validators are matched by pubkey
alone, pending deposits by the credentials of their first valid signature. -/

namespace LidoOracle

open Consensus

/-- Active and pending balance of one report -/
def reportedClBalance (rules : DepositRules) (view : BlockView) : Provide Gwei := do
  let clValidatorsBalance ← getClValidatorsBalance view
  let clPendingBalance ← getClPendingValidatorsBalance rules view
  return clValidatorsBalance + clPendingBalance

/-- The consensus layer processes the head of the queue. -/
def BlockView.processHead (rules : DepositRules) (view : BlockView) : BlockView :=
  match view.pendingDeposits with
  | [] => view
  | d :: rest => { view with
      validators := applyPendingDeposit rules.isValidDepositSignature view.validators d
      pendingDeposits := rest }

/-- The head creates a validator with foreign credentials for a used Lido key, and the queue
holds ETH for that key. -/
def BlockView.headIsFrontRun (rules : DepositRules) (view : BlockView) : Bool :=
  match view.pendingDeposits with
  | [] => false
  | d :: _ => decide (d.pubkey ∈ view.lidoKeys.map (·.key)) && (find view.validators d.pubkey).isNone &&
      rules.isValidDepositSignature d && decide (d.withdrawalCredentials ∉ rules.lidoWcList) &&
      decide (0 < amountOf (depositsOf view.pendingDeposits d.pubkey))

/-- What the report counts for one used key -/
def BlockView.ownedAt (rules : DepositRules) (view : BlockView) (pubkey : HexStr) : Gwei :=
  LidoOracle.ownedAt rules view.validators view.pendingDeposits pubkey

section Report

variable {rules : DepositRules} {view : BlockView}

theorem getClValidatorsBalance_eq_ok (h : (view.validators.map (·.validator.pubkey)).Nodup) {balance : Gwei} :
    getClValidatorsBalance view = .ok balance ↔
      view.Consistent ∧ (view.lidoKeys.map fun key => ((find view.validators key.key).map (·.balance)).getD 0).sum =
        balance := by
  have hsum : ∀ consolidations, (((computeLidoValidators view.lidoKeys view.validators).1.map
      (lidoValidatorOf (Dict.groupBy (·.pubkey) view.pendingDeposits) consolidations)).map (·.balance)).sum =
      (view.lidoKeys.map fun key => ((find view.validators key.key).map (·.balance)).getD 0).sum := by
    intro consolidations
    rw [List.map_map, ← sum_lidoValidators h (·.balance)]
    rfl
  unfold getClValidatorsBalance
  rw [Except.bind_eq_ok]
  constructor
  · intro ⟨lidoValidators, hactive, hbalance⟩
    obtain ⟨hconsistent, consolidations, rfl⟩ := getActiveLidoValidators_eq_ok hactive
    exact ⟨hconsistent, (hsum consolidations).symm.trans (Except.pure_eq_ok.mp hbalance)⟩
  · intro ⟨hconsistent, hbalance⟩
    obtain ⟨lidoValidators, hactive⟩ := getActiveLidoValidators_consistent hconsistent
    obtain ⟨-, consolidations, rfl⟩ := getActiveLidoValidators_eq_ok hactive
    exact ⟨_, hactive, Except.pure_eq_ok.mpr ((hsum consolidations).trans hbalance)⟩

theorem sum_topups (h : (view.validators.map (·.validator.pubkey)).Nodup) (consolidations : Consolidations) :
    (((computeLidoValidators view.lidoKeys view.validators).1.map
      (lidoValidatorOf (Dict.groupBy (·.pubkey) view.pendingDeposits) consolidations)).map
        fun v => amountOf v.pendingTopups).sum =
      (view.lidoKeys.map fun key => ((find view.validators key.key).map
        fun v => amountOf (depositsOf view.pendingDeposits v.validator.pubkey)).getD 0).sum := by
  rw [List.map_map, ← sum_lidoValidators h fun v => amountOf (depositsOf view.pendingDeposits v.validator.pubkey)]
  refine congrArg List.sum (List.map_congr_left fun v _ => ?_)
  exact congrArg amountOf (Dict.getD_groupBy _ _ _)

theorem getClPendingValidatorsBalance_eq_ok (h : (view.validators.map (·.validator.pubkey)).Nodup) {balance : Gwei} :
    getClPendingValidatorsBalance rules view = .ok balance ↔
      view.Consistent ∧ ((view.lidoKeys.filter fun key => (find view.validators key.key).isNone).map
          fun key => pendingAt rules view.pendingDeposits key.key).sum +
        (view.lidoKeys.map fun key => ((find view.validators key.key).map
          fun v => amountOf (depositsOf view.pendingDeposits v.validator.pubkey)).getD 0).sum = balance := by
  unfold getClPendingValidatorsBalance
  rw [Except.bind_eq_ok]
  constructor
  · intro ⟨pending, hpending, hrest⟩
    obtain ⟨lidoValidators, hactive, hbalance⟩ := Except.bind_eq_ok.mp hrest
    obtain ⟨hconsistent, consolidations, rfl⟩ := getActiveLidoValidators_eq_ok hactive
    obtain ⟨pending', hpending', hvalues⟩ := getPendingLidoValidators_values rules hconsistent
    rw [hpending, Except.ok.injEq] at hpending'
    rw [← hpending'] at hvalues
    rw [Except.pure_eq_ok, sum_topups h, hvalues] at hbalance
    exact ⟨hconsistent, hbalance⟩
  · intro ⟨hconsistent, hbalance⟩
    obtain ⟨pending, hpending, hvalues⟩ := getPendingLidoValidators_values rules hconsistent
    obtain ⟨lidoValidators, hactive⟩ := getActiveLidoValidators_consistent hconsistent
    obtain ⟨-, consolidations, rfl⟩ := getActiveLidoValidators_eq_ok hactive
    refine ⟨pending, hpending, Except.bind_eq_ok.mpr ⟨_, hactive, Except.pure_eq_ok.mpr ?_⟩⟩
    rw [sum_topups h, hvalues]
    exact hbalance

theorem reportedClBalance_eq_ok (h : (view.validators.map (·.validator.pubkey)).Nodup) {total : Gwei} :
    reportedClBalance rules view = .ok total ↔
      view.Consistent ∧ (view.lidoKeys.map fun key => view.ownedAt rules key.key).sum = total := by
  unfold reportedClBalance BlockView.ownedAt
  rw [← sum_ownedAt, Except.bind_eq_ok]
  constructor
  · intro ⟨validatorsBalance, hvalidators, hrest⟩
    obtain ⟨pendingBalance, hpending, htotal⟩ := Except.bind_eq_ok.mp hrest
    obtain ⟨hconsistent, rfl⟩ := (getClValidatorsBalance_eq_ok h).mp hvalidators
    obtain ⟨-, rfl⟩ := (getClPendingValidatorsBalance_eq_ok h).mp hpending
    exact ⟨hconsistent, Except.pure_eq_ok.mp htotal⟩
  · intro ⟨hconsistent, htotal⟩
    exact ⟨_, (getClValidatorsBalance_eq_ok h).mpr ⟨hconsistent, rfl⟩, Except.bind_eq_ok.mpr
      ⟨_, (getClPendingValidatorsBalance_eq_ok h).mpr ⟨hconsistent, rfl⟩, Except.pure_eq_ok.mpr htotal⟩⟩

end Report

section Head

variable {rules : DepositRules} {view : BlockView} {d : PendingDeposit} {rest : List PendingDeposit}

theorem processHead_cons (h : view.pendingDeposits = d :: rest) :
    view.processHead rules = { view with
      validators := applyPendingDeposit rules.isValidDepositSignature view.validators d
      pendingDeposits := rest } := by
  rw [BlockView.processHead, h]

theorem sum_ownedAt_processHead (hkeys : (view.lidoKeys.map (·.key)).Nodup) (h : view.pendingDeposits = d :: rest) :
    ((view.processHead rules).lidoKeys.map fun key => (view.processHead rules).ownedAt rules key.key).sum =
      (view.lidoKeys.map fun key => view.ownedAt rules key.key).sum +
        if d.pubkey ∈ view.lidoKeys.map (·.key) then headGain rules view.validators view.pendingDeposits d else 0 := by
  have hsum := Dict.sum_keys_add_single hkeys
    fun pubkey => @ownedAt_applyPendingDeposit rules view.validators d rest pubkey
  rw [List.map_map, List.map_map] at hsum
  rw [processHead_cons h, h]
  unfold BlockView.ownedAt
  rw [h]
  exact hsum

theorem processHead_consistent (h : view.Consistent) : (view.processHead rules).Consistent := by
  cases hqueue : view.pendingDeposits with
  | nil =>
    rw [BlockView.processHead, hqueue]
    exact h
  | cons d rest =>
    rw [processHead_cons hqueue]
    exact ⟨h.usedKeys, h.keysCount, fun c hc => indexes_applyPendingDeposit _ _ _ (h.sources c hc)⟩

theorem headIsFrontRun_cons (h : view.pendingDeposits = d :: rest) :
    view.headIsFrontRun rules = true ↔ d.pubkey ∈ view.lidoKeys.map (·.key) ∧
      ((find view.validators d.pubkey).isNone ∧ rules.isValidDepositSignature d = true ∧
        d.withdrawalCredentials ∉ rules.lidoWcList) ∧ 0 < amountOf (depositsOf view.pendingDeposits d.pubkey) := by
  rw [BlockView.headIsFrontRun, h]
  simp only [Bool.and_eq_true, decide_eq_true_eq, and_assoc]

/-- The reported balance survives the processing of the queue's head exactly when the head is not
a front run. -/
theorem reportedClBalance_processHead_iff (rules : DepositRules) (view : BlockView) (total : Gwei)
    (hvalidators : (view.validators.map (·.validator.pubkey)).Nodup) (hreport : reportedClBalance rules view = .ok total) :
    reportedClBalance rules (view.processHead rules) = .ok total ↔ view.headIsFrontRun rules = false := by
  obtain ⟨hconsistent, htotal⟩ := (reportedClBalance_eq_ok hvalidators).mp hreport
  cases hqueue : view.pendingDeposits with
  | nil =>
    rw [BlockView.processHead, BlockView.headIsFrontRun, hqueue]
    exact iff_of_true hreport rfl
  | cons d rest =>
    have hnodup : ((view.processHead rules).validators.map (·.validator.pubkey)).Nodup := by
      rw [processHead_cons hqueue]
      exact nodup_applyPendingDeposit hvalidators d
    have hsum := @sum_ownedAt_processHead rules view d rest (lidoKeys_nodup hconsistent) hqueue
    rw [reportedClBalance_eq_ok hnodup, and_iff_right (processHead_consistent hconsistent), hsum, htotal,
      add_eq_left]
    rw [← Bool.not_eq_true, headIsFrontRun_cons hqueue, headGain]
    split_ifs with hmem hfront
    · simp [hmem, hfront]
    · exact iff_of_true rfl fun h => hfront h.2.1
    · exact iff_of_true rfl fun h => hmem h.1

/-- One used key, without a validator, whose first deposit is front-run -/
def frontRunView : BlockView where
  usedKeys := [⟨⟨0, "0xaa", 0, "0x55"⟩, true⟩]
  depositedValidators := 1
  validators := []
  pendingDeposits := [⟨"0xaa", "0xff", 1000000000, "sig", 0⟩, ⟨"0xaa", "0x01", 32000000000, "sig", 0⟩]
  pendingConsolidations := []

def frontRunRules : DepositRules := ⟨fun _ => true, ["0x01"]⟩

/-- Nothing is reported while both deposits are pending, everything once the first is a validator. -/
theorem reportedClBalance_frontRun :
    reportedClBalance frontRunRules frontRunView = .ok 0 ∧
      reportedClBalance frontRunRules (frontRunView.processHead frontRunRules) = .ok 33000000000 := ⟨rfl, rfl⟩

theorem reportedClBalance_processHead_iff_frontRun :
    reportedClBalance frontRunRules (frontRunView.processHead frontRunRules) = .ok 0 ↔
      frontRunView.headIsFrontRun frontRunRules = false :=
  reportedClBalance_processHead_iff frontRunRules frontRunView 0 List.nodup_nil rfl

end Head

end LidoOracle
