import LidoOracle.Consensus.Web3Converter
import LidoOracle.Execution.Events
import LidoOracle.LidoValidators.Provider

/-! The intraframe rebase of the consensus layer, taken between two blocks of one
reporting frame. Deposits move from the queue to balances and sweeps from
balances to the vault; what is left of the difference are rewards and penalties. -/

namespace LidoOracle

open Consensus

namespace AbnormalClRebase

/-- Lido contract version that introduced `getBalanceStats` -/
def LIDO_V4 : ℕ := 4

structure BalanceStats where
  depositedSinceLastReport : ℕ
  depositedForCurrentReport : ℕ

def BalanceStats.depositedInFrame (stats : BalanceStats) : ℤ :=
  stats.depositedSinceLastReport - stats.depositedForCurrentReport

/-- An `ETHDistributed` log -/
structure EthDistributed where
  blockNumber : ℕ
  withdrawalsWithdrawn : ℕ
  deriving DecidableEq

/-- The chain after one block. The vault, the stats and the logs are in Wei. -/
structure ChainBlock where
  blockNumber : ℕ
  slotNumber : SlotNumber
  validators : List Validator
  pendingDeposits : List PendingDeposit
  withdrawalVaultBalance : ℕ
  balanceStats : BalanceStats
  ethDistributed : List EthDistributed

/-- What the check reads apart from the two blocks -/
structure Setting where
  lidoKeys : List LidoKey
  rules : DepositRules
  converter : Web3Converter
  /-- at the last report -/
  contractVersion : ℕ
  refSlot : SlotNumber

inductive RebaseError where
  | moreThanOneEthDistributed
  | prevSlotBeforeFrame (prevSlot : SlotNumber) (frameFirstSlot : ℤ) (refSlot : SlotNumber)
  | validatorsCountDiff
  deriving DecidableEq

abbrev Rebase := Py RebaseError

/-- Rounds down. -/
def weiToGwei (amount : ℤ) : ℤ := amount.fdiv GWEI_TO_WEI

def validatePrevSlotWithinRefFrame (s : Setting) (prevSlot : SlotNumber) : Rebase Unit := do
  let frameFirstSlot := s.converter.getFrameFirstSlot (s.converter.getFrameBySlot s.refSlot)
  if prevSlot < frameFirstSlot then
    throw (.raised (.prevSlotBeforeFrame prevSlot frameFirstSlot s.refSlot))

def calculateValidatorsBalanceSum (validators : List KeyedValidator) : Gwei := (validators.map (·.balance)).sum

def getLidoValidatorsBalanceWithVault (block : ChainBlock) (lidoValidators : List KeyedValidator) : ℤ :=
  calculateValidatorsBalanceSum lidoValidators + weiToGwei block.withdrawalVaultBalance

/-- The events of a closed range of blocks, however the range is cut into requests -/
def getEventsInRange (logs : List EthDistributed) (lBlock rBlock : ℕ) : Rebase (List EthDistributed) :=
  if rBlock < lBlock then .error .valueError
  else .ok (logs.filter fun e => lBlock ≤ e.blockNumber ∧ e.blockNumber ≤ rBlock)

/-- The requests to a node that has the logs find the same events. -/
theorem getEventsInRange_agrees {event : ContractEvent EthDistributed} (hnumber : event.blockNumber = (·.blockNumber))
    {logs : List EthDistributed} (hreturns : event.Returns logs) (eventsSearchStep lBlock rBlock : ℕ) :
    (∀ events, getEventsInRange logs lBlock rBlock = .ok events →
      ∃ found, event.getEventsInRange eventsSearchStep lBlock rBlock = .ok found ∧ found.Perm events) ∧
    ∀ error, getEventsInRange logs lBlock rBlock = .error error →
      error = .valueError ∧ event.getEventsInRange eventsSearchStep lBlock rBlock = .error .valueError := by
  unfold getEventsInRange
  by_cases hempty : rBlock < lBlock
  · refine ⟨fun events hok => by simp [hempty] at hok, fun error herror => ?_⟩
    rw [if_pos hempty] at herror
    exact ⟨(Except.error.inj herror).symm, by rw [ContractEvent.getEventsInRange, if_pos hempty]⟩
  · refine ⟨fun events hok => ?_, fun error herror => by simp [hempty] at herror⟩
    obtain ⟨found, hfound, hperm⟩ := ContractEvent.getEventsInRange_perm hreturns eventsSearchStep (not_lt.mp hempty)
    rw [if_neg hempty, Except.ok.injEq] at hok
    rw [hnumber] at hperm
    exact ⟨found, hfound, hok ▸ hperm⟩

/-- The logs of the previous block are in its vault balance already. -/
def getWithdrawnFromVaultBetweenBlocks (prev ref : ChainBlock) : Rebase ℤ := do
  let events ← getEventsInRange ref.ethDistributed (prev.blockNumber + 1) ref.blockNumber
  match events with
  | [] => return 0
  | [e] => return weiToGwei e.withdrawalsWithdrawn
  | _ => throw (.raised .moreThanOneEthDistributed)

def sumValidLidoPending (rules : DepositRules) (pendingDeposits : List PendingDeposit)
    (lidoPubkeys existingPubkeys : List HexStr) : Gwei :=
  let topups := pendingDeposits.filter fun d => d.pubkey ∈ existingPubkeys
  let valid := collectValidPendingDeposits rules pendingDeposits (lidoPubkeys.filter (· ∉ existingPubkeys))
  amountOf topups + (valid.values.map amountOf).sum

def calculateValidatorsCountDiffInGwei (prevValidators refValidators : List KeyedValidator) : Rebase ℤ :=
  if refValidators.length < prevValidators.length then .error (.raised .validatorsCountDiff)
  else .ok ((refValidators.length - prevValidators.length) * MIN_ACTIVATION_BALANCE)

/-- Before version 4 only new validators count, with 32 ETH each. -/
def calculateInjectedCapital (s : Setting) (prev ref : ChainBlock) (prevLidoValidators lidoValidators : List KeyedValidator) :
    Rebase ℤ := do
  if s.contractVersion < LIDO_V4 then
    calculateValidatorsCountDiffInGwei prevLidoValidators lidoValidators
  else
    validatePrevSlotWithinRefFrame s prev.slotNumber
    let lidoPubkeys := s.lidoKeys.map (·.key)
    let oldPending := sumValidLidoPending s.rules prev.pendingDeposits lidoPubkeys
      (prevLidoValidators.map (·.validator.pubkey))
    let depositedInWindow := weiToGwei (ref.balanceStats.depositedInFrame - prev.balanceStats.depositedInFrame)
    let currentPending := sumValidLidoPending s.rules ref.pendingDeposits lidoPubkeys
      (lidoValidators.map (·.validator.pubkey))
    return depositedInWindow + oldPending - currentPending

def calculateClRebaseBetweenBlocks (s : Setting) (prev ref : ChainBlock) : Rebase ℤ := do
  if prev.blockNumber = ref.blockNumber then return 0
  let prevLidoValidators := (computeLidoValidators s.lidoKeys prev.validators).1
  let lidoValidators := (computeLidoValidators s.lidoKeys ref.validators).1
  let rawClRebase := getLidoValidatorsBalanceWithVault ref lidoValidators -
    getLidoValidatorsBalanceWithVault prev prevLidoValidators
  let withdrawnFromVault ← getWithdrawnFromVaultBetweenBlocks prev ref
  let injectedCapital ← calculateInjectedCapital s prev ref prevLidoValidators lidoValidators
  return rawClRebase - injectedCapital + withdrawnFromVault

/-! What happens between the blocks -/

/-- Amounts are in Gwei. -/
inductive ChainEvent where
  /-- the Lido contract counts the deposit, the deposit contract queues it -/
  | deposit (d : PendingDeposit) (stats : BalanceStats)
  | processHead
  | reward (pubkey : HexStr) (amount : Gwei)
  | penalty (pubkey : HexStr) (amount : Gwei)
  /-- from a validator to the withdrawal vault -/
  | sweep (pubkey : HexStr) (amount : Gwei)
  | report (withdrawals : Gwei) (stats : BalanceStats)

def step (s : Setting) (block : ChainBlock) : ChainEvent → Option ChainBlock
  | .deposit d stats =>
    if d.pubkey ∈ s.lidoKeys.map (·.key) ∧
        ((d.withdrawalCredentials ∈ s.rules.lidoWcList ∧ s.rules.isValidDepositSignature d = true) ∨
          (find block.validators d.pubkey).isSome) ∧
        stats.depositedInFrame = block.balanceStats.depositedInFrame + d.amount * GWEI_TO_WEI then
      some { block with pendingDeposits := block.pendingDeposits ++ [d], balanceStats := stats }
    else none
  | .processHead =>
    match block.pendingDeposits with
    | [] => none
    | d :: rest => some { block with
        validators := applyPendingDeposit s.rules.isValidDepositSignature block.validators d
        pendingDeposits := rest }
  | .reward pubkey amount =>
    (find block.validators pubkey).map fun _ =>
      { block with validators := updateBalance block.validators pubkey (· + amount) }
  | .penalty pubkey amount =>
    (find block.validators pubkey).bind fun v =>
      if amount ≤ v.balance then some { block with validators := updateBalance block.validators pubkey (· - amount) }
      else none
  | .sweep pubkey amount =>
    (find block.validators pubkey).bind fun v =>
      if amount ≤ v.balance then some { block with
        validators := updateBalance block.validators pubkey (· - amount)
        withdrawalVaultBalance := block.withdrawalVaultBalance + amount * GWEI_TO_WEI }
      else none
  | .report withdrawals stats =>
    if withdrawals * GWEI_TO_WEI ≤ block.withdrawalVaultBalance ∧
        stats.depositedInFrame = block.balanceStats.depositedInFrame then
      some { block with
        withdrawalVaultBalance := block.withdrawalVaultBalance - withdrawals * GWEI_TO_WEI
        balanceStats := stats
        ethDistributed := block.ethDistributed ++ [⟨block.blockNumber, withdrawals * GWEI_TO_WEI⟩] }
    else none

/-- One more block -/
structure BlockBody where
  slotNumber : SlotNumber
  events : List ChainEvent

def nextBlock (s : Setting) (block : ChainBlock) (body : BlockBody) : Option ChainBlock :=
  body.events.foldlM (step s)
    { block with blockNumber := block.blockNumber + 1, slotNumber := body.slotNumber }

def run (s : Setting) (prev : ChainBlock) (bodies : List BlockBody) : Option ChainBlock :=
  bodies.foldlM (nextBlock s) prev

def eventsOf (bodies : List BlockBody) : List ChainEvent := bodies.flatMap (·.events)

/-- Rewards less penalties of the validators of Lido keys -/
def rewardOf (s : Setting) : ChainEvent → ℤ
  | .reward pubkey amount => if pubkey ∈ s.lidoKeys.map (·.key) then amount else 0
  | .penalty pubkey amount => if pubkey ∈ s.lidoKeys.map (·.key) then -amount else 0
  | _ => 0

/-- Sweeps of other validators whose credentials point at the vault -/
def foreignSweepOf (s : Setting) : ChainEvent → ℤ
  | .sweep pubkey amount => if pubkey ∈ s.lidoKeys.map (·.key) then 0 else amount
  | _ => 0

def isReport : ChainEvent → Bool
  | .report _ _ => true
  | _ => false

/-- No Lido key waits for a validator behind a valid deposit with foreign credentials. -/
def NoFrontRun (s : Setting) (block : ChainBlock) : Prop :=
  ∀ pubkey ∈ s.lidoKeys.map (·.key), find block.validators pubkey = none →
    ∀ d, (depositsOf block.pendingDeposits pubkey).find? s.rules.isValidDepositSignature = some d →
      d.withdrawalCredentials ∈ s.rules.lidoWcList

/-! One event -/

/-- What a block holds for the Lido keys, on balances and in the queue -/
def owned (s : Setting) (block : ChainBlock) : ℤ :=
  ((s.lidoKeys.map (·.key)).map fun pubkey =>
    (ownedAt s.rules block.validators block.pendingDeposits pubkey : ℤ)).sum

def depositOf : ChainEvent → ℤ
  | .deposit d _ => d.amount
  | _ => 0

def sweepOf : ChainEvent → ℤ
  | .sweep _ amount => amount
  | _ => 0

def withdrawalOf : ChainEvent → ℤ
  | .report withdrawals _ => withdrawals
  | _ => 0

def logsOf (blockNumber : ℕ) : ChainEvent → List EthDistributed
  | .report withdrawals _ => [⟨blockNumber, withdrawals * GWEI_TO_WEI⟩]
  | _ => []

/-- The invariant of a run -/
structure Sound (s : Setting) (block : ChainBlock) : Prop where
  pubkeys : (block.validators.map (·.validator.pubkey)).Nodup
  noFrontRun : NoFrontRun s block

/-- How far a list of events moves the four terms of the rebase -/
structure Moves (s : Setting) (block block' : ChainBlock) (events : List ChainEvent) : Prop where
  owned : owned s block' = owned s block + (events.map depositOf).sum + (events.map (rewardOf s)).sum +
    (events.map (foreignSweepOf s)).sum - (events.map sweepOf).sum
  vault : (block'.withdrawalVaultBalance : ℤ) = block.withdrawalVaultBalance +
    ((events.map sweepOf).sum - (events.map withdrawalOf).sum) * GWEI_TO_WEI
  stats : block'.balanceStats.depositedInFrame = block.balanceStats.depositedInFrame +
    (events.map depositOf).sum * GWEI_TO_WEI

section Step

variable {s : Setting} {block block' : ChainBlock}

theorem Moves.refl (s : Setting) (block : ChainBlock) : Moves s block block [] :=
  ⟨by simp, by simp, by simp⟩

theorem Moves.trans {block'' : ChainBlock} {events events' : List ChainEvent} (h : Moves s block block' events)
    (h' : Moves s block' block'' events') : Moves s block block'' (events ++ events') := by
  refine ⟨?_, ?_, ?_⟩
  · rw [h'.owned, h.owned]
    simp only [List.map_append, List.sum_append]
    ring
  · rw [h'.vault, h.vault]
    simp only [List.map_append, List.sum_append]
    ring
  · rw [h'.stats, h.stats]
    simp only [List.map_append, List.sum_append]
    ring

theorem owned_congr (hvalidators : block'.validators = block.validators)
    (hqueue : block'.pendingDeposits = block.pendingDeposits) : owned s block' = owned s block := by
  rw [owned, owned, hvalidators, hqueue]

theorem sound_congr (h : Sound s block) (hvalidators : block'.validators = block.validators)
    (hqueue : block'.pendingDeposits = block.pendingDeposits) : Sound s block' := by
  refine ⟨by rw [hvalidators]; exact h.pubkeys, ?_⟩
  unfold NoFrontRun
  rw [hvalidators, hqueue]
  exact h.noFrontRun

theorem owned_updateBalance (hkeys : (s.lidoKeys.map (·.key)).Nodup) {v : Validator} {pubkey : HexStr} {f : Gwei → Gwei}
    (h : find block.validators pubkey = some v) (hvalidators : block'.validators = updateBalance block.validators pubkey f)
    (hqueue : block'.pendingDeposits = block.pendingDeposits) :
    owned s block' = owned s block + if pubkey ∈ s.lidoKeys.map (·.key) then (f v.balance : ℤ) - v.balance else 0 := by
  unfold owned
  rw [hvalidators, hqueue]
  exact Dict.sum_keys_add_single hkeys fun k => ownedAt_updateBalance h f block.pendingDeposits k

theorem sound_updateBalance (h : Sound s block) {pubkey : HexStr} {f : Gwei → Gwei}
    (hvalidators : block'.validators = updateBalance block.validators pubkey f)
    (hqueue : block'.pendingDeposits = block.pendingDeposits) : Sound s block' := by
  refine ⟨by rw [hvalidators, pubkeys_updateBalance]; exact h.pubkeys, fun k hk hnone d hd => ?_⟩
  rw [hvalidators, find_eq_none_iff, pubkeys_updateBalance] at hnone
  rw [hqueue] at hd
  exact h.noFrontRun k hk (find_eq_none_iff.mpr hnone) d hd

/-- Under the invariant the head of the queue is never a front run of a Lido key. -/
theorem headGain_eq_zero (h : NoFrontRun s block) {d : PendingDeposit} {rest : List PendingDeposit}
    (hqueue : block.pendingDeposits = d :: rest) (hd : d.pubkey ∈ s.lidoKeys.map (·.key)) :
    headGain s.rules block.validators (d :: rest) d = 0 := by
  refine if_neg fun ⟨hnone, hvalid, hwc⟩ => hwc ?_
  refine h d.pubkey hd (Option.isNone_iff_eq_none.mp hnone) d ?_
  rw [hqueue, depositsOf_cons_self]
  exact List.find?_cons_of_pos hvalid

theorem deposit_moves (hkeys : (s.lidoKeys.map (·.key)).Nodup) (hsound : Sound s block) {d : PendingDeposit}
    {stats : BalanceStats} (h : step s block (.deposit d stats) = some block') :
    Moves s block block' [.deposit d stats] ∧ Sound s block' := by
  simp only [step] at h
  split_ifs at h with hguard
  cases h
  obtain ⟨hmem, hdeposit, hstats⟩ := hguard
  have hsnoc : ∀ k, (ownedAt s.rules block.validators (block.pendingDeposits ++ [d]) k : ℤ) =
      ownedAt s.rules block.validators block.pendingDeposits k + if k = d.pubkey then (d.amount : ℤ) else 0 := by
    intro k
    rw [ownedAt_snoc hdeposit (hsound.noFrontRun d.pubkey hmem)]
    push_cast
    rfl
  have hsum : owned s { block with pendingDeposits := block.pendingDeposits ++ [d], balanceStats := stats } =
      owned s block + d.amount :=
    (Dict.sum_keys_add_single hkeys hsnoc).trans (by rw [if_pos hmem]; rfl)
  refine ⟨⟨?_, ?_, ?_⟩, hsound.pubkeys, ?_⟩
  · rw [hsum]
    simp [depositOf, rewardOf, foreignSweepOf, sweepOf]
  · simp [sweepOf, withdrawalOf]
  · simpa [depositOf] using hstats
  · intro k hk hnone d' hd'
    have hqueue : depositsOf (block.pendingDeposits ++ [d]) k = depositsOf block.pendingDeposits k ++ depositsOf [d] k :=
      List.filter_append ..
    dsimp only at hd' hnone
    rw [hqueue, List.find?_append] at hd'
    cases hold : (depositsOf block.pendingDeposits k).find? s.rules.isValidDepositSignature with
    | some d'' =>
      rw [hold] at hd'
      exact hsound.noFrontRun k hk hnone d' (hold.trans hd')
    | none =>
      -- the new deposit is the first valid one of a key without a validator
      rw [hold, Option.none_or] at hd'
      obtain ⟨hmem', hkey⟩ := List.mem_filter.mp (List.mem_of_find?_eq_some hd')
      rw [List.mem_singleton] at hmem'
      rw [decide_eq_true_eq, hmem'] at hkey
      rw [hmem']
      refine (hdeposit.resolve_right fun hsome => ?_).1
      rw [hkey, hnone] at hsome
      cases hsome

theorem processHead_moves (hkeys : (s.lidoKeys.map (·.key)).Nodup) (hsound : Sound s block)
    (h : step s block .processHead = some block') : Moves s block block' [.processHead] ∧ Sound s block' := by
  simp only [step] at h
  cases hqueue : block.pendingDeposits with
  | nil => rw [hqueue] at h; cases h
  | cons d rest =>
    rw [hqueue] at h
    cases h
    have hhead : ∀ k, (ownedAt s.rules (applyPendingDeposit s.rules.isValidDepositSignature block.validators d) rest k : ℤ) =
        ownedAt s.rules block.validators block.pendingDeposits k +
          if k = d.pubkey then (headGain s.rules block.validators (d :: rest) d : ℤ) else 0 := by
      intro k
      rw [ownedAt_applyPendingDeposit, hqueue]
      push_cast
      rfl
    have hsum : owned s { block with
        validators := applyPendingDeposit s.rules.isValidDepositSignature block.validators d
        pendingDeposits := rest } = owned s block := by
      refine (Dict.sum_keys_add_single hkeys hhead).trans ?_
      split_ifs with hd
      · rw [headGain_eq_zero hsound.noFrontRun hqueue hd, Nat.cast_zero, add_zero]
        rfl
      · rw [add_zero]
        rfl
    refine ⟨⟨?_, ?_, ?_⟩, nodup_applyPendingDeposit hsound.pubkeys d, ?_⟩
    · rw [hsum]
      simp [depositOf, rewardOf, foreignSweepOf, sweepOf]
    · simp [sweepOf, withdrawalOf]
    · simp [depositOf]
    · intro k hk hnone d' hd'
      dsimp only at hd' hnone
      by_cases hkey : d.pubkey = k
      · subst hkey
        cases hfind : find block.validators d.pubkey with
        | some v =>
          rw [find_applyPendingDeposit_topUp hfind] at hnone
          cases hnone
        | none =>
          rw [find_applyPendingDeposit_new hfind] at hnone
          split_ifs at hnone with hvalid
          refine hsound.noFrontRun d.pubkey hk hfind d' ?_
          rw [hqueue, depositsOf_cons_self, List.find?_cons_of_neg hvalid]
          exact hd'
      · rw [find_applyPendingDeposit_of_ne hkey] at hnone
        refine hsound.noFrontRun k hk hnone d' ?_
        rw [hqueue, depositsOf_cons_of_ne hkey]
        exact hd'

/-- One event moves the terms of the rebase as it says and keeps the invariant. -/
theorem step_moves (hkeys : (s.lidoKeys.map (·.key)).Nodup) (hsound : Sound s block) {e : ChainEvent}
    (h : step s block e = some block') : Moves s block block' [e] ∧ Sound s block' := by
  cases e with
  | deposit d stats => exact deposit_moves hkeys hsound h
  | processHead => exact processHead_moves hkeys hsound h
  | reward pubkey amount =>
    obtain ⟨v, hfind, rfl⟩ := Option.map_eq_some_iff.mp h
    refine ⟨⟨?_, by simp [sweepOf, withdrawalOf], by simp [depositOf]⟩, sound_updateBalance hsound rfl rfl⟩
    refine Eq.trans (owned_updateBalance hkeys hfind rfl rfl) ?_
    simp [depositOf, rewardOf, foreignSweepOf, sweepOf]
  | penalty pubkey amount =>
    obtain ⟨v, hfind, h⟩ := Option.bind_eq_some_iff.mp h
    split_ifs at h with hle
    cases h
    refine ⟨⟨?_, by simp [sweepOf, withdrawalOf], by simp [depositOf]⟩, sound_updateBalance hsound rfl rfl⟩
    refine Eq.trans (owned_updateBalance hkeys hfind rfl rfl) ?_
    simp [depositOf, rewardOf, foreignSweepOf, sweepOf, Nat.cast_sub hle]
  | sweep pubkey amount =>
    obtain ⟨v, hfind, h⟩ := Option.bind_eq_some_iff.mp h
    split_ifs at h with hle
    cases h
    refine ⟨⟨?_, by simp [sweepOf, withdrawalOf], by simp [depositOf]⟩, sound_updateBalance hsound rfl rfl⟩
    refine Eq.trans (owned_updateBalance hkeys hfind rfl rfl) ?_
    -- the balance of a Lido validator gives what the vault takes, another balance does not count
    simp only [depositOf, rewardOf, foreignSweepOf, sweepOf, Nat.cast_sub hle, List.map_cons, List.map_nil,
      List.sum_cons, List.sum_nil]
    split_ifs <;> ring
  | report withdrawals stats =>
    simp only [step] at h
    split_ifs at h with hguard
    cases h
    obtain ⟨hvault, hstats⟩ := hguard
    refine ⟨⟨?_, ?_, ?_⟩, sound_congr hsound rfl rfl⟩
    · refine Eq.trans (@owned_congr s block _ rfl rfl) ?_
      simp only [depositOf, rewardOf, foreignSweepOf, sweepOf, List.map_cons, List.map_nil, List.sum_cons, List.sum_nil]
      ring
    · have hcast : ((block.withdrawalVaultBalance - withdrawals * GWEI_TO_WEI : ℕ) : ℤ) =
          block.withdrawalVaultBalance - withdrawals * GWEI_TO_WEI := by rw [Nat.cast_sub hvault, Nat.cast_mul]
      rw [hcast]
      simp only [sweepOf, withdrawalOf, List.map_cons, List.map_nil, List.sum_cons, List.sum_nil]
      ring
    · simpa [depositOf] using hstats

theorem step_logs {e : ChainEvent} (h : step s block e = some block') :
    block'.blockNumber = block.blockNumber ∧
      block'.ethDistributed = block.ethDistributed ++ logsOf block.blockNumber e := by
  cases e with
  | deposit d stats =>
    simp only [step] at h
    split_ifs at h
    cases h
    exact ⟨rfl, (List.append_nil _).symm⟩
  | processHead =>
    simp only [step] at h
    split at h
    · cases h
    · cases h
      exact ⟨rfl, (List.append_nil _).symm⟩
  | reward pubkey amount =>
    obtain ⟨v, -, rfl⟩ := Option.map_eq_some_iff.mp h
    exact ⟨rfl, (List.append_nil _).symm⟩
  | penalty pubkey amount =>
    obtain ⟨v, -, h⟩ := Option.bind_eq_some_iff.mp h
    split_ifs at h
    cases h
    exact ⟨rfl, (List.append_nil _).symm⟩
  | sweep pubkey amount =>
    obtain ⟨v, -, h⟩ := Option.bind_eq_some_iff.mp h
    split_ifs at h
    cases h
    exact ⟨rfl, (List.append_nil _).symm⟩
  | report withdrawals stats =>
    simp only [step] at h
    split_ifs at h
    cases h
    exact ⟨rfl, rfl⟩

end Step

/-! A whole run -/

/-- The logs a run writes, in blocks after `blockNumber` -/
def logsAfter (blockNumber : ℕ) : List BlockBody → List EthDistributed
  | [] => []
  | body :: bodies => body.events.flatMap (logsOf (blockNumber + 1)) ++ logsAfter (blockNumber + 1) bodies

section Run

variable {s : Setting} {block block' : ChainBlock}

theorem steps_moves (hkeys : (s.lidoKeys.map (·.key)).Nodup) {events : List ChainEvent} (hsound : Sound s block)
    (h : events.foldlM (step s) block = some block') : Moves s block block' events ∧ Sound s block' := by
  induction events generalizing block with
  | nil =>
    cases h
    exact ⟨.refl s _, hsound⟩
  | cons e events ih =>
    rw [List.foldlM_cons] at h
    obtain ⟨mid, hstep, hrest⟩ := Option.bind_eq_some_iff.mp h
    obtain ⟨hmoves, hmid⟩ := step_moves hkeys hsound hstep
    obtain ⟨hlater, hend⟩ := ih hmid hrest
    exact ⟨hmoves.trans hlater, hend⟩

theorem steps_logs {events : List ChainEvent} (h : events.foldlM (step s) block = some block') :
    block'.blockNumber = block.blockNumber ∧
      block'.ethDistributed = block.ethDistributed ++ events.flatMap (logsOf block.blockNumber) := by
  induction events generalizing block with
  | nil =>
    cases h
    exact ⟨rfl, (List.append_nil _).symm⟩
  | cons e events ih =>
    rw [List.foldlM_cons] at h
    obtain ⟨mid, hstep, hrest⟩ := Option.bind_eq_some_iff.mp h
    obtain ⟨hnumber, hlogs⟩ := step_logs hstep
    obtain ⟨hnumber', hlogs'⟩ := ih hrest
    rw [hnumber] at hnumber' hlogs'
    refine ⟨hnumber', ?_⟩
    rw [hlogs', hlogs, List.append_assoc, List.flatMap_cons]

theorem run_moves (hkeys : (s.lidoKeys.map (·.key)).Nodup) {bodies : List BlockBody} (hsound : Sound s block)
    (h : run s block bodies = some block') : Moves s block block' (eventsOf bodies) ∧ Sound s block' := by
  unfold run at h
  induction bodies generalizing block with
  | nil =>
    cases h
    exact ⟨.refl s _, hsound⟩
  | cons body bodies ih =>
    rw [List.foldlM_cons] at h
    obtain ⟨mid, hblock, hrest⟩ := Option.bind_eq_some_iff.mp h
    have hstart : Sound s { block with blockNumber := block.blockNumber + 1, slotNumber := body.slotNumber } :=
      ⟨hsound.pubkeys, hsound.noFrontRun⟩
    obtain ⟨hmoves, hmid⟩ := steps_moves hkeys hstart hblock
    have hfrom : Moves s block mid body.events := ⟨hmoves.owned, hmoves.vault, hmoves.stats⟩
    obtain ⟨hlater, hend⟩ := ih hmid hrest
    exact ⟨hfrom.trans hlater, hend⟩

theorem run_logs {bodies : List BlockBody} (h : run s block bodies = some block') :
    block'.blockNumber = block.blockNumber + bodies.length ∧
      block'.ethDistributed = block.ethDistributed ++ logsAfter block.blockNumber bodies := by
  unfold run at h
  induction bodies generalizing block with
  | nil =>
    cases h
    exact ⟨rfl, (List.append_nil _).symm⟩
  | cons body bodies ih =>
    rw [List.foldlM_cons] at h
    obtain ⟨mid, hblock, hrest⟩ := Option.bind_eq_some_iff.mp h
    obtain ⟨hnumber, hlogs⟩ := steps_logs hblock
    obtain ⟨hnumber', hlogs'⟩ := ih hrest
    dsimp only at hnumber hlogs
    rw [hnumber] at hnumber' hlogs'
    refine ⟨by rw [hnumber', List.length_cons]; omega, ?_⟩
    rw [hlogs', hlogs, List.append_assoc]
    rfl

theorem logsAfter_bounds {bodies : List BlockBody} {blockNumber : ℕ} {e : EthDistributed}
    (h : e ∈ logsAfter blockNumber bodies) :
    blockNumber + 1 ≤ e.blockNumber ∧ e.blockNumber ≤ blockNumber + bodies.length := by
  induction bodies generalizing blockNumber with
  | nil => cases h
  | cons body bodies ih =>
    rcases List.mem_append.mp h with hfirst | hlater
    · obtain ⟨event, -, he⟩ := List.mem_flatMap.mp hfirst
      have hnumber : e.blockNumber = blockNumber + 1 := by
        cases event <;> simp [logsOf] at he
        rw [he]
      rw [hnumber, List.length_cons]
      omega
    · have hbounds := ih hlater
      rw [List.length_cons]
      omega

/-- The logs of a run are its reports. -/
theorem logsAfter_withdrawals (blockNumber : ℕ) (bodies : List BlockBody) :
    (logsAfter blockNumber bodies).length = ((eventsOf bodies).filter isReport).length ∧
      ((logsAfter blockNumber bodies).map fun e => (e.withdrawalsWithdrawn : ℤ)).sum =
        ((eventsOf bodies).map withdrawalOf).sum * GWEI_TO_WEI := by
  have hevents : ∀ (number : ℕ) (events : List ChainEvent),
      (events.flatMap (logsOf number)).length = (events.filter isReport).length ∧
        ((events.flatMap (logsOf number)).map fun e => (e.withdrawalsWithdrawn : ℤ)).sum =
          (events.map withdrawalOf).sum * GWEI_TO_WEI := by
    intro number events
    induction events with
    | nil => simp
    | cons event events ih =>
      obtain ⟨hlength, hsum⟩ := ih
      rw [List.flatMap_cons, List.length_append, List.map_append, List.sum_append, List.map_cons, List.sum_cons, hlength,
        hsum, add_mul]
      cases event with
      | report withdrawals stats =>
        rw [List.filter_cons_of_pos rfl, List.length_cons]
        exact ⟨Nat.add_comm .., by simp [logsOf, withdrawalOf]⟩
      | _ => simp [logsOf, isReport, withdrawalOf]
  induction bodies generalizing blockNumber with
  | nil => simp [logsAfter, eventsOf]
  | cons body bodies ih =>
    obtain ⟨hlength, hsum⟩ := ih (blockNumber + 1)
    obtain ⟨hlength', hsum'⟩ := hevents (blockNumber + 1) body.events
    unfold eventsOf at hlength hsum ⊢
    rw [logsAfter, List.flatMap_cons, List.length_append, List.filter_append, List.length_append, List.map_append,
      List.map_append, List.sum_append, List.sum_append, hlength, hlength', hsum, hsum', add_mul]
    exact ⟨rfl, rfl⟩

end Run

/-! The rebase of a run -/

section Rebase

variable {s : Setting} {prev ref : ChainBlock}

theorem gweiToWei_ne_zero : (GWEI_TO_WEI : ℤ) ≠ 0 := by norm_num [GWEI_TO_WEI]

theorem weiToGwei_mul (amount : ℤ) : weiToGwei (amount * GWEI_TO_WEI) = amount :=
  Int.mul_fdiv_cancel amount gweiToWei_ne_zero

/-- Whole Gwei pass through the rounding. -/
theorem weiToGwei_add_mul (balance amount : ℤ) :
    weiToGwei (balance + amount * GWEI_TO_WEI) = weiToGwei balance + amount :=
  Int.add_mul_fdiv_right balance amount gweiToWei_ne_zero

/-- What the code sums at one block is what the block holds for the Lido keys. -/
theorem balanceSum_add_pending (hkeys : (s.lidoKeys.map (·.key)).Nodup) {block : ChainBlock}
    (hvalidators : (block.validators.map (·.validator.pubkey)).Nodup) :
    (calculateValidatorsBalanceSum (computeLidoValidators s.lidoKeys block.validators).1 : ℤ) +
      sumValidLidoPending s.rules block.pendingDeposits (s.lidoKeys.map (·.key))
        ((computeLidoValidators s.lidoKeys block.validators).1.map (·.validator.pubkey)) = owned s block := by
  have hpubkeys := pubkeys_lidoValidators hvalidators s.lidoKeys
  have hbalances := sum_lidoValidators hvalidators (·.balance) s.lidoKeys
  have htopups := sum_lidoValidators hvalidators
    (fun v => amountOf (depositsOf block.pendingDeposits v.validator.pubkey)) s.lidoKeys
  have htotal := sum_ownedAt s.rules block.validators block.pendingDeposits s.lidoKeys
  rw [← hbalances, ← htopups] at htotal
  generalize (computeLidoValidators s.lidoKeys block.validators).1 = lidoValidators at hpubkeys htotal ⊢
  have hexisting : (lidoValidators.map (·.validator.pubkey)).Nodup := by
    rw [hpubkeys]
    exact hkeys.filter _
  have hfilter : (s.lidoKeys.map (·.key)).filter (· ∉ lidoValidators.map (·.validator.pubkey)) =
      (s.lidoKeys.filter fun key => (find block.validators key.key).isNone).map (·.key) := by
    rw [hpubkeys, List.filter_map]
    refine congrArg (List.map _) (List.filter_congr fun key hkey => ?_)
    have hmem : key.key ∈ s.lidoKeys.map (·.key) := List.mem_map_of_mem hkey
    rw [Function.comp_apply, Bool.eq_iff_iff, decide_eq_true_eq, List.mem_filter, Option.isNone_iff_eq_none,
      Option.isSome_iff_ne_none]
    tauto
  have hpending := @sum_collected s.rules _ block.pendingDeposits
    (hkeys.filter (· ∉ lidoValidators.map (·.validator.pubkey)))
  rw [hfilter, List.map_map] at hpending
  have hsum : sumValidLidoPending s.rules block.pendingDeposits (s.lidoKeys.map (·.key))
      (lidoValidators.map (·.validator.pubkey)) =
      (lidoValidators.map fun v => amountOf (depositsOf block.pendingDeposits v.validator.pubkey)).sum +
        ((s.lidoKeys.filter fun key => (find block.validators key.key).isNone).map
          fun key => pendingAt s.rules block.pendingDeposits key.key).sum := by
    unfold sumValidLidoPending
    dsimp only
    rw [hfilter, amountOf_filter_mem hexisting, List.map_map, hpending]
    rfl
  have howned : owned s block =
      ((s.lidoKeys.map fun key => ownedAt s.rules block.validators block.pendingDeposits key.key).sum : ℕ) := by
    rw [Nat.cast_list_sum, owned, List.map_map, List.map_map]
    rfl
  rw [hsum, howned, ← htotal, calculateValidatorsBalanceSum]
  push_cast
  ring

theorem getWithdrawnFromVaultBetweenBlocks_run {bodies : List BlockBody} (hrun : run s prev bodies = some ref)
    (hbodies : bodies ≠ []) (hreports : ((eventsOf bodies).filter isReport).length ≤ 1)
    (hlogs : ∀ e ∈ prev.ethDistributed, e.blockNumber ≤ prev.blockNumber) :
    getWithdrawnFromVaultBetweenBlocks prev ref = .ok ((eventsOf bodies).map withdrawalOf).sum := by
  obtain ⟨hnumber, hdistributed⟩ := run_logs hrun
  obtain ⟨hlength, hsum⟩ := logsAfter_withdrawals prev.blockNumber bodies
  have hpos : 0 < bodies.length := List.length_pos_iff.mpr hbodies
  have hevents : getEventsInRange ref.ethDistributed (prev.blockNumber + 1) ref.blockNumber =
      .ok (logsAfter prev.blockNumber bodies) := by
    unfold getEventsInRange
    rw [if_neg (by omega), hdistributed, List.filter_append]
    have hold : prev.ethDistributed.filter (fun e =>
        decide (prev.blockNumber + 1 ≤ e.blockNumber ∧ e.blockNumber ≤ ref.blockNumber)) = [] := by
      rw [List.filter_eq_nil_iff]
      intro e he
      have := hlogs e he
      simp only [decide_eq_true_eq, not_and]
      omega
    have hnew : (logsAfter prev.blockNumber bodies).filter (fun e =>
        decide (prev.blockNumber + 1 ≤ e.blockNumber ∧ e.blockNumber ≤ ref.blockNumber)) =
        logsAfter prev.blockNumber bodies := by
      rw [List.filter_eq_self]
      intro e he
      rw [decide_eq_true_eq, hnumber]
      exact logsAfter_bounds he
    rw [hold, hnew, List.nil_append]
  unfold getWithdrawnFromVaultBetweenBlocks
  rw [hevents, Except.ok_bind]
  rw [← hlength] at hreports
  generalize logsAfter prev.blockNumber bodies = logs at hreports hsum
  match logs, hreports with
  | [], _ =>
    have hzero : ((eventsOf bodies).map withdrawalOf).sum = 0 :=
      (mul_eq_zero.mp hsum.symm).resolve_right gweiToWei_ne_zero
    rw [hzero]
    rfl
  | [e], _ =>
    have hwithdrawn : (e.withdrawalsWithdrawn : ℤ) = ((eventsOf bodies).map withdrawalOf).sum * GWEI_TO_WEI := by
      simpa using hsum
    change Except.ok (weiToGwei e.withdrawalsWithdrawn) = _
    rw [hwithdrawn, weiToGwei_mul]

/-- Between two blocks of one frame the rebase is what the Lido validators earned, and what other
validators swept into the vault. -/
theorem calculateClRebaseBetweenBlocks_run (s : Setting) (prev ref : ChainBlock) (bodies : List BlockBody)
    (hkeys : (s.lidoKeys.map (·.key)).Nodup)
    (hpubkeys : (prev.validators.map (·.validator.pubkey)).Nodup) (hfront : NoFrontRun s prev)
    (hlogs : ∀ e ∈ prev.ethDistributed, e.blockNumber ≤ prev.blockNumber)
    (hrun : run s prev bodies = some ref) (hreports : ((eventsOf bodies).filter isReport).length ≤ 1)
    (hversion : LIDO_V4 ≤ s.contractVersion) (hframe : validatePrevSlotWithinRefFrame s prev.slotNumber = .ok ()) :
    calculateClRebaseBetweenBlocks s prev ref =
      .ok (((eventsOf bodies).map (rewardOf s)).sum + ((eventsOf bodies).map (foreignSweepOf s)).sum) := by
  have hsound : Sound s prev := ⟨hpubkeys, hfront⟩
  obtain ⟨hmoves, hend⟩ := run_moves hkeys hsound hrun
  have hnumber := (run_logs hrun).1
  unfold calculateClRebaseBetweenBlocks
  cases bodies with
  | nil =>
    rw [if_pos (hnumber.trans (Nat.add_zero _)).symm]
    rfl
  | cons body bodies =>
    rw [if_neg (by rw [hnumber, List.length_cons]; omega)]
    rw [getWithdrawnFromVaultBetweenBlocks_run hrun (List.cons_ne_nil _ _) hreports hlogs, Except.ok_bind,
      calculateInjectedCapital, if_neg (not_lt.mpr hversion), hframe, Except.ok_bind]
    refine congrArg Except.ok ?_
    have hprev := balanceSum_add_pending hkeys hpubkeys
    have href := balanceSum_add_pending hkeys hend.pubkeys
    have hdeposited : ref.balanceStats.depositedInFrame - prev.balanceStats.depositedInFrame =
        ((eventsOf (body :: bodies)).map depositOf).sum * GWEI_TO_WEI := by
      rw [hmoves.stats]
      ring
    unfold getLidoValidatorsBalanceWithVault
    rw [hdeposited, weiToGwei_mul, hmoves.vault, weiToGwei_add_mul]
    have howned := hmoves.owned
    linarith

/-- One Lido key without a validator, and one validator of an outsider with the same credentials -/
def outsiderSetting : Setting where
  lidoKeys := [⟨0, "0xaa", 0, "0x55"⟩]
  rules := ⟨fun _ => true, ["0x01"]⟩
  converter := ⟨.sample, ⟨0, 225, Nat.zero_lt_succ 224⟩⟩
  contractVersion := 4
  refSlot := 7199

def outsiderBlock : ChainBlock where
  blockNumber := 100
  slotNumber := 7100
  validators := [newValidator 0 ⟨"0xbb", "0x01", 33000000000, "ok", 0⟩]
  pendingDeposits := []
  withdrawalVaultBalance := 0
  balanceStats := ⟨0, 0⟩
  ethDistributed := []

/-- Nobody is rewarded, yet the sweep of the outsider counts. -/
theorem calculateClRebaseBetweenBlocks_outsider :
    ∃ ref, run outsiderSetting outsiderBlock [⟨7101, [.sweep "0xbb" 1000000000]⟩] = some ref ∧
      ((eventsOf [⟨7101, [.sweep "0xbb" 1000000000]⟩]).map (rewardOf outsiderSetting)).sum = 0 ∧
      calculateClRebaseBetweenBlocks outsiderSetting outsiderBlock ref = .ok 1000000000 :=
  ⟨_, rfl, rfl, by decide +kernel⟩

/-- A deposit is queued and processed, its validator earns and sweeps, and a report settles. -/
def depositedBodies : List BlockBody :=
  [⟨7101, [.deposit ⟨"0xaa", "0x01", 32, "ok", 7101⟩ ⟨32000000000, 0⟩]⟩,
    ⟨7102, [.processHead, .reward "0xaa" 5, .sweep "0xaa" 3, .report 3 ⟨32000000000, 0⟩]⟩]

theorem calculateClRebaseBetweenBlocks_run_deposited :
    ∃ ref, run outsiderSetting outsiderBlock depositedBodies = some ref ∧
      calculateClRebaseBetweenBlocks outsiderSetting outsiderBlock ref = .ok 5 :=
  ⟨_, rfl, calculateClRebaseBetweenBlocks_run outsiderSetting outsiderBlock _ depositedBodies (List.nodup_singleton _)
    (List.nodup_singleton _) (fun _ _ _ _ h => by cases h) (fun _ h => by cases h) rfl (Nat.le_refl 1)
    (Nat.le_refl 4) rfl⟩

end Rebase

end AbnormalClRebase

end LidoOracle
