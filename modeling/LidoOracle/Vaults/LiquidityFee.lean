import LidoOracle.Execution.BlockTimestamps
import LidoOracle.Lib.Timeline
import LidoOracle.Vaults.Types

/-! The liquidity fee of a vault over a report interval. The code walks the
events backwards from the current state and undoes them one by one; the fee is
the one that a walk forward through the history accrues. -/

namespace LidoOracle

structure EventBase where
  logIndex : ℕ
  blockNumber : BlockNumber

/-- Events of the vault hub -/
inductive VaultEventType where
  | vaultFeesUpdated (base : EventBase) (vault : ChecksumAddress) (preLiquidityFeeBp liquidityFeeBp : ℕ)
  | mintedSharesOnVault (base : EventBase) (vault : ChecksumAddress) (amountOfShares : ℕ)
  | burnedSharesOnVault (base : EventBase) (vault : ChecksumAddress) (amountOfShares : ℕ)
  | vaultRebalanced (base : EventBase) (vault : ChecksumAddress) (sharesBurned : ℕ)
  | badDebtWrittenOffToBeInternalized (base : EventBase) (vault : ChecksumAddress) (badDebtShares : ℕ)
  | badDebtSocialized (base : EventBase) (vaultDonor vaultAcceptor : ChecksumAddress) (badDebtShares : ℕ)
  | vaultConnected (base : EventBase) (vault : ChecksumAddress) (liquidityFeeBp : ℕ)

namespace VaultEventType

def base : VaultEventType → EventBase
  | vaultFeesUpdated base _ _ _ => base
  | mintedSharesOnVault base _ _ => base
  | burnedSharesOnVault base _ _ => base
  | vaultRebalanced base _ _ => base
  | badDebtWrittenOffToBeInternalized base _ _ => base
  | badDebtSocialized base _ _ _ => base
  | vaultConnected base _ _ => base

def blockNumber (event : VaultEventType) : BlockNumber := event.base.blockNumber

/-- `isinstance(event, VaultConnectedEvent)` -/
def isConnected : VaultEventType → Bool
  | vaultConnected _ _ _ => true
  | _ => false

/-- The place of an event in the chain -/
def key (event : VaultEventType) : ℕ ×ₗ ℕ := toLex (event.base.blockNumber, event.base.logIndex)

end VaultEventType

namespace StakingVaultsService

inductive FeeError where
  | missingTimestamp (block : BlockNumber)
  | negativeEventInterval (vaultAddress : ChecksumAddress) (prevEventTimestamp eventTimestamp : ℤ)
  | wrongVaultLiquidityShares (vaultAddress : ChecksumAddress) (liabilityShares : Shares)
  deriving DecidableEq, Repr

abbrev Fees := Py FeeError

/-- `get_steth_by_shares` -/
def getStethByShares {χ : Type} (shares : Shares) (totalEther : ℕ) (totalShares : Shares) : Py χ ℚ :=
  Py.trueDiv (shares * totalEther : ℚ) totalShares

def calcFeeValue (value : ℚ) (timeElapsedSeconds : ℤ) (coreAprRatio : ℚ) (feeBp : ℕ) : ℚ :=
  value * timeElapsedSeconds * coreAprRatio * feeBp / (SECONDS_IN_YEAR * TOTAL_BASIS_POINTS : ℕ)

/-- Liability shares and fee rate before the event, from those after it -/
def applyEvent (event : VaultEventType) (vaultAddress : ChecksumAddress) (liabilityShares : Shares)
    (liquidityFee : ℕ) : Shares × ℕ :=
  match event with
  | .vaultFeesUpdated _ _ preLiquidityFeeBp _ => (liabilityShares, preLiquidityFeeBp)
  | .mintedSharesOnVault _ _ amountOfShares => (liabilityShares - amountOfShares, liquidityFee)
  | .burnedSharesOnVault _ _ amountOfShares => (liabilityShares + amountOfShares, liquidityFee)
  | .vaultRebalanced _ _ sharesBurned => (liabilityShares + sharesBurned, liquidityFee)
  | .badDebtWrittenOffToBeInternalized _ _ badDebtShares => (liabilityShares + badDebtShares, liquidityFee)
  | .badDebtSocialized _ vaultDonor _ badDebtShares =>
    (if vaultAddress = vaultDonor then liabilityShares + badDebtShares else liabilityShares - badDebtShares, liquidityFee)
  | .vaultConnected _ _ _ => (liabilityShares, liquidityFee)

section Walk

variable (preTotalPooledEther : ℕ) (preTotalShares : Shares) (coreAprRatio : ℚ)

/-- The fee of a stretch of time -/
def segmentFee (liabilityShares : Shares) (liquidityFee : ℕ) (intervalSeconds : ℤ) : Fees ℚ := do
  let mintedSteth ← getStethByShares liabilityShares preTotalPooledEther preTotalShares
  return calcFeeValue mintedSteth intervalSeconds coreAprRatio liquidityFee

variable (vaultAddress : ChecksumAddress) (prevRefSlotTimestamp : ℤ) (blockTimestamps : Dict BlockNumber ℤ)

/-- The loop over the events, latest first -/
def walkBack : List VaultEventType → ℚ → Shares → ℕ → ℤ → Fees (ℚ × Shares)
  | [], vaultLiquidityFee, liabilityShares, liquidityFee, prevEventTimestamp => do
    let intervalSeconds := prevEventTimestamp - prevRefSlotTimestamp
    if intervalSeconds < 0 then
      throw (.raised (.negativeEventInterval vaultAddress prevEventTimestamp prevRefSlotTimestamp))
    let fee ← segmentFee preTotalPooledEther preTotalShares coreAprRatio liabilityShares liquidityFee intervalSeconds
    return (vaultLiquidityFee + fee, liabilityShares)
  | event :: events, vaultLiquidityFee, liabilityShares, liquidityFee, prevEventTimestamp => do
    if event.blockNumber ∉ blockTimestamps then throw (.raised (.missingTimestamp event.blockNumber))
    let eventTimestamp ← Py.getItem blockTimestamps event.blockNumber
    let intervalSeconds := prevEventTimestamp - eventTimestamp
    if intervalSeconds < 0 then
      throw (.raised (.negativeEventInterval vaultAddress prevEventTimestamp eventTimestamp))
    let fee ← segmentFee preTotalPooledEther preTotalShares coreAprRatio liabilityShares liquidityFee intervalSeconds
    if event.isConnected then do
      if liabilityShares ≠ 0 then throw (.raised (.wrongVaultLiquidityShares vaultAddress liabilityShares))
      return (vaultLiquidityFee + fee, liabilityShares)
    else
      let (liabilityShares, liquidityFee) := applyEvent event vaultAddress liabilityShares liquidityFee
      walkBack events (vaultLiquidityFee + fee) liabilityShares liquidityFee eventTimestamp

def calculateLiquidityFeeByEvents (liabilityShares : Shares) (liquidityFeeBp : ℕ) (vaultEvents : List VaultEventType)
    (currentRefSlotTimestamp : ℤ) : Fees (ℚ × Shares) :=
  walkBack preTotalPooledEther preTotalShares coreAprRatio vaultAddress prevRefSlotTimestamp blockTimestamps
    (Sorted.sortedBy (fun e => OrderDual.toDual e.key) vaultEvents) 0 liabilityShares liquidityFeeBp
    currentRefSlotTimestamp

/-- Infrastructure, reservation and liquidity fee, and the liability shares at the start of the interval -/
def calculateVaultFeeComponents (vaultInfo : VaultInfo) (vaultTotalValue : ℤ) (vaultEvents : List VaultEventType)
    (reportIntervalSeconds currentRefSlotTimestamp : ℤ) : Fees (ℚ × ℚ × ℚ × Shares) := do
  let vaultInfrastructureFee := calcFeeValue vaultTotalValue reportIntervalSeconds coreAprRatio vaultInfo.infraFeeBp
  let vaultReservationLiquidityFee :=
    calcFeeValue vaultInfo.mintableStEth reportIntervalSeconds coreAprRatio vaultInfo.reservationFeeBp
  if vaultEvents = [] then
    let liabilityShares := vaultInfo.liabilityShares
    let mintedSteth ← getStethByShares liabilityShares preTotalPooledEther preTotalShares
    let vaultLiquidityFee := calcFeeValue mintedSteth reportIntervalSeconds coreAprRatio vaultInfo.liquidityFeeBp
    return (vaultInfrastructureFee, vaultReservationLiquidityFee, vaultLiquidityFee, liabilityShares)
  else
    let (vaultLiquidityFee, liabilityShares) ← calculateLiquidityFeeByEvents preTotalPooledEther preTotalShares
      coreAprRatio vaultAddress prevRefSlotTimestamp blockTimestamps vaultInfo.liabilityShares vaultInfo.liquidityFeeBp
      vaultEvents currentRefSlotTimestamp
    return (vaultInfrastructureFee, vaultReservationLiquidityFee, vaultLiquidityFee, liabilityShares)

end Walk

/-! The history of a vault, forwards -/

structure VaultPosition where
  liabilityShares : Shares
  liquidityFee : ℕ

/-- What an event does to a vault. Connecting starts a new lifecycle from zero. -/
def Changes (vaultAddress : ChecksumAddress) (event : VaultEventType) (pre post : VaultPosition) : Prop :=
  match event with
  | .vaultFeesUpdated _ _ preLiquidityFeeBp liquidityFeeBp =>
    pre.liquidityFee = preLiquidityFeeBp ∧ post = { pre with liquidityFee := liquidityFeeBp }
  | .mintedSharesOnVault _ _ amountOfShares => post = { pre with liabilityShares := pre.liabilityShares + amountOfShares }
  | .burnedSharesOnVault _ _ amountOfShares => post = { pre with liabilityShares := pre.liabilityShares - amountOfShares }
  | .vaultRebalanced _ _ sharesBurned => post = { pre with liabilityShares := pre.liabilityShares - sharesBurned }
  | .badDebtWrittenOffToBeInternalized _ _ badDebtShares =>
    post = { pre with liabilityShares := pre.liabilityShares - badDebtShares }
  | .badDebtSocialized _ vaultDonor vaultAcceptor badDebtShares =>
    (vaultAddress = vaultDonor ∧ post = { pre with liabilityShares := pre.liabilityShares - badDebtShares }) ∨
      (vaultAddress ≠ vaultDonor ∧ vaultAddress = vaultAcceptor ∧
        post = { pre with liabilityShares := pre.liabilityShares + badDebtShares })
  | .vaultConnected _ _ liquidityFeeBp => post = ⟨0, liquidityFeeBp⟩

/-- Every event with the position after it, from a position on -/
def History (vaultAddress : ChecksumAddress) : VaultPosition → List (VaultEventType × VaultPosition) → Prop
  | _, [] => True
  | pre, change :: changes => Changes vaultAddress change.1 pre change.2 ∧ History vaultAddress change.2 changes

def timestampOf (blockTimestamps : Dict BlockNumber ℤ) (event : VaultEventType) : ℤ :=
  (blockTimestamps.get? event.blockNumber).getD 0

variable {vaultAddress : ChecksumAddress} {event : VaultEventType} {pre post initial : VaultPosition}
  {changes before after : List (VaultEventType × VaultPosition)} {change : VaultEventType × VaultPosition}

/-- Backwards, an event is undone. -/
theorem applyEvent_undoes (h : Changes vaultAddress event pre post) (hconnected : ¬event.isConnected = true) :
    applyEvent event vaultAddress post.liabilityShares post.liquidityFee = (pre.liabilityShares, pre.liquidityFee) := by
  cases event with
  | vaultFeesUpdated _ _ _ _ =>
    obtain ⟨rfl, rfl⟩ := h
    rfl
  | mintedSharesOnVault _ _ _ =>
    subst h
    exact Prod.ext (add_sub_cancel_right _ _) rfl
  | burnedSharesOnVault _ _ _ =>
    subst h
    exact Prod.ext (sub_add_cancel _ _) rfl
  | vaultRebalanced _ _ _ =>
    subst h
    exact Prod.ext (sub_add_cancel _ _) rfl
  | badDebtWrittenOffToBeInternalized _ _ _ =>
    subst h
    exact Prod.ext (sub_add_cancel _ _) rfl
  | badDebtSocialized _ _ _ _ =>
    rcases h with ⟨hdonor, rfl⟩ | ⟨hdonor, -, rfl⟩
    · rw [applyEvent, if_pos hdonor]
      exact Prod.ext (sub_add_cancel _ _) rfl
    · rw [applyEvent, if_neg hdonor]
      exact Prod.ext (add_sub_cancel_right _ _) rfl
  | vaultConnected _ _ _ => exact absurd rfl hconnected

theorem shares_of_connected (h : Changes vaultAddress event pre post) (hconnected : event.isConnected = true) :
    post.liabilityShares = 0 := by
  cases event with
  | vaultConnected _ _ _ =>
    subst h
    rfl
  | _ => cases hconnected

theorem history_concat : History vaultAddress initial (changes ++ [change]) ↔
    History vaultAddress initial changes ∧
      Changes vaultAddress change.1 (Timeline.last initial changes) change.2 := by
  induction changes generalizing initial with
  | nil =>
    rw [List.nil_append, History, History, History, and_true, true_and]
    rfl
  | cons c changes ih =>
    rw [List.cons_append, History, History, ih, and_assoc]
    rfl

theorem History.rest (h : History vaultAddress initial (before ++ change :: after)) :
    History vaultAddress change.2 after ∧ ∃ pre, Changes vaultAddress change.1 pre change.2 := by
  induction before generalizing initial with
  | nil => exact ⟨h.2, initial, h.1⟩
  | cons c before ih => exact ih h.2

/-! The walk -/

section Accrual

variable (preTotalPooledEther : ℕ) (preTotalShares : Shares) (coreAprRatio : ℚ)

/-- What the segments of an interval accrue -/
def accrued (segments : List (VaultPosition × ℤ)) : Fees ℚ := do
  let fees ← segments.mapM fun segment =>
    segmentFee preTotalPooledEther preTotalShares coreAprRatio segment.1.liabilityShares segment.1.liquidityFee segment.2
  return fees.sum

/-- The fee of a segment where there are shares at all -/
def feeOf (segment : VaultPosition × ℤ) : ℚ :=
  calcFeeValue (segment.1.liabilityShares * preTotalPooledEther / preTotalShares) segment.2 coreAprRatio
    segment.1.liquidityFee

variable {preTotalPooledEther preTotalShares coreAprRatio}

theorem segmentFee_eq (htotal : preTotalShares ≠ 0) (position : VaultPosition) (seconds : ℤ) :
    segmentFee preTotalPooledEther preTotalShares coreAprRatio position.liabilityShares position.liquidityFee seconds =
      .ok (feeOf preTotalPooledEther preTotalShares coreAprRatio (position, seconds)) := by
  rw [segmentFee, getStethByShares, Py.trueDiv, if_neg (Int.cast_ne_zero.mpr htotal)]
  rfl

theorem segmentFee_zero (position : VaultPosition) (seconds : ℤ) :
    segmentFee preTotalPooledEther 0 coreAprRatio position.liabilityShares position.liquidityFee seconds =
      .error .zeroDivisionError := by
  rw [segmentFee, getStethByShares, Py.trueDiv, if_pos Int.cast_zero]
  rfl

theorem accrued_eq (htotal : preTotalShares ≠ 0) (segments : List (VaultPosition × ℤ)) :
    accrued preTotalPooledEther preTotalShares coreAprRatio segments =
      .ok (segments.map (feeOf preTotalPooledEther preTotalShares coreAprRatio)).sum := by
  rw [accrued, ExceptRun.mapM_of_ok fun segment _ => segmentFee_eq htotal segment.1 segment.2]
  rfl

theorem accrued_zero (segment : VaultPosition × ℤ) (segments : List (VaultPosition × ℤ)) :
    accrued preTotalPooledEther 0 coreAprRatio (segment :: segments) = .error .zeroDivisionError := by
  rw [accrued, List.mapM_cons, segmentFee_zero]
  rfl

variable {prevRefSlotTimestamp : ℤ} {blockTimestamps : Dict BlockNumber ℤ} {events : List VaultEventType} {fee : ℚ}
  {position : VaultPosition} {timestamp : ℤ}

/-- The last stretch of the walk -/
theorem walkBack_nil (hle : prevRefSlotTimestamp ≤ timestamp) :
    walkBack preTotalPooledEther preTotalShares coreAprRatio vaultAddress prevRefSlotTimestamp blockTimestamps [] fee
      position.liabilityShares position.liquidityFee timestamp =
    (segmentFee preTotalPooledEther preTotalShares coreAprRatio position.liabilityShares position.liquidityFee
      (timestamp - prevRefSlotTimestamp) >>= fun last => .ok (fee + last, position.liabilityShares)) := by
  rw [walkBack, if_neg (not_lt.mpr (sub_nonneg.mpr hle))]
  rfl

theorem walkBack_step (hblock : event.blockNumber ∈ blockTimestamps)
    (hle : timestampOf blockTimestamps event ≤ timestamp) :
    walkBack preTotalPooledEther preTotalShares coreAprRatio vaultAddress prevRefSlotTimestamp blockTimestamps
      (event :: events) fee position.liabilityShares position.liquidityFee timestamp =
    (segmentFee preTotalPooledEther preTotalShares coreAprRatio position.liabilityShares position.liquidityFee
      (timestamp - timestampOf blockTimestamps event) >>= fun accrued =>
        if event.isConnected then
          if position.liabilityShares ≠ 0 then
            .error (.raised (.wrongVaultLiquidityShares vaultAddress position.liabilityShares))
          else .ok (fee + accrued, position.liabilityShares)
        else
          walkBack preTotalPooledEther preTotalShares coreAprRatio vaultAddress prevRefSlotTimestamp blockTimestamps
            events (fee + accrued)
            (applyEvent event vaultAddress position.liabilityShares position.liquidityFee).1
            (applyEvent event vaultAddress position.liabilityShares position.liquidityFee).2
            (timestampOf blockTimestamps event)) := by
  obtain ⟨eventTimestamp, hget⟩ := Dict.mem_iff_exists_get?.mp hblock
  have htimestamp : timestampOf blockTimestamps event = eventTimestamp := by
    rw [timestampOf, hget]
    rfl
  rw [htimestamp] at hle ⊢
  rw [walkBack, if_neg (not_not.mpr hblock), Py.getItem_eq_ok.mpr hget]
  simp only [Except.ok_bind, if_neg (not_lt.mpr (sub_nonneg.mpr hle))]
  rfl

/-- Over a stretch of history without a connection the walk accrues the forward segments, and goes on from where the
stretch began. -/
theorem walkBack_history (htotal : preTotalShares ≠ 0) (hhistory : History vaultAddress initial changes)
    (hconnected : ∀ change ∈ changes, ¬change.1.isConnected = true)
    (hblocks : ∀ change ∈ changes, change.1.blockNumber ∈ blockTimestamps) {start stop : ℤ}
    (hwithin : Timeline.Within (timestampOf blockTimestamps) start changes stop) {earlier : List VaultEventType}
    {shares : Shares} (hearlier : ∀ fee stop, start ≤ stop →
      walkBack preTotalPooledEther preTotalShares coreAprRatio vaultAddress prevRefSlotTimestamp blockTimestamps earlier
        fee initial.liabilityShares initial.liquidityFee stop =
      .ok (fee + feeOf preTotalPooledEther preTotalShares coreAprRatio (initial, stop - start), shares)) (fee : ℚ) :
    walkBack preTotalPooledEther preTotalShares coreAprRatio vaultAddress prevRefSlotTimestamp blockTimestamps
      ((changes.map Prod.fst).reverse ++ earlier) fee (Timeline.last initial changes).liabilityShares
      (Timeline.last initial changes).liquidityFee stop =
    .ok (fee + ((Timeline.segments (timestampOf blockTimestamps) initial start changes stop).map
      (feeOf preTotalPooledEther preTotalShares coreAprRatio)).sum, shares) := by
  induction changes using List.reverseRecOn generalizing stop fee with
  | nil =>
    rw [Timeline.segments, List.map_singleton, List.sum_singleton]
    exact hearlier fee stop hwithin.nonempty
  | append_singleton changes change ih =>
    obtain ⟨hbefore, hchange⟩ := history_concat.mp hhistory
    obtain ⟨hwithin', hle⟩ := hwithin.concat
    have hlast : change ∈ changes ++ [change] := List.mem_append_right _ List.mem_cons_self
    have hundo := applyEvent_undoes hchange (hconnected change hlast)
    have hrest := ih hbefore (fun c hc => hconnected c (List.mem_append_left _ hc))
      (fun c hc => hblocks c (List.mem_append_left _ hc)) hwithin'
    rw [List.map_append, List.map_singleton, List.reverse_append, List.reverse_singleton, List.singleton_append,
      List.cons_append, Timeline.last_concat, walkBack_step (hblocks change hlast) hle, segmentFee_eq htotal,
      Except.ok_bind, if_neg (hconnected change hlast), hundo, hrest, Timeline.segments_concat, List.map_append,
      List.sum_append, List.map_singleton, List.sum_singleton, add_assoc, add_comm (feeOf _ _ _ _)]

/-- Without shares in existence the first stretch of the walk raises. -/
theorem walkBack_zero (hevents : ∀ event ∈ events, event.blockNumber ∈ blockTimestamps ∧
      timestampOf blockTimestamps event ≤ timestamp) (hle : prevRefSlotTimestamp ≤ timestamp) :
    walkBack preTotalPooledEther 0 coreAprRatio vaultAddress prevRefSlotTimestamp blockTimestamps events fee
      position.liabilityShares position.liquidityFee timestamp = .error .zeroDivisionError := by
  cases events with
  | nil =>
    rw [walkBack_nil hle, segmentFee_zero]
    rfl
  | cons event events =>
    obtain ⟨hblock, hbefore⟩ := hevents event List.mem_cons_self
    rw [walkBack_step hblock hbefore, segmentFee_zero]
    rfl

/-- The history of a vault over a report interval, in the order of the chain, with the timestamps of its blocks -/
structure Recorded (vaultAddress : ChecksumAddress) (blockTimestamps : Dict BlockNumber ℤ) (initial : VaultPosition)
    (changes : List (VaultEventType × VaultPosition)) (start stop : ℤ) : Prop where
  history : History vaultAddress initial changes
  chronological : (changes.map Prod.fst).Pairwise fun a b => a.key < b.key
  timed : ∀ change ∈ changes, change.1.blockNumber ∈ blockTimestamps
  within : Timeline.Within (timestampOf blockTimestamps) start changes stop

/-- The sort puts the events of a history in reverse, in whatever order they are given. -/
theorem sortedBy_key (hchronological : (changes.map Prod.fst).Pairwise fun a b => a.key < b.key)
    {vaultEvents : List VaultEventType} (hgiven : vaultEvents.Perm (changes.map Prod.fst)) :
    Sorted.sortedBy (fun e : VaultEventType => OrderDual.toDual e.key) vaultEvents = (changes.map Prod.fst).reverse := by
  have hreverse : ((changes.map Prod.fst).reverse).Pairwise fun a b : VaultEventType =>
      OrderDual.toDual a.key < OrderDual.toDual b.key := List.pairwise_reverse.mpr hchronological
  have hnodup : (((changes.map Prod.fst).reverse).map fun e : VaultEventType => OrderDual.toDual e.key).Nodup :=
    List.pairwise_map.mpr (hreverse.imp fun hlt => hlt.ne)
  rw [← Sorted.sortedBy_eq_of_perm hnodup ((List.reverse_perm _).trans hgiven.symm)]
  exact Sorted.sortedBy_eq_self (hreverse.imp fun hlt => hlt.le)

section Recorded

variable {start stop : ℤ} {vaultEvents : List VaultEventType}
  (h : Recorded vaultAddress blockTimestamps initial changes start stop)
  (hgiven : vaultEvents.Perm (changes.map Prod.fst))
include h hgiven

theorem calculateLiquidityFeeByEvents_zero :
    calculateLiquidityFeeByEvents preTotalPooledEther 0 coreAprRatio vaultAddress start blockTimestamps
      (Timeline.last initial changes).liabilityShares (Timeline.last initial changes).liquidityFee vaultEvents stop =
    .error .zeroDivisionError := by
  rw [calculateLiquidityFeeByEvents, sortedBy_key h.chronological hgiven]
  refine walkBack_zero (fun event hevent => ?_) h.within.nonempty
  obtain ⟨change, hchange, rfl⟩ := List.mem_map.mp (List.mem_reverse.mp hevent)
  exact ⟨h.timed change hchange, h.within.le_stop change hchange⟩

/-- Without a connection the fee is accrued over the whole interval. -/
theorem calculateLiquidityFeeByEvents_unconnected (hconnected : ∀ change ∈ changes, ¬change.1.isConnected = true) :
    calculateLiquidityFeeByEvents preTotalPooledEther preTotalShares coreAprRatio vaultAddress start blockTimestamps
      (Timeline.last initial changes).liabilityShares (Timeline.last initial changes).liquidityFee vaultEvents stop =
    (accrued preTotalPooledEther preTotalShares coreAprRatio
      (Timeline.segments (timestampOf blockTimestamps) initial start changes stop) >>= fun fee =>
        .ok (fee, initial.liabilityShares)) := by
  by_cases htotal : preTotalShares = 0
  · subst htotal
    have hsegments : ∃ segment segments, Timeline.segments (timestampOf blockTimestamps) initial start changes stop =
        segment :: segments := by
      cases changes with
      | nil => exact ⟨_, _, rfl⟩
      | cons change changes => exact ⟨_, _, rfl⟩
    obtain ⟨segment, segments, hsegments⟩ := hsegments
    rw [calculateLiquidityFeeByEvents_zero h hgiven, hsegments, accrued_zero]
    rfl
  · have hearlier : ∀ (fee : ℚ) (stop : ℤ), start ≤ stop →
        walkBack preTotalPooledEther preTotalShares coreAprRatio vaultAddress start blockTimestamps [] fee
          initial.liabilityShares initial.liquidityFee stop =
        .ok (fee + feeOf preTotalPooledEther preTotalShares coreAprRatio (initial, stop - start),
          initial.liabilityShares) := by
      intro fee stop hle
      rw [walkBack_nil hle, segmentFee_eq htotal]
      rfl
    have hwalk := walkBack_history htotal h.history hconnected h.timed h.within hearlier 0
    rw [List.append_nil, zero_add] at hwalk
    rw [calculateLiquidityFeeByEvents, sortedBy_key h.chronological hgiven, hwalk, accrued_eq htotal]
    rfl

/-- With a connection it is accrued from the last one on. -/
theorem calculateLiquidityFeeByEvents_connected (hsplit : changes = before ++ change :: after)
    (hchange : change.1.isConnected = true) (hafter : ∀ change ∈ after, ¬change.1.isConnected = true) :
    calculateLiquidityFeeByEvents preTotalPooledEther preTotalShares coreAprRatio vaultAddress start blockTimestamps
      (Timeline.last initial changes).liabilityShares (Timeline.last initial changes).liquidityFee vaultEvents stop =
    (accrued preTotalPooledEther preTotalShares coreAprRatio (Timeline.segments (timestampOf blockTimestamps) change.2
      (timestampOf blockTimestamps change.1) after stop) >>= fun fee => .ok (fee, 0)) := by
  by_cases htotal : preTotalShares = 0
  · subst htotal
    have hsegments : ∃ segment segments, Timeline.segments (timestampOf blockTimestamps) change.2
        (timestampOf blockTimestamps change.1) after stop = segment :: segments := by
      cases after with
      | nil => exact ⟨_, _, rfl⟩
      | cons change after => exact ⟨_, _, rfl⟩
    obtain ⟨segment, segments, hsegments⟩ := hsegments
    rw [calculateLiquidityFeeByEvents_zero h hgiven, hsegments, accrued_zero]
    rfl
  · subst hsplit
    obtain ⟨hhistory, pre, hpre⟩ := h.history.rest
    have hshares := shares_of_connected hpre hchange
    have hmem : ∀ c ∈ after, c ∈ before ++ change :: after := fun c hc =>
      List.mem_append_right _ (List.mem_cons_of_mem _ hc)
    have hearlier : ∀ (fee : ℚ) (stop : ℤ), timestampOf blockTimestamps change.1 ≤ stop →
        walkBack preTotalPooledEther preTotalShares coreAprRatio vaultAddress start blockTimestamps
          (change.1 :: (before.map Prod.fst).reverse) fee change.2.liabilityShares change.2.liquidityFee stop =
        .ok (fee + feeOf preTotalPooledEther preTotalShares coreAprRatio
          (change.2, stop - timestampOf blockTimestamps change.1), 0) := by
      intro fee stop hle
      rw [walkBack_step (h.timed change (List.mem_append_right _ List.mem_cons_self)) hle, segmentFee_eq htotal,
        Except.ok_bind, if_pos hchange, if_neg (not_not.mpr hshares), hshares]
    have hwalk := walkBack_history htotal hhistory hafter (fun c hc => h.timed c (hmem c hc)) h.within.rest hearlier 0
    rw [calculateLiquidityFeeByEvents, sortedBy_key h.chronological hgiven, Timeline.last_append_cons, List.map_append,
      List.map_cons, List.reverse_append, List.reverse_cons, List.append_assoc, List.singleton_append, hwalk,
      accrued_eq htotal, zero_add]
    rfl

end Recorded

/-- A vault without events takes a shorter way to the same fee. -/
theorem calculateVaultFeeComponents_nil {start stop : ℤ} (hle : start ≤ stop) (vaultInfo : VaultInfo)
    (vaultTotalValue : ℤ) :
    calculateVaultFeeComponents preTotalPooledEther preTotalShares coreAprRatio vaultAddress start blockTimestamps
      vaultInfo vaultTotalValue [] (stop - start) stop =
    (calculateLiquidityFeeByEvents preTotalPooledEther preTotalShares coreAprRatio vaultAddress start blockTimestamps
      vaultInfo.liabilityShares vaultInfo.liquidityFeeBp [] stop >>= fun fee =>
        .ok (calcFeeValue vaultTotalValue (stop - start) coreAprRatio vaultInfo.infraFeeBp,
          calcFeeValue vaultInfo.mintableStEth (stop - start) coreAprRatio vaultInfo.reservationFeeBp, fee.1, fee.2)) := by
  have hwalk := @walkBack_nil vaultAddress preTotalPooledEther preTotalShares coreAprRatio start blockTimestamps 0
    ⟨vaultInfo.liabilityShares, vaultInfo.liquidityFeeBp⟩ stop hle
  have hsorted : Sorted.sortedBy (fun e : VaultEventType => OrderDual.toDual e.key) [] = [] := rfl
  rw [calculateVaultFeeComponents, if_pos rfl, calculateLiquidityFeeByEvents, hsorted, hwalk, segmentFee]
  dsimp only
  cases (getStethByShares vaultInfo.liabilityShares preTotalPooledEther preTotalShares : Fees ℚ) with
  | error e => rfl
  | ok steth => simp only [Except.ok_bind, pure, Except.pure, zero_add]

end Accrual

/-- The backward walk over the events of a history, given in any order, finds the shares that the vault had at the
start and the fee that the consecutive segments accrue; after a connection it starts from there. -/
theorem calculateLiquidityFeeByEvents_forward (preTotalPooledEther : ℕ) (preTotalShares : Shares) (coreAprRatio : ℚ)
    (vaultAddress : ChecksumAddress) (blockTimestamps : Dict BlockNumber ℤ) (initial : VaultPosition)
    (changes : List (VaultEventType × VaultPosition)) (vaultEvents : List VaultEventType) (start stop : ℤ)
    (h : Recorded vaultAddress blockTimestamps initial changes start stop)
    (hgiven : vaultEvents.Perm (changes.map Prod.fst)) :
    ((∀ change ∈ changes, ¬change.1.isConnected = true) →
      calculateLiquidityFeeByEvents preTotalPooledEther preTotalShares coreAprRatio vaultAddress start blockTimestamps
        (Timeline.last initial changes).liabilityShares (Timeline.last initial changes).liquidityFee vaultEvents stop =
      (accrued preTotalPooledEther preTotalShares coreAprRatio
        (Timeline.segments (timestampOf blockTimestamps) initial start changes stop) >>= fun fee =>
          .ok (fee, initial.liabilityShares))) ∧
    (∀ before connection after, changes = before ++ connection :: after → connection.1.isConnected = true →
      (∀ change ∈ after, ¬change.1.isConnected = true) →
      calculateLiquidityFeeByEvents preTotalPooledEther preTotalShares coreAprRatio vaultAddress start blockTimestamps
        (Timeline.last initial changes).liabilityShares (Timeline.last initial changes).liquidityFee vaultEvents stop =
      (accrued preTotalPooledEther preTotalShares coreAprRatio (Timeline.segments (timestampOf blockTimestamps)
        connection.2 (timestampOf blockTimestamps connection.1) after stop) >>= fun fee => .ok (fee, 0))) ∧
    ∀ vaultInfo vaultTotalValue,
      calculateVaultFeeComponents preTotalPooledEther preTotalShares coreAprRatio vaultAddress start blockTimestamps
        vaultInfo vaultTotalValue [] (stop - start) stop =
      (calculateLiquidityFeeByEvents preTotalPooledEther preTotalShares coreAprRatio vaultAddress start blockTimestamps
        vaultInfo.liabilityShares vaultInfo.liquidityFeeBp [] stop >>= fun fee =>
          .ok (calcFeeValue vaultTotalValue (stop - start) coreAprRatio vaultInfo.infraFeeBp,
            calcFeeValue vaultInfo.mintableStEth (stop - start) coreAprRatio vaultInfo.reservationFeeBp, fee.1, fee.2)) :=
  ⟨calculateLiquidityFeeByEvents_unconnected h hgiven,
    fun _ _ _ hsplit hconnection hafter =>
      calculateLiquidityFeeByEvents_connected h hgiven hsplit hconnection hafter,
    fun vaultInfo vaultTotalValue => calculateVaultFeeComponents_nil h.within.nonempty vaultInfo vaultTotalValue⟩

/-- A vault burns all its shares, is connected again, mints in the same block, and has its fee rate and its bad debt
changed in another. -/
def connectedChanges : List (VaultEventType × VaultPosition) :=
  [(.burnedSharesOnVault ⟨0, 5⟩ "0xv" 100, ⟨0, 650⟩), (.vaultConnected ⟨1, 7⟩ "0xv" 500, ⟨0, 500⟩),
    (.mintedSharesOnVault ⟨2, 7⟩ "0xv" 40, ⟨40, 500⟩), (.vaultFeesUpdated ⟨0, 9⟩ "0xv" 500 800, ⟨40, 800⟩),
    (.badDebtSocialized ⟨3, 9⟩ "0xd" "0xv" 5, ⟨45, 800⟩)]

/-- A vault burns some of its shares, and its fee rate changes in the same block. -/
def burnedChanges : List (VaultEventType × VaultPosition) :=
  [(.burnedSharesOnVault ⟨0, 5⟩ "0xv" 60, ⟨40, 650⟩), (.vaultFeesUpdated ⟨1, 5⟩ "0xv" 650 800, ⟨40, 800⟩)]

def sampleTimestamps : Dict BlockNumber ℤ := Dict.ofList [(5, 60), (7, 90), (9, 120)]

theorem connectedChanges_recorded : Recorded "0xv" sampleTimestamps ⟨100, 650⟩ connectedChanges 0 180 where
  history := ⟨rfl, rfl, rfl, ⟨rfl, rfl⟩, .inr ⟨by decide, rfl, rfl⟩, trivial⟩
  chronological := by decide
  timed := by decide
  within := ⟨by decide, by decide, by decide, by decide⟩

theorem burnedChanges_recorded : Recorded "0xv" sampleTimestamps ⟨100, 650⟩ burnedChanges 0 120 where
  history := ⟨rfl, ⟨rfl, rfl⟩, trivial⟩
  chronological := by decide
  timed := by decide
  within := ⟨by decide, by decide, by decide, by decide⟩

/-- The events of the connected vault come latest block first, and those of the other one in the order of the chain. -/
theorem calculateLiquidityFeeByEvents_forward_sample :
    calculateLiquidityFeeByEvents 2629800 1 1 "0xv" 0 sampleTimestamps 45 800
      (connectedChanges.map Prod.fst).reverse 180 = .ok (5 + 18, 0) ∧
    calculateLiquidityFeeByEvents 2629800 1 1 "0xv" 0 sampleTimestamps 40 800
      (burnedChanges.map Prod.fst) 120 = .ok (65 / 2 + 16, 100) := by
  have hconnected := (calculateLiquidityFeeByEvents_forward 2629800 1 1 "0xv" sampleTimestamps ⟨100, 650⟩ connectedChanges
    (connectedChanges.map Prod.fst).reverse 0 180 connectedChanges_recorded (List.reverse_perm _)).2.1
    [_] _ [_, _, _] rfl rfl (by decide)
  have hburned := (calculateLiquidityFeeByEvents_forward 2629800 1 1 "0xv" sampleTimestamps ⟨100, 650⟩ burnedChanges
    (burnedChanges.map Prod.fst) 0 120 burnedChanges_recorded (List.Perm.refl _)).1 (by decide)
  have hfirst : accrued 2629800 1 1 [(⟨0, 500⟩, 0), (⟨40, 500⟩, 30), (⟨40, 800⟩, 0), (⟨45, 800⟩, 60)] = .ok (5 + 18) := by
    rw [accrued_eq (by decide)]
    norm_num [feeOf, calcFeeValue, SECONDS_IN_YEAR, TOTAL_BASIS_POINTS]
  have hsecond : accrued 2629800 1 1 [(⟨100, 650⟩, 60), (⟨40, 650⟩, 0), (⟨40, 800⟩, 60)] = .ok (65 / 2 + 16) := by
    rw [accrued_eq (by decide)]
    norm_num [feeOf, calcFeeValue, SECONDS_IN_YEAR, TOTAL_BASIS_POINTS]
  exact ⟨hconnected.trans (congrArg (fun accrual : Fees ℚ => accrual >>= fun fee => .ok (fee, (0 : Shares))) hfirst),
    hburned.trans (congrArg (fun accrual : Fees ℚ => accrual >>= fun fee => .ok (fee, (100 : Shares))) hsecond)⟩

end StakingVaultsService

end LidoOracle
