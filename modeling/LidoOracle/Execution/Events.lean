import LidoOracle.Consensus.NonMissedSlot
import LidoOracle.Execution.BlockTimestamps

/-! Contract events of the last slots before a reference slot. The slots become a
range of blocks, with as many blocks as slots at most, and the timestamps of the
events cut the range off at the right slot. -/

namespace LidoOracle

inductive EventsError where
  | inconsistentEvents
  deriving DecidableEq, Repr

abbrev Events := Py EventsError

/-- A contract event: where its logs come from, and what the oracle reads of them -/
structure ContractEvent (ε : Type) where
  getLogs : BlockNumber → BlockNumber → List ε
  blockNumber : ε → BlockNumber
  /-- `event['args'][timestamp_field_name]` -/
  timestampField : ε → ℤ

/-- A request for logs, with its answer -/
structure LogsRequest (ε : Type) where
  fromBlock : BlockNumber
  toBlock : BlockNumber
  events : List ε

/-- Where a step does not reach the end, it leaves less to ask for. -/
theorem rest_lt {l r step : ℕ} (h : ¬min r (l + step) = r) : r - (min r (l + step) + 1) < r - l := by
  omega

namespace ContractEvent

variable {ε : Type} (event : ContractEvent ε) (eventsSearchStep : ℕ)

/-- The loop of `get_events_in_range` -/
def requestRange (lBlock rBlock : BlockNumber) : Events (List (LogsRequest ε)) := do
  let toBlock := min rBlock (lBlock + eventsSearchStep)
  let events := event.getLogs lBlock toBlock
  if ¬∀ e ∈ events, lBlock ≤ event.blockNumber e ∧ event.blockNumber e ≤ toBlock then
    throw (.raised .inconsistentEvents)
  if h : toBlock = rBlock then return [⟨lBlock, toBlock, events⟩]
  else
    let rest ← requestRange (toBlock + 1) rBlock
    return ⟨lBlock, toBlock, events⟩ :: rest
termination_by rBlock - lBlock
decreasing_by exact rest_lt h

def getEventsInRange (lBlock rBlock : BlockNumber) : Events (List ε) :=
  if lBlock > rBlock then .error .valueError
  else do
    let requests ← event.requestRange eventsSearchStep lBlock rBlock
    return requests.flatMap LogsRequest.events

def getEventsInPast (toBlockstamp : ReferenceBlockStamp) (forSlots : ℤ) (secondsPerSlot : ℕ) : Events (List ε) :=
  let refSlotShift : ℤ := (toBlockstamp.refSlot : ℤ) - toBlockstamp.slotNumber
  let forSlotsWithoutMissedBlocks := forSlots - refSlotShift
  if forSlotsWithoutMissedBlocks ≤ 0 then .ok []
  else do
    let fromBlock := (max 0 ((toBlockstamp.blockNumber : ℤ) - forSlotsWithoutMissedBlocks)).toNat
    let fromTimestamp : ℤ := toBlockstamp.blockTimestamp - forSlotsWithoutMissedBlocks * secondsPerSlot
    let events ← event.getEventsInRange eventsSearchStep fromBlock toBlockstamp.blockNumber
    return events.filter fun e => decide (event.timestampField e > fromTimestamp)

/-- The node returns every event of the blocks asked for, once. -/
def Returns (events : List ε) : Prop :=
  ∀ l r : ℕ, (event.getLogs l r).Perm (events.filter fun e => l ≤ event.blockNumber e ∧ event.blockNumber e ≤ r)

end ContractEvent

/-- Consecutive ranges that together are the range from `l` to `r` -/
inductive Tiles (r : BlockNumber) : BlockNumber → List (BlockNumber × BlockNumber) → Prop where
  | last {l : BlockNumber} (hle : l ≤ r) : Tiles r l [(l, r)]
  | cons {l m : BlockNumber} {rest : List (BlockNumber × BlockNumber)} (hle : l ≤ m) (hlt : m < r)
      (hrest : Tiles r (m + 1) rest) : Tiles r l ((l, m) :: rest)

/-- The block of the latest slot up to the reference slot -/
structure ExecutionChain.IsReference (chain : ExecutionChain) (blockstamp : ReferenceBlockStamp) : Prop where
  onChain : blockstamp.blockNumber ≤ chain.head
  slotNumber : blockstamp.slotNumber = chain.slot blockstamp.blockNumber
  blockTimestamp : (blockstamp.blockTimestamp : ℤ) = chain.timestamp blockstamp.blockNumber
  before : blockstamp.slotNumber ≤ blockstamp.refSlot
  latest : ∀ b ≤ chain.head, chain.slot b ≤ blockstamp.refSlot → chain.slot b ≤ blockstamp.slotNumber

namespace ContractEvent

section Range

variable {ε : Type} {event : ContractEvent ε} {events : List ε} {l r : ℕ}

/-- The events of two adjoining ranges -/
theorem filter_range_perm {m : ℕ} (hl : l ≤ m + 1) (hr : m ≤ r) :
    ((events.filter fun e => l ≤ event.blockNumber e ∧ event.blockNumber e ≤ m) ++
      events.filter fun e => m + 1 ≤ event.blockNumber e ∧ event.blockNumber e ≤ r).Perm
      (events.filter fun e => l ≤ event.blockNumber e ∧ event.blockNumber e ≤ r) := by
  have hsplit := List.filter_append_perm (fun e => decide (event.blockNumber e ≤ m))
    (events.filter fun e => l ≤ event.blockNumber e ∧ event.blockNumber e ≤ r)
  rw [List.filter_filter, List.filter_filter] at hsplit
  have hfirst : (events.filter fun e => decide (event.blockNumber e ≤ m) &&
      decide (l ≤ event.blockNumber e ∧ event.blockNumber e ≤ r)) =
      events.filter fun e => l ≤ event.blockNumber e ∧ event.blockNumber e ≤ m := by
    refine List.filter_congr fun e _ => ?_
    rw [← Bool.decide_and, decide_eq_decide]
    exact ⟨fun h => ⟨h.2.1, h.1⟩, fun h => ⟨h.2, h.1, h.2.trans hr⟩⟩
  have hsecond : (events.filter fun e => (!decide (event.blockNumber e ≤ m)) &&
      decide (l ≤ event.blockNumber e ∧ event.blockNumber e ≤ r)) =
      events.filter fun e => m + 1 ≤ event.blockNumber e ∧ event.blockNumber e ≤ r := by
    refine List.filter_congr fun e _ => ?_
    rw [← decide_not, ← Bool.decide_and, decide_eq_decide, not_le, Nat.lt_iff_add_one_le]
    exact ⟨fun h => ⟨h.1, h.2.2⟩, fun h => ⟨h.1, hl.trans h.1, h.2⟩⟩
  rw [hfirst, hsecond] at hsplit
  exact hsplit

/-- The sub-ranges tile the range, and their answers make up its events. -/
theorem requestRange_spec (hreturns : event.Returns events) (step : ℕ) (hle : l ≤ r) :
    ∃ requests, event.requestRange step l r = .ok requests ∧
      Tiles r l (requests.map fun q => (q.fromBlock, q.toBlock)) ∧
      (requests.flatMap LogsRequest.events).Perm
        (events.filter fun e => l ≤ event.blockNumber e ∧ event.blockNumber e ≤ r) := by
  induction hmeasure : r - l using Nat.strong_induction_on generalizing l with
  | _ n ih =>
    have hlow : l ≤ min r (l + step) := Nat.le_min.mpr ⟨hle, Nat.le_add_right l step⟩
    have hhigh : min r (l + step) ≤ r := Nat.min_le_left _ _
    have hanswer := hreturns l (min r (l + step))
    have hinside : ∀ e ∈ event.getLogs l (min r (l + step)),
        l ≤ event.blockNumber e ∧ event.blockNumber e ≤ min r (l + step) := fun e he =>
      of_decide_eq_true (List.mem_filter.mp (hanswer.mem_iff.mp he)).2
    rw [requestRange]
    dsimp only
    rw [if_neg (not_not_intro hinside)]
    by_cases hend : min r (l + step) = r
    · refine ⟨[⟨l, r, event.getLogs l r⟩], ?_, .last hle, ?_⟩
      · rw [dif_pos hend, hend]
        rfl
      · rw [hend] at hanswer
        simpa using hanswer
    · have hlt : min r (l + step) < r := Nat.lt_of_le_of_ne hhigh hend
      obtain ⟨rest, hrest, htiles, hperm⟩ := @ih (r - (min r (l + step) + 1)) (hmeasure ▸ rest_lt hend)
        (min r (l + step) + 1) hlt rfl
      refine ⟨⟨l, min r (l + step), event.getLogs l (min r (l + step))⟩ :: rest, ?_, .cons hlow hlt htiles, ?_⟩
      · rw [dif_neg hend, hrest]
        rfl
      · rw [List.flatMap_cons]
        exact (hanswer.append hperm).trans (filter_range_perm (Nat.le_succ_of_le hlow) hhigh)

end Range

theorem getEventsInRange_perm {ε : Type} {event : ContractEvent ε} {events : List ε} {l r : ℕ}
    (hreturns : event.Returns events) (step : ℕ) (hle : l ≤ r) :
    ∃ found, event.getEventsInRange step l r = .ok found ∧
      found.Perm (events.filter fun e => l ≤ event.blockNumber e ∧ event.blockNumber e ≤ r) := by
  obtain ⟨requests, hrequests, -, hperm⟩ := requestRange_spec hreturns step hle
  refine ⟨requests.flatMap LogsRequest.events, ?_, hperm⟩
  unfold getEventsInRange
  rw [if_neg (not_lt.mpr hle), hrequests]
  rfl

section Window

variable {chain : ExecutionChain} {blockstamp : ReferenceBlockStamp} {forSlots : ℤ} {b : ℕ}

/-- A block of the window is at most as many blocks away as the window has slots. -/
theorem blockNumber_near (href : chain.IsReference blockstamp) (hb : b ≤ blockstamp.blockNumber) :
    (blockstamp.blockNumber : ℤ) - b ≤ (blockstamp.slotNumber : ℤ) - chain.slot b := by
  have hslots := ExecutionChain.slot_add_le hb href.onChain
  rw [href.slotNumber]
  omega

/-- The test of the timestamp is a test of the slot. -/
theorem timestamp_gt_iff (href : chain.IsReference blockstamp) (n : ℤ) :
    chain.timestamp b > blockstamp.blockTimestamp - n * chain.secondsPerSlot ↔
      (blockstamp.slotNumber : ℤ) - n < chain.slot b := by
  have hpos : (0 : ℤ) < chain.secondsPerSlot := Int.ofNat_lt.mpr chain.secondsPerSlot_pos
  rw [href.blockTimestamp, href.slotNumber]
  unfold ExecutionChain.timestamp
  have hmul : (chain.genesisTime : ℤ) + chain.slot blockstamp.blockNumber * chain.secondsPerSlot -
      n * chain.secondsPerSlot = chain.genesisTime + (chain.slot blockstamp.blockNumber - n) * chain.secondsPerSlot := by
    ring
  rw [hmul, gt_iff_lt, add_lt_add_iff_left]
  exact mul_lt_mul_iff_left₀ hpos

/-- Blocks up to the reference slot are those up to the reference block. -/
theorem slot_le_iff (href : chain.IsReference blockstamp) (hb : b ≤ chain.head) :
    chain.slot b ≤ blockstamp.refSlot ↔ b ≤ blockstamp.blockNumber := by
  refine ⟨fun h => ?_, fun h => ?_⟩
  · by_contra hlt
    have hlater := chain.slot_lt (not_le.mp hlt) hb
    have hlatest := href.latest b hb h
    rw [href.slotNumber] at hlatest
    exact absurd hlater (not_lt.mpr hlatest)
  · have hslots := ExecutionChain.slot_add_le h href.onChain
    have hbefore := href.before
    rw [href.slotNumber] at hbefore
    exact (Nat.le_of_add_right_le hslots).trans hbefore

end Window

/-- The events of the last `forSlots` slots up to the reference slot, each once, from consecutive
sub-ranges that cover every range asked for -/
theorem getEventsInPast_exact {ε : Type} (event : ContractEvent ε) (events : List ε) (chain : ExecutionChain)
    (blockstamp : ReferenceBlockStamp) (forSlots : ℤ) (eventsSearchStep : ℕ) (hreturns : event.Returns events)
    (hevents : ∀ e ∈ events, event.blockNumber e ≤ chain.head ∧
      event.timestampField e = chain.timestamp (event.blockNumber e))
    (href : chain.IsReference blockstamp) :
    (∃ found, event.getEventsInPast eventsSearchStep blockstamp forSlots chain.secondsPerSlot = .ok found ∧
      found.Perm (events.filter fun e => (blockstamp.refSlot : ℤ) - forSlots < chain.slot (event.blockNumber e) ∧
        chain.slot (event.blockNumber e) ≤ blockstamp.refSlot)) ∧
    ∀ l r : BlockNumber, l ≤ r → ∃ requests, event.requestRange eventsSearchStep l r = .ok requests ∧
      event.getEventsInRange eventsSearchStep l r = .ok (requests.flatMap LogsRequest.events) ∧
      Tiles r l (requests.map fun q => (q.fromBlock, q.toBlock)) := by
  refine ⟨?_, fun l r hle => ?_⟩
  · unfold getEventsInPast
    dsimp only
    generalize hn : forSlots - ((blockstamp.refSlot : ℤ) - blockstamp.slotNumber) = n
    by_cases hnone : n ≤ 0
    · refine ⟨[], if_pos hnone, ?_⟩
      rw [List.filter_eq_nil_iff.mpr]
      intro e he hwindow
      obtain ⟨hlow, hhigh⟩ := of_decide_eq_true hwindow
      have hlatest := Int.ofNat_le.mpr (href.latest _ (hevents e he).1 hhigh)
      omega
    · have hfrom : (max 0 ((blockstamp.blockNumber : ℤ) - n)).toNat ≤ blockstamp.blockNumber := by
        generalize (blockstamp.blockNumber : ℕ) = number
        omega
      obtain ⟨found, hfound, hperm⟩ := getEventsInRange_perm hreturns eventsSearchStep hfrom
      rw [if_neg hnone, hfound, Except.ok_bind]
      refine ⟨_, rfl, (hperm.filter _).trans ?_⟩
      rw [List.filter_filter]
      refine List.Perm.of_eq (List.filter_congr fun e he => ?_)
      obtain ⟨hhead, hstamp⟩ := hevents e he
      rw [← Bool.decide_and, decide_eq_decide, hstamp, timestamp_gt_iff href, slot_le_iff href hhead]
      refine ⟨fun h => ⟨by omega, h.2.2⟩, fun h => ⟨by omega, ?_, h.2⟩⟩
      have hnear := blockNumber_near href h.2
      have hlow := h.1
      generalize event.blockNumber e = b at hnear hlow ⊢
      generalize (blockstamp.blockNumber : ℕ) = number at hnear ⊢
      omega
  · obtain ⟨requests, hrequests, htiles, -⟩ := requestRange_spec hreturns eventsSearchStep hle
    refine ⟨requests, hrequests, ?_, htiles⟩
    unfold getEventsInRange
    rw [if_neg (not_lt.mpr hle), hrequests]
    rfl

/-- One event in each of the blocks 0, 1 and 2; the slots 2, 3 and 4 are missed. -/
def lateBlockEvents : List (ℕ × ℤ) := [(0, 100), (1, 112), (2, 160)]

def lateBlockEvent : ContractEvent (ℕ × ℤ) where
  getLogs l r := lateBlockEvents.filter fun e => l ≤ e.1 ∧ e.1 ≤ r
  blockNumber := Prod.fst
  timestampField := Prod.snd

theorem getEventsInPast_exact_lateBlock :
    ∃ found, lateBlockEvent.getEventsInPast 0 ⟨⟨"0x01", 1, "0x02", 1, 112⟩, 4, 0⟩ 4 12 = .ok found ∧
      found.Perm (lateBlockEvents.filter fun e => (4 : ℤ) - 4 < ExecutionClient.lateBlockClient.chain.slot e.1 ∧
        ExecutionClient.lateBlockClient.chain.slot e.1 ≤ 4) :=
  (getEventsInPast_exact lateBlockEvent lateBlockEvents ExecutionClient.lateBlockClient.chain
    ⟨⟨"0x01", 1, "0x02", 1, 112⟩, 4, 0⟩ 4 0 (fun _ _ => List.Perm.refl _) (by decide)
    ⟨by decide, rfl, by decide, by decide, by decide⟩).1

end ContractEvent

end LidoOracle
