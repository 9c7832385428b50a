import LidoOracle.Consensus.Deposits
import LidoOracle.Lib.Dict

/-! The front-run filter over the pending-deposit queue, compared with what the
consensus layer makes of the same queue, key by key. -/

namespace LidoOracle

open Consensus

/-- The dictionary being built, and the keys that a front run has spoiled -/
structure CollectState where
  result : Dict HexStr (List PendingDeposit)
  invalidKeys : List HexStr

def CollectState.initial : CollectState := ⟨Dict.empty, []⟩

/-- The loop body of `_collect_valid_pending_deposits` -/
def collectStep (rules : DepositRules) (filterPubkeys : List HexStr) (state : CollectState) (d : PendingDeposit) :
    CollectState :=
  if d.pubkey ∉ filterPubkeys then state
  else if d.pubkey ∈ state.result then { state with result := state.result.modify d.pubkey (· ++ [d]) }
  else if d.pubkey ∈ state.invalidKeys then state
  else if !rules.isValidDepositSignature d then state
  else if d.withdrawalCredentials ∈ rules.lidoWcList then { state with result := state.result.set d.pubkey [d] }
  else { state with invalidKeys := state.invalidKeys ++ [d.pubkey] }

def collectValidPendingDeposits (rules : DepositRules) (pendingDeposits : List PendingDeposit)
    (filterPubkeys : List HexStr) : Dict HexStr (List PendingDeposit) :=
  (pendingDeposits.foldl (collectStep rules filterPubkeys) CollectState.initial).result

/-! The loop as one key sees it -/

inductive KeyStatus where
  | unseen
  | lido (deposits : List PendingDeposit)
  | foreign
  deriving DecidableEq

def CollectState.status (state : CollectState) (pubkey : HexStr) : KeyStatus :=
  match state.result.get? pubkey with
  | some deposits => .lido deposits
  | none => if pubkey ∈ state.invalidKeys then .foreign else .unseen

def KeyStatus.next (rules : DepositRules) (status : KeyStatus) (d : PendingDeposit) : KeyStatus :=
  match status with
  | .unseen =>
    if rules.isValidDepositSignature d then
      if d.withdrawalCredentials ∈ rules.lidoWcList then .lido [d] else .foreign
    else .unseen
  | .lido deposits => .lido (deposits ++ [d])
  | .foreign => .foreign

/-- What the consensus layer holds for a key of each status -/
def KeyStatus.Matches (rules : DepositRules) : KeyStatus → Option KeyBalance → Prop
  | .unseen, key => key = none
  | .lido deposits, key => ∃ k, key = some k ∧ k.withdrawalCredentials ∈ rules.lidoWcList ∧ k.balance = amountOf deposits
  | .foreign, key => ∃ k, key = some k ∧ k.withdrawalCredentials ∉ rules.lidoWcList

section Status

variable {rules : DepositRules} {filterPubkeys : List HexStr} {pubkey : HexStr} {status : KeyStatus}

theorem status_initial (pubkey : HexStr) : CollectState.initial.status pubkey = .unseen := rfl

theorem collectStep_of_ne (state : CollectState) {d : PendingDeposit} (h : pubkey ≠ d.pubkey) :
    (collectStep rules filterPubkeys state d).status pubkey = state.status pubkey := by
  have hresult : (collectStep rules filterPubkeys state d).result.get? pubkey = state.result.get? pubkey := by
    unfold collectStep
    split_ifs <;> simp [Dict.get?_modify, Dict.get?_set, h]
  have hinvalid : pubkey ∈ (collectStep rules filterPubkeys state d).invalidKeys ↔ pubkey ∈ state.invalidKeys := by
    unfold collectStep
    split_ifs <;> simp [h]
  simp only [CollectState.status, hresult, hinvalid]

theorem collectStep_of_not_mem (h : pubkey ∉ filterPubkeys) (state : CollectState) (d : PendingDeposit) :
    (collectStep rules filterPubkeys state d).status pubkey = state.status pubkey := by
  by_cases hd : d.pubkey ∈ filterPubkeys
  · exact collectStep_of_ne state fun e => h (e ▸ hd)
  · rw [collectStep, if_pos hd]

theorem collectStep_own (state : CollectState) {d : PendingDeposit} (h : d.pubkey ∈ filterPubkeys) :
    (collectStep rules filterPubkeys state d).status d.pubkey = (state.status d.pubkey).next rules d := by
  unfold collectStep CollectState.status
  rw [if_neg (not_not_intro h)]
  cases hget : state.result.get? d.pubkey with
  | some deposits =>
    rw [if_pos (Dict.mem_of_get? hget)]
    simp only [Dict.get?_modify, hget]
    rfl
  | none =>
    rw [if_neg (Dict.get?_eq_none_iff.mp hget)]
    by_cases hinvalid : d.pubkey ∈ state.invalidKeys
    · simp [hinvalid, hget, KeyStatus.next]
    · by_cases hvalid : rules.isValidDepositSignature d = true
      · by_cases hwc : d.withdrawalCredentials ∈ rules.lidoWcList
        · simp [hinvalid, hvalid, hwc, Dict.get?_set, KeyStatus.next]
        · simp [hinvalid, hvalid, hwc, hget, KeyStatus.next]
      · simp [hinvalid, hvalid, hget, KeyStatus.next]

/-- The loop runs each filtered key's own machine over that key's own deposits. -/
theorem collect_status (h : pubkey ∈ filterPubkeys) (deposits : List PendingDeposit) (state : CollectState) :
    (deposits.foldl (collectStep rules filterPubkeys) state).status pubkey =
      (depositsOf deposits pubkey).foldl (KeyStatus.next rules) (state.status pubkey) := by
  induction deposits generalizing state with
  | nil => rfl
  | cons d deposits ih =>
    rw [List.foldl_cons, ih]
    by_cases hd : d.pubkey = pubkey
    · subst hd
      rw [collectStep_own state h, depositsOf_cons_self, List.foldl_cons]
    · rw [collectStep_of_ne state (Ne.symm hd), depositsOf_cons_of_ne hd]

theorem collect_status_of_not_mem (h : pubkey ∉ filterPubkeys) (deposits : List PendingDeposit) (state : CollectState) :
    (deposits.foldl (collectStep rules filterPubkeys) state).status pubkey = state.status pubkey := by
  induction deposits generalizing state with
  | nil => rfl
  | cons d deposits ih => rw [List.foldl_cons, ih, collectStep_of_not_mem h]

theorem matches_unseen : KeyStatus.unseen.Matches rules none := rfl

/-- One deposit of the key keeps the two sides matched. -/
theorem matches_next {key : Option KeyBalance} (h : status.Matches rules key) (d : PendingDeposit) :
    (status.next rules d).Matches rules (KeyBalance.next rules.isValidDepositSignature key d) := by
  cases status with
  | unseen =>
    change key = none at h
    subst h
    unfold KeyStatus.next KeyBalance.next
    split_ifs with hvalid hwc
    · exact ⟨_, rfl, hwc, by simp [amountOf]⟩
    · exact ⟨_, rfl, hwc⟩
    · rfl
  | lido deposits =>
    obtain ⟨k, rfl, hwc, hbalance⟩ := h
    exact ⟨_, rfl, hwc, by simp [amountOf, hbalance]⟩
  | foreign =>
    obtain ⟨k, rfl, hwc⟩ := h
    exact ⟨_, rfl, hwc⟩

theorem matches_foldl {key : Option KeyBalance} (h : status.Matches rules key) (deposits : List PendingDeposit) :
    (deposits.foldl (KeyStatus.next rules) status).Matches rules
      (deposits.foldl (KeyBalance.next rules.isValidDepositSignature) key) := by
  induction deposits generalizing status key with
  | nil => exact h
  | cons d deposits ih => exact ih (matches_next h d)

theorem foldl_next_lido (deposits later : List PendingDeposit) :
    later.foldl (KeyStatus.next rules) (.lido deposits) = .lido (deposits ++ later) := by
  induction later generalizing deposits with
  | nil => simp
  | cons d later ih =>
    rw [List.foldl_cons, KeyStatus.next, ih]
    simp

theorem foldl_next_foreign (later : List PendingDeposit) : later.foldl (KeyStatus.next rules) .foreign = .foreign := by
  induction later with
  | nil => rfl
  | cons d later ih => exact ih

/-- What is collected for a key starts at its first valid signature. -/
theorem foldl_next_unseen {deposits collected : List PendingDeposit}
    (h : deposits.foldl (KeyStatus.next rules) .unseen = .lido collected) :
    collected = deposits.dropWhile fun d => !rules.isValidDepositSignature d := by
  induction deposits with
  | nil => cases h
  | cons d deposits ih =>
    rw [List.foldl_cons, KeyStatus.next] at h
    split_ifs at h with hvalid hwc
    · rw [foldl_next_lido] at h
      cases h
      rw [List.dropWhile_cons_of_neg (by simp [hvalid])]
      rfl
    · rw [foldl_next_foreign] at h
      cases h
    · rw [List.dropWhile_cons_of_pos (by simp [hvalid])]
      exact ih h

/-- A spoiled key has a first valid signature over foreign credentials. -/
theorem foldl_next_unseen_foreign {deposits : List PendingDeposit}
    (h : deposits.foldl (KeyStatus.next rules) .unseen = .foreign) :
    ∃ d, deposits.find? rules.isValidDepositSignature = some d ∧ d.withdrawalCredentials ∉ rules.lidoWcList := by
  induction deposits with
  | nil => cases h
  | cons d deposits ih =>
    rw [List.foldl_cons, KeyStatus.next] at h
    split_ifs at h with hvalid hwc
    · rw [foldl_next_lido] at h
      cases h
    · exact ⟨d, List.find?_cons_of_pos hvalid, hwc⟩
    · rw [List.find?_cons_of_neg hvalid]
      exact ih h

end Status

section Collect

variable {rules : DepositRules} {filterPubkeys : List HexStr} {pubkey : HexStr}

theorem collect_get? {deposits collected : List PendingDeposit} :
    (collectValidPendingDeposits rules deposits filterPubkeys).get? pubkey = some collected ↔
      pubkey ∈ filterPubkeys ∧ (depositsOf deposits pubkey).foldl (KeyStatus.next rules) .unseen = .lido collected := by
  have hstatus : (collectValidPendingDeposits rules deposits filterPubkeys).get? pubkey = some collected ↔
      (deposits.foldl (collectStep rules filterPubkeys) CollectState.initial).status pubkey = .lido collected := by
    unfold collectValidPendingDeposits CollectState.status
    split
    · next ds hget => rw [hget, Option.some.injEq, KeyStatus.lido.injEq]
    · next hget =>
      rw [hget]
      split_ifs <;> simp
  rw [hstatus]
  by_cases h : pubkey ∈ filterPubkeys
  · rw [collect_status h, status_initial]
    exact (and_iff_right h).symm
  · rw [collect_status_of_not_mem h, status_initial]
    exact iff_of_false (fun e => by cases e) fun e => h e.1

def KeyStatus.amount : KeyStatus → Gwei
  | .lido deposits => amountOf deposits
  | _ => 0

/-- What the pending queue is worth for one filtered key -/
def pendingAt (rules : DepositRules) (deposits : List PendingDeposit) (pubkey : HexStr) : Gwei :=
  ((depositsOf deposits pubkey).foldl (KeyStatus.next rules) .unseen).amount

section PendingAt

variable {d : PendingDeposit} {rest : List PendingDeposit}

theorem pendingAt_cons_of_ne (h : d.pubkey ≠ pubkey) : pendingAt rules (d :: rest) pubkey = pendingAt rules rest pubkey := by
  rw [pendingAt, depositsOf_cons_of_ne h, pendingAt]

/-- The head of the queue settles its key, unless its signature is bad. -/
theorem pendingAt_cons_self : pendingAt rules (d :: rest) d.pubkey =
    if rules.isValidDepositSignature d then
      if d.withdrawalCredentials ∈ rules.lidoWcList then amountOf (depositsOf (d :: rest) d.pubkey) else 0
    else pendingAt rules rest d.pubkey := by
  rw [pendingAt, depositsOf_cons_self, List.foldl_cons, KeyStatus.next]
  split_ifs
  · rw [foldl_next_lido]
    rfl
  · rw [foldl_next_foreign]
    rfl
  · rfl

/-- A well-signed Lido deposit at the end of the queue adds its amount, unless the key is spoiled. -/
theorem pendingAt_snoc {deposits : List PendingDeposit} (hvalid : rules.isValidDepositSignature d = true)
    (hwc : d.withdrawalCredentials ∈ rules.lidoWcList)
    (hfirst : ∀ d', (depositsOf deposits d.pubkey).find? rules.isValidDepositSignature = some d' →
      d'.withdrawalCredentials ∈ rules.lidoWcList) :
    pendingAt rules (deposits ++ [d]) d.pubkey = pendingAt rules deposits d.pubkey + d.amount := by
  have hqueue : depositsOf (deposits ++ [d]) d.pubkey = depositsOf deposits d.pubkey ++ [d] := by
    simp [depositsOf, List.filter_append]
  rw [pendingAt, pendingAt, hqueue, List.foldl_append, List.foldl_cons, List.foldl_nil]
  cases hstatus : (depositsOf deposits d.pubkey).foldl (KeyStatus.next rules) .unseen with
  | unseen => simp [KeyStatus.next, hvalid, hwc, KeyStatus.amount, amountOf]
  | lido collected => simp [KeyStatus.next, KeyStatus.amount, amountOf]
  | foreign =>
    obtain ⟨d', hd', hforeign⟩ := foldl_next_unseen_foreign hstatus
    exact absurd (hfirst d' hd') hforeign

end PendingAt

theorem mem_filter_of_collected (deposits : List PendingDeposit)
    (h : pubkey ∈ collectValidPendingDeposits rules deposits filterPubkeys) : pubkey ∈ filterPubkeys := by
  obtain ⟨collected, hget⟩ := Dict.mem_iff_exists_get?.mp h
  exact (collect_get?.mp hget).1

theorem amount_collected (deposits : List PendingDeposit) (h : pubkey ∈ filterPubkeys) :
    (((collectValidPendingDeposits rules deposits filterPubkeys).get? pubkey).map amountOf).getD 0 =
      pendingAt rules deposits pubkey := by
  unfold pendingAt
  cases hstatus : (depositsOf deposits pubkey).foldl (KeyStatus.next rules) .unseen with
  | lido collected =>
    rw [collect_get?.mpr ⟨h, hstatus⟩]
    rfl
  | _ =>
    have hnone : (collectValidPendingDeposits rules deposits filterPubkeys).get? pubkey = none := by
      rw [Option.eq_none_iff_forall_ne_some]
      intro collected hget
      rw [(collect_get?.mp hget).2] at hstatus
      cases hstatus
    rw [hnone]
    rfl

theorem sum_collected (deposits : List PendingDeposit) (h : filterPubkeys.Nodup) :
    ((collectValidPendingDeposits rules deposits filterPubkeys).values.map amountOf).sum =
      (filterPubkeys.map (pendingAt rules deposits)).sum := by
  rw [Dict.sum_values _ amountOf h fun k hk => mem_filter_of_collected deposits hk]
  exact congrArg List.sum (List.map_congr_left fun k hk => amount_collected deposits hk)

/-- The filter keeps a key exactly when the queue gives it a validator with Lido credentials,
and what it keeps, in queue order from the first valid signature on, is that validator's balance. -/
theorem collectValidPendingDeposits_consensus (rules : DepositRules) (validators : List Validator)
    (deposits : List PendingDeposit) (filterPubkeys : List HexStr)
    (hnew : ∀ k ∈ filterPubkeys, find validators k = none) (pubkey : HexStr) :
    (pubkey ∈ collectValidPendingDeposits rules deposits filterPubkeys ↔
      pubkey ∈ filterPubkeys ∧
        ∃ v, find (applyPendingDeposits rules.isValidDepositSignature validators deposits) pubkey = some v ∧
          v.validator.withdrawalCredentials ∈ rules.lidoWcList) ∧
    ∀ collected, (collectValidPendingDeposits rules deposits filterPubkeys).get? pubkey = some collected →
      collected.Sublist deposits ∧
        collected = (depositsOf deposits pubkey).dropWhile (fun d => !rules.isValidDepositSignature d) ∧
        ∃ v, find (applyPendingDeposits rules.isValidDepositSignature validators deposits) pubkey = some v ∧
          v.balance = amountOf collected := by
  have hrun := @keyBalance_applyPendingDeposits rules.isValidDepositSignature validators deposits pubkey
  have hmatch : pubkey ∈ filterPubkeys →
      ((depositsOf deposits pubkey).foldl (KeyStatus.next rules) .unseen).Matches rules
        (keyBalance (applyPendingDeposits rules.isValidDepositSignature validators deposits) pubkey) := by
    intro hmem
    have hnone : keyBalance validators pubkey = none := by rw [keyBalance, hnew pubkey hmem]; rfl
    rw [hrun, hnone]
    exact matches_foldl matches_unseen _
  have hlido : ∀ {collected}, (collectValidPendingDeposits rules deposits filterPubkeys).get? pubkey = some collected →
      pubkey ∈ filterPubkeys ∧
        ∃ v, find (applyPendingDeposits rules.isValidDepositSignature validators deposits) pubkey = some v ∧
          v.validator.withdrawalCredentials ∈ rules.lidoWcList ∧ v.balance = amountOf collected := by
    intro collected hget
    obtain ⟨hmem, hstatus⟩ := collect_get?.mp hget
    have hkey := hmatch hmem
    rw [hstatus] at hkey
    obtain ⟨k, hk, hwc, hbalance⟩ := hkey
    obtain ⟨v, hv, rfl⟩ := Option.map_eq_some_iff.mp hk
    exact ⟨hmem, v, hv, hwc, hbalance⟩
  refine ⟨⟨fun h => ?_, ?_⟩, fun collected hget => ⟨?_, ?_, ?_⟩⟩
  · obtain ⟨collected, hget⟩ := Dict.mem_iff_exists_get?.mp h
    obtain ⟨hmem, v, hv, hwc, -⟩ := hlido hget
    exact ⟨hmem, v, hv, hwc⟩
  · intro ⟨hmem, v, hv, hwc⟩
    have hkey := hmatch hmem
    have hk : keyBalance (applyPendingDeposits rules.isValidDepositSignature validators deposits) pubkey =
        some ⟨v.validator.withdrawalCredentials, v.balance⟩ := by rw [keyBalance, hv]; rfl
    rw [hk] at hkey
    cases hstatus : (depositsOf deposits pubkey).foldl (KeyStatus.next rules) .unseen with
    | unseen => rw [hstatus] at hkey; cases hkey
    | lido collected => exact Dict.mem_of_get? (collect_get?.mpr ⟨hmem, hstatus⟩)
    | foreign =>
      rw [hstatus] at hkey
      obtain ⟨k, hsome, hforeign⟩ := hkey
      cases hsome
      exact absurd hwc hforeign
  · rw [foldl_next_unseen (collect_get?.mp hget).2]
    exact (List.dropWhile_sublist _).trans List.filter_sublist
  · exact foldl_next_unseen (collect_get?.mp hget).2
  · obtain ⟨-, v, hv, -, hbalance⟩ := hlido hget
    exact ⟨v, hv, hbalance⟩

/-- A badly signed foreign deposit, then a Lido deposit and a foreign top-up of one key -/
theorem collectValidPendingDeposits_consensus_topUp :
    "0xaa" ∈ collectValidPendingDeposits ⟨fun d => d.signature == "ok", ["0x01"]⟩
      [⟨"0xaa", "0x02", 7, "bad", 0⟩, ⟨"0xaa", "0x01", 32, "ok", 0⟩, ⟨"0xaa", "0x02", 1, "bad", 0⟩] ["0xaa"] :=
  (collectValidPendingDeposits_consensus ⟨fun d => d.signature == "ok", ["0x01"]⟩ []
    [⟨"0xaa", "0x02", 7, "bad", 0⟩, ⟨"0xaa", "0x01", 32, "ok", 0⟩, ⟨"0xaa", "0x02", 1, "bad", 0⟩] ["0xaa"]
    (fun _ _ => rfl) "0xaa").1.mpr
    ⟨by decide, mapBalance (· + 1) (newValidator 0 ⟨"0xaa", "0x01", 32, "ok", 0⟩), by decide, by decide⟩

end Collect

/-! What a report counts for one used key: the balance and top-ups of its validator, or what is
collected for it. -/

def ownedAt (rules : DepositRules) (validators : List Validator) (deposits : List PendingDeposit)
    (pubkey : HexStr) : Gwei :=
  match find validators pubkey with
  | some v => v.balance + amountOf (depositsOf deposits pubkey)
  | none => pendingAt rules deposits pubkey

/-- What processing the head adds to the count of its own key: a front run counts once it is a validator. -/
def headGain (rules : DepositRules) (validators : List Validator) (deposits : List PendingDeposit)
    (d : PendingDeposit) : Gwei :=
  if (find validators d.pubkey).isNone ∧ rules.isValidDepositSignature d = true ∧
      d.withdrawalCredentials ∉ rules.lidoWcList then
    amountOf (depositsOf deposits d.pubkey)
  else 0

section Owned

variable {rules : DepositRules} {validators : List Validator} {d : PendingDeposit} {rest : List PendingDeposit}

theorem ownedAt_applyPendingDeposit_self :
    ownedAt rules (applyPendingDeposit rules.isValidDepositSignature validators d) rest d.pubkey =
      ownedAt rules validators (d :: rest) d.pubkey + headGain rules validators (d :: rest) d := by
  unfold ownedAt headGain
  cases hfind : find validators d.pubkey with
  | some v =>
    -- a top-up moves from the queue to the balance
    rw [find_applyPendingDeposit_topUp hfind, depositsOf_cons_self, amountOf_cons]
    simp only [mapBalance, Option.isNone_some, Bool.false_eq_true, false_and, if_false, add_zero]
    exact Nat.add_assoc ..
  | none =>
    rw [find_applyPendingDeposit_new hfind, pendingAt_cons_self]
    by_cases hvalid : rules.isValidDepositSignature d = true
    · by_cases hwc : d.withdrawalCredentials ∈ rules.lidoWcList
      · simp [hvalid, hwc, newValidator, depositsOf_cons_self, amountOf_cons]
      · -- pending it counted for nothing, as a validator it counts in full
        simp [hvalid, hwc, newValidator, depositsOf_cons_self, amountOf_cons]
    · simp [hvalid]

/-- The head moves its own key only. -/
theorem ownedAt_applyPendingDeposit (pubkey : HexStr) :
    ownedAt rules (applyPendingDeposit rules.isValidDepositSignature validators d) rest pubkey =
      ownedAt rules validators (d :: rest) pubkey +
        if pubkey = d.pubkey then headGain rules validators (d :: rest) d else 0 := by
  split_ifs with h
  · rw [h, ownedAt_applyPendingDeposit_self]
  · have hne : d.pubkey ≠ pubkey := Ne.symm h
    unfold ownedAt
    rw [find_applyPendingDeposit_of_ne hne, depositsOf_cons_of_ne hne, pendingAt_cons_of_ne hne, add_zero]

theorem ownedAt_updateBalance {v : Validator} {k : HexStr} (h : find validators k = some v) (f : Gwei → Gwei)
    (deposits : List PendingDeposit) (pubkey : HexStr) :
    (ownedAt rules (updateBalance validators k f) deposits pubkey : ℤ) =
      ownedAt rules validators deposits pubkey + if pubkey = k then (f v.balance : ℤ) - v.balance else 0 := by
  unfold ownedAt
  rw [find_updateBalance]
  split_ifs with hkey
  · rw [hkey, h, Option.map_some]
    simp only [mapBalance]
    push_cast
    ring
  · rw [add_zero]

/-- A queued deposit counts at once when it tops up a validator or is a Lido deposit with a valid signature. -/
theorem ownedAt_snoc {deposits : List PendingDeposit}
    (hdeposit : (d.withdrawalCredentials ∈ rules.lidoWcList ∧ rules.isValidDepositSignature d = true) ∨
      (find validators d.pubkey).isSome)
    (hfirst : find validators d.pubkey = none → ∀ d', (depositsOf deposits d.pubkey).find?
      rules.isValidDepositSignature = some d' → d'.withdrawalCredentials ∈ rules.lidoWcList) (pubkey : HexStr) :
    ownedAt rules validators (deposits ++ [d]) pubkey =
      ownedAt rules validators deposits pubkey + if pubkey = d.pubkey then d.amount else 0 := by
  by_cases hkey : pubkey = d.pubkey
  · subst hkey
    unfold ownedAt
    rw [if_pos rfl]
    cases hfind : find validators d.pubkey with
    | some v =>
      have hamount : amountOf (depositsOf (deposits ++ [d]) d.pubkey) = amountOf (depositsOf deposits d.pubkey) + d.amount := by
        simp [depositsOf, amountOf, List.filter_append]
      simp only [hamount]
      exact (Nat.add_assoc ..).symm
    | none =>
      rw [hfind] at hdeposit
      obtain ⟨hwc, hvalid⟩ := hdeposit.resolve_right Bool.false_ne_true
      exact pendingAt_snoc hvalid hwc (hfirst hfind)
  · have hqueue : depositsOf (deposits ++ [d]) pubkey = depositsOf deposits pubkey := by
      simp [depositsOf, List.filter_append, Ne.symm hkey]
    unfold ownedAt pendingAt
    rw [if_neg hkey, hqueue, add_zero]

end Owned

end LidoOracle
