import LidoOracle.Lib.Dict
import LidoOracle.ValidatorBalance

/-! What the consensus layer does with pending deposits: one deposit tops up a
validator, creates one, or is dropped. Seen from one pubkey, only its own
deposits matter. -/

namespace LidoOracle

namespace Consensus

/-- The proof of possession of a deposit, and the credentials that count as Lido's -/
structure DepositRules where
  isValidDepositSignature : PendingDeposit → Bool
  lidoWcList : List HexStr

/-- The validator that a first deposit creates -/
def newValidator (index : ValidatorIndex) (d : PendingDeposit) : Validator where
  index := index
  balance := d.amount
  validator := {
    pubkey := d.pubkey
    withdrawalCredentials := d.withdrawalCredentials
    effectiveBalance := min (d.amount - d.amount % EFFECTIVE_BALANCE_INCREMENT)
      (maxEffectiveBalanceOf d.withdrawalCredentials)
    slashed := false
    activationEligibilityEpoch := FAR_FUTURE_EPOCH
    activationEpoch := FAR_FUTURE_EPOCH
    exitEpoch := FAR_FUTURE_EPOCH
    withdrawableEpoch := FAR_FUTURE_EPOCH
    effectiveBalance_le := min_le_right _ _ }

def mapBalance (f : Gwei → Gwei) (v : Validator) : Validator := { v with balance := f v.balance }

def updateBalance (validators : List Validator) (pubkey : HexStr) (f : Gwei → Gwei) : List Validator :=
  validators.map fun v => if v.validator.pubkey = pubkey then mapBalance f v else v

/-- `apply_pending_deposit` -/
def applyPendingDeposit (isValid : PendingDeposit → Bool) (validators : List Validator) (d : PendingDeposit) :
    List Validator :=
  if d.pubkey ∈ validators.map (·.validator.pubkey) then updateBalance validators d.pubkey (· + d.amount)
  else if isValid d then validators ++ [newValidator validators.length d]
  else validators

/-- The whole queue in order -/
def applyPendingDeposits (isValid : PendingDeposit → Bool) (validators : List Validator)
    (deposits : List PendingDeposit) : List Validator :=
  deposits.foldl (applyPendingDeposit isValid) validators

def find (validators : List Validator) (pubkey : HexStr) : Option Validator :=
  validators.find? fun v => v.validator.pubkey = pubkey

def depositsOf (deposits : List PendingDeposit) (pubkey : HexStr) : List PendingDeposit :=
  deposits.filter fun d => d.pubkey = pubkey

def amountOf (deposits : List PendingDeposit) : Gwei := (deposits.map (·.amount)).sum

section Find

variable {validators : List Validator} {pubkey : HexStr} {v : Validator}

theorem find_some (h : find validators pubkey = some v) : v ∈ validators ∧ v.validator.pubkey = pubkey := by
  have hkey := List.find?_some h
  rw [decide_eq_true_eq] at hkey
  exact ⟨List.mem_of_find?_eq_some h, hkey⟩

theorem find_isSome_iff : (find validators pubkey).isSome ↔ pubkey ∈ validators.map (·.validator.pubkey) := by
  rw [find, List.find?_isSome, List.mem_map]
  simp only [decide_eq_true_eq]

theorem find_eq_none_iff : find validators pubkey = none ↔ pubkey ∉ validators.map (·.validator.pubkey) := by
  rw [← find_isSome_iff, Option.isSome_iff_ne_none, not_not]

theorem find_of_mem (hnodup : (validators.map (·.validator.pubkey)).Nodup) (h : v ∈ validators) :
    find validators v.validator.pubkey = some v := by
  have hsome : (find validators v.validator.pubkey).isSome :=
    find_isSome_iff.mpr (List.mem_map_of_mem h)
  obtain ⟨u, hu⟩ := Option.isSome_iff_exists.mp hsome
  obtain ⟨hmem, hkey⟩ := find_some hu
  rw [hu, List.inj_on_of_nodup_map hnodup hmem h hkey]

/-- With distinct pubkeys the order of the registry does not matter. -/
theorem find_perm {validators' : List Validator} (hnodup : (validators.map (·.validator.pubkey)).Nodup)
    (h : validators.Perm validators') (pubkey : HexStr) : find validators' pubkey = find validators pubkey := by
  have hnodup' : (validators'.map (·.validator.pubkey)).Nodup := (h.map _).nodup_iff.mp hnodup
  cases hfind : find validators pubkey with
  | none =>
    rw [find_eq_none_iff] at hfind ⊢
    exact fun hmem => hfind ((h.map _).mem_iff.mpr hmem)
  | some v =>
    obtain ⟨hmem, rfl⟩ := find_some hfind
    exact find_of_mem hnodup' (h.mem_iff.mp hmem)

theorem find_updateBalance (validators : List Validator) (k pubkey : HexStr) (f : Gwei → Gwei) :
    find (updateBalance validators k f) pubkey =
      if pubkey = k then (find validators k).map (mapBalance f) else find validators pubkey := by
  have hpred : ((fun v : Validator => decide (v.validator.pubkey = pubkey)) ∘
      fun v => if v.validator.pubkey = k then mapBalance f v else v) =
      fun v => decide (v.validator.pubkey = pubkey) := by
    funext v
    dsimp only [Function.comp_apply]
    split_ifs <;> rfl
  have hfind : find (updateBalance validators k f) pubkey = (find validators pubkey).map
      fun v => if v.validator.pubkey = k then mapBalance f v else v := by
    rw [find, updateBalance, List.find?_map, hpred, find]
  rw [hfind]
  cases hv : find validators pubkey with
  | none =>
    split_ifs with hk
    · rw [← hk, hv]
      rfl
    · rfl
  | some v =>
    rw [Option.map_some, (find_some hv).2]
    split_ifs with hk
    · rw [← hk, hv, Option.map_some]
    · rfl

theorem map_updateBalance {α : Type} (g : Validator → α) (hg : ∀ f v, g (mapBalance f v) = g v)
    (validators : List Validator) (k : HexStr) (f : Gwei → Gwei) :
    (updateBalance validators k f).map g = validators.map g := by
  rw [updateBalance, List.map_map]
  refine List.map_congr_left fun v _ => ?_
  dsimp only [Function.comp_apply]
  split_ifs
  · exact hg f v
  · rfl

theorem pubkeys_updateBalance (validators : List Validator) (k : HexStr) (f : Gwei → Gwei) :
    (updateBalance validators k f).map (·.validator.pubkey) = validators.map (·.validator.pubkey) :=
  map_updateBalance (·.validator.pubkey) (fun _ _ => rfl) validators k f

end Find

section Apply

variable {isValid : PendingDeposit → Bool} {validators : List Validator} {d : PendingDeposit} {pubkey : HexStr}

/-- A deposit does not touch the validators of other keys. -/
theorem find_applyPendingDeposit_of_ne (h : d.pubkey ≠ pubkey) :
    find (applyPendingDeposit isValid validators d) pubkey = find validators pubkey := by
  unfold applyPendingDeposit
  split_ifs
  · rw [find_updateBalance, if_neg (Ne.symm h)]
  · unfold find
    have hnew : [newValidator validators.length d].find? (fun v => decide (v.validator.pubkey = pubkey)) = none :=
      List.find?_eq_none.mpr (by simpa [newValidator] using h)
    rw [List.find?_append, hnew, Option.or_none]
  · rfl

/-- The key of a deposit has a validator: its balance goes up. -/
theorem find_applyPendingDeposit_topUp {v : Validator} (h : find validators d.pubkey = some v) :
    find (applyPendingDeposit isValid validators d) d.pubkey = some (mapBalance (· + d.amount) v) := by
  have hmem : d.pubkey ∈ validators.map (·.validator.pubkey) :=
    find_isSome_iff.mp (by rw [h]; rfl)
  rw [applyPendingDeposit, if_pos hmem, find_updateBalance, if_pos rfl, h, Option.map_some]

/-- The key of a deposit has no validator: a valid signature creates it. -/
theorem find_applyPendingDeposit_new (h : find validators d.pubkey = none) :
    find (applyPendingDeposit isValid validators d) d.pubkey =
      if isValid d then some (newValidator validators.length d) else none := by
  have hmem := find_eq_none_iff.mp h
  unfold applyPendingDeposit
  rw [if_neg hmem]
  split_ifs
  · unfold find at h ⊢
    rw [List.find?_append, h, List.find?_cons_of_pos (by simp [newValidator])]
    rfl
  · exact h

theorem pubkeys_applyPendingDeposit (validators : List Validator) (d : PendingDeposit) :
    (applyPendingDeposit isValid validators d).map (·.validator.pubkey) = validators.map (·.validator.pubkey) ∨
      (applyPendingDeposit isValid validators d).map (·.validator.pubkey) =
        validators.map (·.validator.pubkey) ++ [d.pubkey] ∧ d.pubkey ∉ validators.map (·.validator.pubkey) := by
  unfold applyPendingDeposit
  split_ifs with hmem hvalid
  · exact Or.inl (pubkeys_updateBalance validators d.pubkey _)
  · right
    exact ⟨by rw [List.map_append]; rfl, hmem⟩
  · exact Or.inl rfl

/-- The registry never holds a pubkey twice. -/
theorem nodup_applyPendingDeposit (h : (validators.map (·.validator.pubkey)).Nodup) (d : PendingDeposit) :
    ((applyPendingDeposit isValid validators d).map (·.validator.pubkey)).Nodup := by
  rcases @pubkeys_applyPendingDeposit isValid validators d with hsame | ⟨hnew, hnot⟩
  · rw [hsame]
    exact h
  · rw [hnew]
    exact List.nodup_append.mpr ⟨h, List.nodup_singleton _,
      fun a ha b hb hab => hnot (List.mem_singleton.mp hb ▸ hab ▸ ha)⟩

theorem indexes_applyPendingDeposit (validators : List Validator) (d : PendingDeposit) :
    ∀ i ∈ validators.map (·.index), i ∈ (applyPendingDeposit isValid validators d).map (·.index) := by
  intro i hi
  unfold applyPendingDeposit
  split_ifs
  · rw [map_updateBalance (·.index) fun _ _ => rfl]
    exact hi
  · rw [List.map_append]
    exact List.mem_append_left _ hi
  · exact hi

end Apply

section Queue

variable {d : PendingDeposit} {rest : List PendingDeposit} {pubkey : HexStr}

theorem depositsOf_cons_self : depositsOf (d :: rest) d.pubkey = d :: depositsOf rest d.pubkey :=
  List.filter_cons_of_pos (by simp)

theorem depositsOf_cons_of_ne (h : d.pubkey ≠ pubkey) : depositsOf (d :: rest) pubkey = depositsOf rest pubkey :=
  List.filter_cons_of_neg (by simpa using h)

theorem amountOf_cons : amountOf (d :: rest) = d.amount + amountOf rest := List.sum_cons

theorem amountOf_depositsOf_cons (d : PendingDeposit) (rest : List PendingDeposit) (pubkey : HexStr) :
    amountOf (depositsOf (d :: rest) pubkey) = amountOf (depositsOf rest pubkey) + if pubkey = d.pubkey then d.amount else 0 := by
  split_ifs with h
  · rw [h, depositsOf_cons_self, amountOf_cons, Nat.add_comm]
  · rw [depositsOf_cons_of_ne (Ne.symm h), Nat.add_zero]

theorem amountOf_depositsOf_perm {deposits deposits' : List PendingDeposit} (h : deposits.Perm deposits')
    (pubkey : HexStr) : amountOf (depositsOf deposits pubkey) = amountOf (depositsOf deposits' pubkey) :=
  ((h.filter _).map _).sum_eq

/-- The deposits of a set of keys, summed key by key -/
theorem amountOf_filter_mem {pubkeys : List HexStr} (h : pubkeys.Nodup) (deposits : List PendingDeposit) :
    amountOf (deposits.filter fun d => d.pubkey ∈ pubkeys) =
      (pubkeys.map fun pubkey => amountOf (depositsOf deposits pubkey)).sum := by
  induction deposits with
  | nil => simp [depositsOf, amountOf]
  | cons d rest ih =>
    rw [Dict.sum_keys_add_single h (amountOf_depositsOf_cons d rest), ← ih]
    split_ifs with hmem
    · rw [List.filter_cons_of_pos (by simpa using hmem), amountOf_cons, Nat.add_comm]
    · rw [List.filter_cons_of_neg (by simpa using hmem), Nat.add_zero]

end Queue

/-! One key -/

/-- A key's validator, as far as deposits see it -/
structure KeyBalance where
  withdrawalCredentials : HexStr
  balance : Gwei
  deriving DecidableEq

def keyBalance (validators : List Validator) (pubkey : HexStr) : Option KeyBalance :=
  (find validators pubkey).map fun v => ⟨v.validator.withdrawalCredentials, v.balance⟩

/-- The rule for one key: the first valid signature fixes the credentials, everything later adds up. -/
def KeyBalance.next (isValid : PendingDeposit → Bool) (key : Option KeyBalance) (d : PendingDeposit) :
    Option KeyBalance :=
  match key with
  | some key => some { key with balance := key.balance + d.amount }
  | none => if isValid d then some ⟨d.withdrawalCredentials, d.amount⟩ else none

section Key

variable {isValid : PendingDeposit → Bool}

theorem keyBalance_applyPendingDeposit (validators : List Validator) (d : PendingDeposit) (pubkey : HexStr) :
    keyBalance (applyPendingDeposit isValid validators d) pubkey =
      if d.pubkey = pubkey then KeyBalance.next isValid (keyBalance validators pubkey) d
      else keyBalance validators pubkey := by
  unfold keyBalance
  split_ifs with h
  · subst h
    cases hfind : find validators d.pubkey with
    | none =>
      rw [find_applyPendingDeposit_new hfind]
      by_cases hvalid : isValid d = true
      · simp only [hvalid, KeyBalance.next]
        rfl
      · simp only [hvalid, KeyBalance.next]
        rfl
    | some v =>
      rw [find_applyPendingDeposit_topUp hfind]
      rfl
  · rw [find_applyPendingDeposit_of_ne h]

/-- A key's validator after the queue is what its own deposits make of it. -/
theorem keyBalance_applyPendingDeposits (validators : List Validator) (deposits : List PendingDeposit)
    (pubkey : HexStr) :
    keyBalance (applyPendingDeposits isValid validators deposits) pubkey =
      (depositsOf deposits pubkey).foldl (KeyBalance.next isValid) (keyBalance validators pubkey) := by
  unfold applyPendingDeposits
  induction deposits generalizing validators with
  | nil => rfl
  | cons d deposits ih =>
    rw [List.foldl_cons, ih, keyBalance_applyPendingDeposit]
    by_cases h : d.pubkey = pubkey
    · subst h
      rw [if_pos rfl, depositsOf_cons_self, List.foldl_cons]
    · rw [if_neg h, depositsOf_cons_of_ne h]

end Key

end Consensus

end LidoOracle
