import LidoOracle.Consensus.Deposits
import LidoOracle.Lib.Itertools
import LidoOracle.Vaults.Types

/-! The total value of every staking vault. A pubkey is counted as an unmatched
deposit, as a validator not yet eligible for activation or as an eligible one. -/

namespace LidoOracle

open Consensus

namespace StakingVaultsService

/-- The predeposit guarantee at one block, and the size of the batches it is asked in -/
structure LazyOracle where
  validatorStatus : HexStr → ValidatorStatus
  batchSize : ℕ

/-- The service raises no exception of its own here. -/
abbrev Value := Py Empty

def hasFarFutureActivationEligibilityEpoch (validator : ValidatorState) : Bool :=
  validator.activationEligibilityEpoch == FAR_FUTURE_EPOCH

/-- Slices of `batch_size`; a size of zero is refused. -/
def getValidatorStatuses (oracle : LazyOracle) (pubkeys : List HexStr) : Value (Dict HexStr ValidatorStatus) := do
  let batches ← Itertools.batched pubkeys oracle.batchSize
  return Dict.ofList (batches.flatMap fun batch => batch.map fun pubkey => (pubkey, oracle.validatorStatus pubkey))

def wcToVault (vaults : VaultsMap) : Dict HexStr VaultInfo :=
  Dict.ofList (vaults.values.map fun v => (v.withdrawalCredentials, v))

def addToVault (vaults : VaultsMap) (vaultToValidators : Dict ChecksumAddress (List Validator)) (validator : Validator) :
    Dict ChecksumAddress (List Validator) :=
  match (wcToVault vaults).get? validator.validator.withdrawalCredentials with
  | some vaultInfo => vaultToValidators.push vaultInfo.vault validator
  | none => vaultToValidators

def getValidatorsByVault (validators : List Validator) (vaults : VaultsMap) : Dict ChecksumAddress (List Validator) :=
  validators.foldl (addToVault vaults) Dict.empty

def getTotalPendingAmountByPubkey (pendingDeposits : List PendingDeposit) : Dict HexStr Gwei :=
  pendingDeposits.foldl (fun deposits d => deposits.set d.pubkey ((deposits.get? d.pubkey).getD 0 + d.amount)) Dict.empty

def vaultWcs (vaults : VaultsMap) : List HexStr := vaults.values.map (·.withdrawalCredentials)

def getNonEligibleForActivationValidatorsPubkeys (validators : List Validator) (vaults : VaultsMap) : List HexStr :=
  ((validators.filter fun v => hasFarFutureActivationEligibilityEpoch v.validator &&
    decide (v.validator.withdrawalCredentials ∈ vaultWcs vaults)).map (·.validator.pubkey)).dedup

def getUnmatchedDepositsPubkeys (validators : List Validator) (pendingDeposits : List PendingDeposit)
    (vaults : VaultsMap) : List HexStr :=
  ((pendingDeposits.filter fun d => decide (d.withdrawalCredentials ∈ vaultWcs vaults) &&
    decide (d.pubkey ∉ validators.map (·.validator.pubkey))).map (·.pubkey)).dedup

def getPubkeyStatusesByVault (oracle : LazyOracle) (pubkeys : List HexStr) :
    Value (Dict ChecksumAddress (Dict HexStr ValidatorStatus)) := do
  let statuses ← getValidatorStatuses oracle pubkeys
  return statuses.entries.foldl (fun byVault e => byVault.setIn e.2.stakingVault e.1 e.2) Dict.empty

def fullValue (totalPendingAmountByPubkey : Dict HexStr Gwei) (validator : Validator) : ℤ :=
  gweiToWei (validator.balance + (totalPendingAmountByPubkey.get? validator.validator.pubkey).getD 0 : Gwei)

/-- Eligible validators count in full, the others by their stage. -/
def addValidator (totalPendingAmountByPubkey : Dict HexStr Gwei) (vaultValidatorStatuses : Dict HexStr ValidatorStatus)
    (vaultTotal : ℤ) (validator : Validator) : ℤ :=
  if !hasFarFutureActivationEligibilityEpoch validator.validator then
    vaultTotal + fullValue totalPendingAmountByPubkey validator
  else match vaultValidatorStatuses.get? validator.validator.pubkey with
    | none => vaultTotal
    | some status =>
      match status.stage with
      | .predeposited => vaultTotal + gweiToWei MIN_DEPOSIT_AMOUNT
      | .activated => vaultTotal + fullValue totalPendingAmountByPubkey validator
      | _ => vaultTotal

def calculateVaultTotalValue (vaultAggregatedBalance : ℕ) (vaultValidators : List Validator)
    (totalPendingAmountByPubkey : Dict HexStr Gwei)
    (vaultValidatorStatuses vaultUnmatchedPendingDepositStatuses : Dict HexStr ValidatorStatus) : ℤ :=
  let vaultTotal := vaultValidators.foldl (addValidator totalPendingAmountByPubkey vaultValidatorStatuses)
    (vaultAggregatedBalance : ℤ)
  let numPredeposited := vaultUnmatchedPendingDepositStatuses.values.countP fun status => status.stage = .predeposited
  vaultTotal + numPredeposited * gweiToWei MIN_DEPOSIT_AMOUNT

def getVaultsTotalValues (oracle : LazyOracle) (vaults : VaultsMap) (validators : List Validator)
    (pendingDeposits : List PendingDeposit) : Value (Dict ChecksumAddress ℤ) := do
  let validatorsByVault := getValidatorsByVault validators vaults
  let totalPendingAmountByPubkey := getTotalPendingAmountByPubkey pendingDeposits
  let validatorStatusesByVault ← getPubkeyStatusesByVault oracle
    (getNonEligibleForActivationValidatorsPubkeys validators vaults)
  let unmatchedStatusesByVault ← getPubkeyStatusesByVault oracle
    (getUnmatchedDepositsPubkeys validators pendingDeposits vaults)
  return vaults.mapKV fun vaultAddress vault => calculateVaultTotalValue vault.aggregatedBalance
    ((validatorsByVault.get? vaultAddress).getD []) totalPendingAmountByPubkey
    ((validatorStatusesByVault.get? vaultAddress).getD Dict.empty)
    ((unmatchedStatusesByVault.get? vaultAddress).getD Dict.empty)

/-! What a pubkey is worth, and to whom -/

/-- The vault that the credentials of a validator point at -/
def vaultOf (vaults : VaultsMap) (credentials : HexStr) : Option ChecksumAddress :=
  ((wcToVault vaults).get? credentials).map (·.vault)

/-- The one vault a pubkey counts for, if any, and its value there -/
def contributionOf (oracle : LazyOracle) (vaults : VaultsMap) (validators : List Validator)
    (pendingDeposits : List PendingDeposit) (pubkey : HexStr) : Option (ChecksumAddress × ℤ) :=
  let status := oracle.validatorStatus pubkey
  match find validators pubkey with
  | some v =>
    let full := gweiToWei (v.balance + amountOf (depositsOf pendingDeposits pubkey) : Gwei)
    (vaultOf vaults v.validator.withdrawalCredentials).bind fun vault =>
      if !hasFarFutureActivationEligibilityEpoch v.validator then some (vault, full)
      else if status.stakingVault ≠ vault then none
      else match status.stage with
        | .predeposited => some (vault, gweiToWei MIN_DEPOSIT_AMOUNT)
        | .activated => some (vault, full)
        | _ => none
  | none =>
    if status.stage = .predeposited then some (status.stakingVault, gweiToWei MIN_DEPOSIT_AMOUNT) else none

def valueAt (vault : ChecksumAddress) : Option (ChecksumAddress × ℤ) → ℤ
  | some (v, value) => if v = vault then value else 0
  | none => 0

/-- Every pubkey that is counted, once -/
def countedPubkeys (vaults : VaultsMap) (validators : List Validator) (pendingDeposits : List PendingDeposit) :
    List HexStr :=
  validators.map (·.validator.pubkey) ++ getUnmatchedDepositsPubkeys validators pendingDeposits vaults

section Lookups

variable {oracle : LazyOracle} {vaults : VaultsMap}

theorem validatorsByVault_getD (validators : List Validator) (vault : ChecksumAddress) :
    ((getValidatorsByVault validators vaults).get? vault).getD [] =
      validators.filter fun v => vaultOf vaults v.validator.withdrawalCredentials = some vault := by
  have hgen : ∀ (m : Dict ChecksumAddress (List Validator)),
      ((validators.foldl (addToVault vaults) m).get? vault).getD [] = (m.get? vault).getD [] ++
        validators.filter fun v => vaultOf vaults v.validator.withdrawalCredentials = some vault := by
    induction validators with
    | nil => intro m; simp
    | cons v validators ih =>
      intro m
      rw [List.foldl_cons, ih, addToVault, List.filter_cons, vaultOf]
      cases hget : (wcToVault vaults).get? v.validator.withdrawalCredentials with
      | none => simp
      | some info =>
        by_cases hv : info.vault = vault
        · simp [Dict.get?_push, hv]
        · simp [Dict.get?_push, hv, Ne.symm hv]
  exact hgen Dict.empty

theorem totalPendingAmountByPubkey_getD (deposits : List PendingDeposit) (pubkey : HexStr) :
    ((getTotalPendingAmountByPubkey deposits).get? pubkey).getD 0 = amountOf (depositsOf deposits pubkey) := by
  have hgen : ∀ (m : Dict HexStr Gwei), ((deposits.foldl (fun m d =>
      m.set d.pubkey ((m.get? d.pubkey).getD 0 + d.amount)) m).get? pubkey).getD 0 =
      (m.get? pubkey).getD 0 + amountOf (depositsOf deposits pubkey) := by
    induction deposits with
    | nil => intro m; rfl
    | cons d deposits ih =>
      intro m
      rw [List.foldl_cons, ih, Dict.get?_set, amountOf_depositsOf_cons]
      split_ifs with h
      · rw [h, Option.getD_some]
        ring
      · rw [Nat.add_zero]
  exact (hgen Dict.empty).trans (Nat.zero_add _)

theorem getValidatorStatuses_eq_ok {pubkeys : List HexStr} {statuses : Dict HexStr ValidatorStatus} :
    getValidatorStatuses oracle pubkeys = .ok statuses ↔ 0 < oracle.batchSize ∧
      statuses = Dict.ofList (pubkeys.map fun pubkey => (pubkey, oracle.validatorStatus pubkey)) := by
  unfold getValidatorStatuses
  rw [Except.bind_eq_ok]
  constructor
  · intro ⟨batches, hbatches, h⟩
    obtain ⟨hn, rfl⟩ := Itertools.batched_eq_ok.mp hbatches
    rw [Except.pure_eq_ok, List.flatMap_def, ← List.map_flatten, Itertools.batches_flatten hn] at h
    exact ⟨hn, h.symm⟩
  · intro ⟨hn, h⟩
    refine ⟨_, Itertools.batched_eq_ok.mpr ⟨hn, rfl⟩, Except.pure_eq_ok.mpr ?_⟩
    rw [h, List.flatMap_def, ← List.map_flatten, Itertools.batches_flatten hn]

theorem foldl_setIn_get? (status : HexStr → ValidatorStatus) (pubkeys : List HexStr) (vault : ChecksumAddress)
    (pubkey : HexStr) (m : Dict ChecksumAddress (Dict HexStr ValidatorStatus)) :
    ((((pubkeys.map fun pubkey => (pubkey, status pubkey)).foldl
      (fun byVault e => byVault.setIn e.2.stakingVault e.1 e.2) m).get? vault).getD Dict.empty).get? pubkey =
      if pubkey ∈ pubkeys ∧ (status pubkey).stakingVault = vault then some (status pubkey)
      else ((m.get? vault).getD Dict.empty).get? pubkey := by
  induction pubkeys generalizing m with
  | nil => simp
  | cons k pubkeys ih =>
    rw [List.map_cons, List.foldl_cons, ih, Dict.getD_setIn]
    by_cases hmem : pubkey ∈ pubkeys ∧ (status pubkey).stakingVault = vault
    · rw [if_pos hmem, if_pos ⟨List.mem_cons_of_mem k hmem.1, hmem.2⟩]
    · rw [if_neg hmem]
      by_cases hk : pubkey = k
      · subst hk
        by_cases hv : (status pubkey).stakingVault = vault
        · simp [hv, Dict.get?_set]
        · simp [hv, Ne.symm hv]
      · have hcons : ¬(pubkey ∈ k :: pubkeys ∧ (status pubkey).stakingVault = vault) := by
          simpa [hk] using hmem
        rw [if_neg hcons]
        split_ifs
        · rw [Dict.get?_set, if_neg hk]
        · rfl

/-- The status of a pubkey is found under the vault it names. -/
theorem statusesByVault_get? {pubkeys : List HexStr} (hnodup : pubkeys.Nodup)
    {byVault : Dict ChecksumAddress (Dict HexStr ValidatorStatus)}
    (h : getPubkeyStatusesByVault oracle pubkeys = .ok byVault) (vault : ChecksumAddress) (pubkey : HexStr) :
    ((byVault.get? vault).getD Dict.empty).get? pubkey =
      if pubkey ∈ pubkeys ∧ (oracle.validatorStatus pubkey).stakingVault = vault then some (oracle.validatorStatus pubkey)
      else none := by
  obtain ⟨statuses, hstatuses, h⟩ := Except.bind_eq_ok.mp h
  obtain ⟨-, rfl⟩ := getValidatorStatuses_eq_ok.mp hstatuses
  have hentries : (Dict.ofList (pubkeys.map fun pubkey => (pubkey, oracle.validatorStatus pubkey))).entries =
      pubkeys.map fun pubkey => (pubkey, oracle.validatorStatus pubkey) :=
    Dict.entries_ofList (by simpa [Function.comp_def] using hnodup)
  rw [← Except.pure_eq_ok.mp h, hentries]
  exact foldl_setIn_get? oracle.validatorStatus pubkeys vault pubkey Dict.empty

theorem getPubkeyStatusesByVault_isOk (pubkeys : List HexStr) :
    (∃ byVault, getPubkeyStatusesByVault oracle pubkeys = .ok byVault) ↔ 0 < oracle.batchSize := by
  constructor
  · intro ⟨byVault, h⟩
    obtain ⟨statuses, hstatuses, -⟩ := Except.bind_eq_ok.mp h
    exact (getValidatorStatuses_eq_ok.mp hstatuses).1
  · intro hn
    exact ⟨_, Except.bind_eq_ok.mpr ⟨_, getValidatorStatuses_eq_ok.mpr ⟨hn, rfl⟩, rfl⟩⟩

end Lookups

section Total

variable {oracle : LazyOracle} {vaults : VaultsMap}

theorem addValidator_eq (pending : Dict HexStr Gwei) (statuses : Dict HexStr ValidatorStatus) (total : ℤ) (v : Validator) :
    addValidator pending statuses total v = total + addValidator pending statuses 0 v := by
  unfold addValidator
  split_ifs
  · ring
  · split
    · ring
    · split <;> ring

theorem foldl_addValidator (pending : Dict HexStr Gwei) (statuses : Dict HexStr ValidatorStatus) (validators : List Validator)
    (total : ℤ) : validators.foldl (addValidator pending statuses) total =
      total + (validators.map (addValidator pending statuses 0)).sum := by
  induction validators generalizing total with
  | nil => simp
  | cons v validators ih =>
    rw [List.foldl_cons, ih, addValidator_eq, List.map_cons, List.sum_cons]
    ring

theorem vaultOf_mem {credentials : HexStr} {vault : ChecksumAddress} (h : vaultOf vaults credentials = some vault) :
    credentials ∈ vaultWcs vaults := by
  obtain ⟨info, hinfo, -⟩ := Option.map_eq_some_iff.mp h
  have hmem := Dict.mem_of_get? hinfo
  rw [wcToVault, Dict.mem_ofList, List.map_map] at hmem
  exact hmem

theorem valueAt_of_ne {vault vault' : ChecksumAddress} (h : vault' ≠ vault) (value : ℤ) :
    valueAt vault (some (vault', value)) = 0 := if_neg h

theorem valueAt_self (vault : ChecksumAddress) (value : ℤ) : valueAt vault (some (vault, value)) = value := if_pos rfl

/-- A validator with the credentials of the vault adds what its pubkey is worth there. -/
theorem addValidator_contribution {validators : List Validator} (hpubkeys : (validators.map (·.validator.pubkey)).Nodup)
    (deposits : List PendingDeposit) {byVault : Dict ChecksumAddress (Dict HexStr ValidatorStatus)}
    (h : getPubkeyStatusesByVault oracle (getNonEligibleForActivationValidatorsPubkeys validators vaults) = .ok byVault)
    (vault : ChecksumAddress) {v : Validator} (hv : v ∈ validators) :
    (if vaultOf vaults v.validator.withdrawalCredentials = some vault then
      addValidator (getTotalPendingAmountByPubkey deposits) ((byVault.get? vault).getD Dict.empty) 0 v else 0) =
      valueAt vault (contributionOf oracle vaults validators deposits v.validator.pubkey) := by
  unfold contributionOf
  rw [find_of_mem hpubkeys hv]
  dsimp only
  cases hvault : vaultOf vaults v.validator.withdrawalCredentials with
  | none => rfl
  | some vault' =>
    rw [Option.bind_some]
    by_cases heq : vault' = vault
    · subst heq
      rw [if_pos rfl, addValidator, fullValue, totalPendingAmountByPubkey_getD]
      by_cases hfar : hasFarFutureActivationEligibilityEpoch v.validator = true
      · have hmem : v.validator.pubkey ∈ getNonEligibleForActivationValidatorsPubkeys validators vaults := by
          unfold getNonEligibleForActivationValidatorsPubkeys
          rw [List.mem_dedup]
          refine List.mem_map_of_mem (List.mem_filter.mpr ⟨hv, ?_⟩)
          rw [hfar, decide_eq_true (vaultOf_mem hvault)]
          rfl
        rw [statusesByVault_get? (List.nodup_dedup _) h]
        simp only [hfar, Bool.not_true, Bool.false_eq_true, if_false]
        by_cases hstatus : (oracle.validatorStatus v.validator.pubkey).stakingVault = vault'
        · rw [if_pos ⟨hmem, hstatus⟩, if_neg (not_not_intro hstatus)]
          cases hstage : (oracle.validatorStatus v.validator.pubkey).stage <;> simp [hstage, valueAt]
        · rw [if_neg fun h => hstatus h.2, if_pos hstatus]
          rfl
      · rw [if_pos (by simpa using hfar), if_pos (by simpa using hfar), valueAt_self]
        exact Int.zero_add _
    · rw [if_neg fun h => heq (Option.some.inj h)]
      split_ifs
      · exact (valueAt_of_ne heq _).symm
      · rfl
      · split
        · exact (valueAt_of_ne heq _).symm
        · exact (valueAt_of_ne heq _).symm
        · rfl

theorem find_of_unmatched {validators : List Validator} {deposits : List PendingDeposit} {pubkey : HexStr}
    (h : pubkey ∈ getUnmatchedDepositsPubkeys validators deposits vaults) : find validators pubkey = none := by
  unfold getUnmatchedDepositsPubkeys at h
  obtain ⟨d, hd, rfl⟩ := List.mem_map.mp (List.mem_dedup.mp h)
  have hfilter := (List.mem_filter.mp hd).2
  rw [Bool.and_eq_true, decide_eq_true_eq, decide_eq_true_eq] at hfilter
  exact find_eq_none_iff.mpr hfilter.2

/-- The unmatched deposits of a vault add one deposit for each predeposited pubkey. -/
theorem countP_predeposited (validators : List Validator) (deposits : List PendingDeposit)
    {byVault : Dict ChecksumAddress (Dict HexStr ValidatorStatus)}
    (h : getPubkeyStatusesByVault oracle (getUnmatchedDepositsPubkeys validators deposits vaults) = .ok byVault)
    (vault : ChecksumAddress) :
    (((byVault.get? vault).getD Dict.empty).values.countP fun status => status.stage = .predeposited : ℕ) *
        gweiToWei MIN_DEPOSIT_AMOUNT =
      ((getUnmatchedDepositsPubkeys validators deposits vaults).map fun pubkey =>
        valueAt vault (contributionOf oracle vaults validators deposits pubkey)).sum := by
  have hnodup : (getUnmatchedDepositsPubkeys validators deposits vaults).Nodup := List.nodup_dedup _
  have hlookup := statusesByVault_get? hnodup h vault
  generalize (byVault.get? vault).getD Dict.empty = statuses at hlookup ⊢
  have hcount : ∀ l : List ValidatorStatus, (l.countP fun status => status.stage = .predeposited : ℕ) *
      gweiToWei MIN_DEPOSIT_AMOUNT =
      (l.map fun status => if status.stage = .predeposited then gweiToWei MIN_DEPOSIT_AMOUNT else 0).sum := by
    intro l
    induction l with
    | nil => simp
    | cons status l ih =>
      rw [List.countP_cons, List.map_cons, List.sum_cons, ← ih]
      by_cases hstage : status.stage = .predeposited
      · simp [hstage]
        ring
      · simp [hstage]
  rw [hcount, Dict.sum_values statuses _ hnodup]
  · refine congrArg List.sum (List.map_congr_left fun pubkey hpubkey => ?_)
    rw [hlookup, contributionOf, find_of_unmatched hpubkey]
    by_cases hv : (oracle.validatorStatus pubkey).stakingVault = vault
    · rw [if_pos ⟨hpubkey, hv⟩, Option.map_some, Option.getD_some]
      dsimp only
      split_ifs
      · rw [hv, valueAt_self]
      · rfl
    · rw [if_neg fun h => hv h.2]
      dsimp only
      split_ifs
      · exact (valueAt_of_ne hv _).symm
      · rfl
  · intro pubkey hpubkey
    obtain ⟨status, hstatus⟩ := Dict.mem_iff_exists_get?.mp hpubkey
    rw [hlookup] at hstatus
    split_ifs at hstatus with hmem
    exact hmem.1

/-- Every vault is worth its own balance and what the counted pubkeys contribute to it. -/
theorem getVaultsTotalValues_eq_ok {validators : List Validator} (hpubkeys : (validators.map (·.validator.pubkey)).Nodup)
    (deposits : List PendingDeposit) {values : Dict ChecksumAddress ℤ} :
    getVaultsTotalValues oracle vaults validators deposits = .ok values ↔ 0 < oracle.batchSize ∧
      values = vaults.mapKV fun vault info => info.aggregatedBalance +
        ((countedPubkeys vaults validators deposits).map fun pubkey =>
          valueAt vault (contributionOf oracle vaults validators deposits pubkey)).sum := by
  have hvalue : ∀ {statuses unmatched : Dict ChecksumAddress (Dict HexStr ValidatorStatus)},
      getPubkeyStatusesByVault oracle (getNonEligibleForActivationValidatorsPubkeys validators vaults) = .ok statuses →
      getPubkeyStatusesByVault oracle (getUnmatchedDepositsPubkeys validators deposits vaults) = .ok unmatched →
      ∀ (vault : ChecksumAddress) (info : VaultInfo), calculateVaultTotalValue info.aggregatedBalance
        (((getValidatorsByVault validators vaults).get? vault).getD []) (getTotalPendingAmountByPubkey deposits)
        ((statuses.get? vault).getD Dict.empty) ((unmatched.get? vault).getD Dict.empty) = info.aggregatedBalance +
        ((countedPubkeys vaults validators deposits).map fun pubkey =>
          valueAt vault (contributionOf oracle vaults validators deposits pubkey)).sum := by
    intro statuses unmatched hstatuses hunmatched vault info
    have hvalidators : ((validators.filter fun v => vaultOf vaults v.validator.withdrawalCredentials = some vault).map
        (addValidator (getTotalPendingAmountByPubkey deposits) ((statuses.get? vault).getD Dict.empty) 0)).sum =
        ((validators.map (·.validator.pubkey)).map fun pubkey =>
          valueAt vault (contributionOf oracle vaults validators deposits pubkey)).sum := by
      have hcontribution := List.map_congr_left fun v hv =>
        addValidator_contribution hpubkeys deposits hstatuses vault hv
      rw [List.map_map, Function.comp_def, ← hcontribution, List.sum_map_ite]
      simp
    unfold calculateVaultTotalValue countedPubkeys
    dsimp only
    rw [foldl_addValidator, validatorsByVault_getD, countP_predeposited validators deposits hunmatched, hvalidators,
      List.map_append, List.sum_append, add_assoc]
  unfold getVaultsTotalValues
  constructor
  · intro h
    obtain ⟨statuses, hstatuses, h⟩ := Except.bind_eq_ok.mp h
    obtain ⟨unmatched, hunmatched, h⟩ := Except.bind_eq_ok.mp h
    refine ⟨(getPubkeyStatusesByVault_isOk _).mp ⟨statuses, hstatuses⟩, ?_⟩
    rw [← Except.pure_eq_ok.mp h]
    exact Dict.mapKV_congr fun vault info _ => hvalue hstatuses hunmatched vault info
  · intro h
    obtain ⟨hn, hvalues⟩ := h
    obtain ⟨statuses, hstatuses⟩ := (getPubkeyStatusesByVault_isOk
      (getNonEligibleForActivationValidatorsPubkeys validators vaults)).mpr hn
    obtain ⟨unmatched, hunmatched⟩ := (getPubkeyStatusesByVault_isOk
      (getUnmatchedDepositsPubkeys validators deposits vaults)).mpr hn
    refine Except.bind_eq_ok.mpr ⟨statuses, hstatuses, Except.bind_eq_ok.mpr ⟨unmatched, hunmatched, ?_⟩⟩
    rw [Except.pure_eq_ok, hvalues]
    exact Dict.mapKV_congr fun vault info _ => hvalue hstatuses hunmatched vault info

theorem mem_countedPubkeys {validators : List Validator} {deposits : List PendingDeposit} {pubkey : HexStr} :
    pubkey ∈ countedPubkeys vaults validators deposits ↔ pubkey ∈ validators.map (·.validator.pubkey) ∨
      ∃ d ∈ deposits, d.withdrawalCredentials ∈ vaultWcs vaults ∧ d.pubkey = pubkey := by
  unfold countedPubkeys getUnmatchedDepositsPubkeys
  rw [List.mem_append, List.mem_dedup, List.mem_map (l := deposits.filter _)]
  by_cases hmem : pubkey ∈ validators.map (·.validator.pubkey)
  · exact iff_of_true (Or.inl hmem) (Or.inl hmem)
  · rw [or_iff_right hmem, or_iff_right hmem]
    refine exists_congr fun d => ?_
    rw [List.mem_filter, Bool.and_eq_true, decide_eq_true_eq, decide_eq_true_eq]
    constructor
    · intro ⟨⟨hd, hwc, _⟩, hkey⟩
      exact ⟨hd, hwc, hkey⟩
    · intro ⟨hd, hwc, hkey⟩
      exact ⟨⟨hd, hwc, hkey ▸ hmem⟩, hkey⟩

/-- No pubkey is counted twice. -/
theorem countedPubkeys_nodup {validators : List Validator} (hpubkeys : (validators.map (·.validator.pubkey)).Nodup)
    (deposits : List PendingDeposit) : (countedPubkeys vaults validators deposits).Nodup := by
  refine List.nodup_append.mpr ⟨hpubkeys, List.nodup_dedup _, fun k hk k' hk' heq => ?_⟩
  exact find_eq_none_iff.mp (find_of_unmatched (heq ▸ hk')) hk

/-- The values only depend on what each pubkey contributes and on which pubkeys are counted. -/
theorem getVaultsTotalValues_congr {validators validators' : List Validator} {deposits deposits' : List PendingDeposit}
    (hpubkeys : (validators.map (·.validator.pubkey)).Nodup) (hpubkeys' : (validators'.map (·.validator.pubkey)).Nodup)
    (hcontribution : ∀ pubkey, contributionOf oracle vaults validators' deposits' pubkey =
      contributionOf oracle vaults validators deposits pubkey)
    (hcounted : ∀ pubkey, pubkey ∈ countedPubkeys vaults validators' deposits' ↔
      pubkey ∈ countedPubkeys vaults validators deposits) :
    getVaultsTotalValues oracle vaults validators' deposits' = getVaultsTotalValues oracle vaults validators deposits := by
  by_cases hn : 0 < oracle.batchSize
  · rw [(getVaultsTotalValues_eq_ok hpubkeys deposits).mpr ⟨hn, rfl⟩, getVaultsTotalValues_eq_ok hpubkeys' deposits']
    refine ⟨hn, Dict.mapKV_congr fun vault info _ => congrArg ((info.aggregatedBalance : ℤ) + ·) ?_⟩
    simp only [hcontribution]
    have hperm := (List.perm_ext_iff_of_nodup (countedPubkeys_nodup hpubkeys deposits)
      (countedPubkeys_nodup hpubkeys' deposits')).mpr fun k => (hcounted k).symm
    exact (hperm.map _).sum_eq
  · have herror : ∀ pubkeys, getPubkeyStatusesByVault oracle pubkeys = .error .valueError := by
      intro pubkeys
      unfold getPubkeyStatusesByVault getValidatorStatuses Itertools.batched
      rw [if_pos (by omega)]
      rfl
    unfold getVaultsTotalValues
    simp only [herror, Except.error_bind]

end Total

section DepositProcessing

variable {oracle : LazyOracle} {vaults : VaultsMap} {validators : List Validator}

/-- A top-up, or the well-signed first deposit of a predeposited pubkey with the credentials of the vault
that its status names -/
def KeepsTotals (oracle : LazyOracle) (isValid : PendingDeposit → Bool) (vaults : VaultsMap) (validators : List Validator)
    (d : PendingDeposit) : Prop :=
  (find validators d.pubkey).isSome ∨
    isValid d = true ∧ (oracle.validatorStatus d.pubkey).stage = .predeposited ∧
      ∃ info ∈ vaults.values, info.vault = (oracle.validatorStatus d.pubkey).stakingVault ∧
        info.withdrawalCredentials = d.withdrawalCredentials

theorem amountOf_depositsOf_middle (pre post : List PendingDeposit) (d : PendingDeposit) (pubkey : HexStr) :
    amountOf (depositsOf (pre ++ d :: post) pubkey) =
      amountOf (depositsOf (pre ++ post) pubkey) + if pubkey = d.pubkey then d.amount else 0 := by
  rw [amountOf_depositsOf_perm List.perm_middle, amountOf_depositsOf_cons]

theorem vaultOf_eq_some (hwcs : (vaultWcs vaults).Nodup) {info : VaultInfo} (h : info ∈ vaults.values) :
    vaultOf vaults info.withdrawalCredentials = some info.vault := by
  have hnodup : ((vaults.values.map fun v => (v.withdrawalCredentials, v)).map Prod.fst).Nodup := by
    rw [List.map_map]
    exact hwcs
  refine Option.map_eq_some_iff.mpr ⟨info, ?_, rfl⟩
  rw [wcToVault, Dict.get?_eq_some_iff, Dict.entries_ofList hnodup]
  exact List.mem_map.mpr ⟨info, h, rfl⟩

/-- No pubkey is worth more or less for the processing of a deposit. -/
theorem contributionOf_applyPendingDeposit {isValid : PendingDeposit → Bool} (hwcs : (vaultWcs vaults).Nodup)
    {pre post : List PendingDeposit} {d : PendingDeposit} (h : KeepsTotals oracle isValid vaults validators d)
    (pubkey : HexStr) :
    contributionOf oracle vaults (applyPendingDeposit isValid validators d) (pre ++ post) pubkey =
      contributionOf oracle vaults validators (pre ++ d :: post) pubkey := by
  by_cases hkey : d.pubkey = pubkey
  · subst hkey
    unfold contributionOf
    rw [amountOf_depositsOf_middle, if_pos rfl]
    cases hfind : find validators d.pubkey with
    | some v =>
      rw [find_applyPendingDeposit_topUp hfind]
      have hfull : (mapBalance (· + d.amount) v).balance + amountOf (depositsOf (pre ++ post) d.pubkey) =
          v.balance + (amountOf (depositsOf (pre ++ post) d.pubkey) + d.amount) := by
        simp only [mapBalance]
        ring
      simp only [hfull]
      rfl
    | none =>
      rw [KeepsTotals, hfind] at h
      obtain ⟨hvalid, hstage, info, hinfo, hvault, hwc⟩ := h.resolve_left Bool.false_ne_true
      rw [find_applyPendingDeposit_new hfind, if_pos hvalid]
      have hvaultOf : vaultOf vaults (newValidator validators.length d).validator.withdrawalCredentials =
          some (oracle.validatorStatus d.pubkey).stakingVault := by
        rw [← hvault]
        exact (congrArg (vaultOf vaults) hwc.symm).trans (vaultOf_eq_some hwcs hinfo)
      have hfar : hasFarFutureActivationEligibilityEpoch (newValidator validators.length d).validator = true :=
        beq_self_eq_true FAR_FUTURE_EPOCH
      simp only [hvaultOf, Option.bind_some, hfar, Bool.not_true, Bool.false_eq_true, if_false, ne_eq, not_true_eq_false,
        hstage, if_true]
  · unfold contributionOf
    rw [find_applyPendingDeposit_of_ne hkey, amountOf_depositsOf_middle, if_neg (Ne.symm hkey), Nat.add_zero]

theorem countedPubkeys_applyPendingDeposit {isValid : PendingDeposit → Bool} {pre post : List PendingDeposit}
    {d : PendingDeposit} (h : KeepsTotals oracle isValid vaults validators d) (pubkey : HexStr) :
    pubkey ∈ countedPubkeys vaults (applyPendingDeposit isValid validators d) (pre ++ post) ↔
      pubkey ∈ countedPubkeys vaults validators (pre ++ d :: post) := by
  rw [mem_countedPubkeys, mem_countedPubkeys]
  have hqueue : (∃ d' ∈ pre ++ d :: post, d'.withdrawalCredentials ∈ vaultWcs vaults ∧ d'.pubkey = pubkey) ↔
      (d.withdrawalCredentials ∈ vaultWcs vaults ∧ d.pubkey = pubkey) ∨
        ∃ d' ∈ pre ++ post, d'.withdrawalCredentials ∈ vaultWcs vaults ∧ d'.pubkey = pubkey := by
    simp only [List.perm_middle.mem_iff, List.mem_cons, or_and_right, exists_or, exists_eq_left]
  rw [hqueue]
  by_cases hmem : d.pubkey ∈ validators.map (·.validator.pubkey)
  · have hsame : (applyPendingDeposit isValid validators d).map (·.validator.pubkey) =
        validators.map (·.validator.pubkey) := by
      rw [applyPendingDeposit, if_pos hmem, pubkeys_updateBalance]
    rw [hsame]
    constructor
    · exact Or.imp_right Or.inr
    · intro hor
      rcases hor with hold | ⟨-, hkey⟩ | hlater
      · exact Or.inl hold
      · exact Or.inl (hkey ▸ hmem)
      · exact Or.inr hlater
  · -- the pubkey was counted as an unmatched deposit
    obtain ⟨hvalid, -, info, hinfo, -, hwc⟩ := h.resolve_left fun hsome => hmem (find_isSome_iff.mp hsome)
    have hvault : d.withdrawalCredentials ∈ vaultWcs vaults := hwc ▸ List.mem_map_of_mem hinfo
    have hnew : (applyPendingDeposit isValid validators d).map (·.validator.pubkey) =
        validators.map (·.validator.pubkey) ++ [d.pubkey] := by
      rw [applyPendingDeposit, if_neg hmem, if_pos hvalid, List.map_append]
      rfl
    rw [hnew, List.mem_append, List.mem_singleton]
    simp only [hvault, true_and, eq_comm, or_assoc]

/-- Processing a deposit that keeps the totals changes no vault's value; the values are produced, and every pubkey
counts once in them, for at most one vault; the order of validators and of deposits does not matter. -/
theorem getVaultsTotalValues_depositProcessing (oracle : LazyOracle) (isValid : PendingDeposit → Bool) (vaults : VaultsMap)
    (validators : List Validator) (deposits : List PendingDeposit) (hwcs : (vaultWcs vaults).Nodup)
    (hpubkeys : (validators.map (·.validator.pubkey)).Nodup) :
    (∀ pre d post, deposits = pre ++ d :: post → KeepsTotals oracle isValid vaults validators d →
      getVaultsTotalValues oracle vaults (applyPendingDeposit isValid validators d) (pre ++ post) =
        getVaultsTotalValues oracle vaults validators deposits) ∧
    ((countedPubkeys vaults validators deposits).Nodup ∧
      (0 < oracle.batchSize → ∃ values, getVaultsTotalValues oracle vaults validators deposits = .ok values) ∧
      ∀ values, getVaultsTotalValues oracle vaults validators deposits = .ok values →
        values = vaults.mapKV fun vault info => info.aggregatedBalance +
          ((countedPubkeys vaults validators deposits).map fun pubkey =>
            valueAt vault (contributionOf oracle vaults validators deposits pubkey)).sum) ∧
    ∀ validators' deposits', validators.Perm validators' → deposits.Perm deposits' →
      getVaultsTotalValues oracle vaults validators' deposits' =
        getVaultsTotalValues oracle vaults validators deposits := by
  refine ⟨?_, ⟨countedPubkeys_nodup hpubkeys deposits, ?_, ?_⟩, ?_⟩
  · intro pre d post hqueue hkeeps
    rw [hqueue]
    exact getVaultsTotalValues_congr hpubkeys (nodup_applyPendingDeposit hpubkeys d)
      (contributionOf_applyPendingDeposit hwcs hkeeps) (countedPubkeys_applyPendingDeposit hkeeps)
  · intro hn
    exact ⟨_, (getVaultsTotalValues_eq_ok hpubkeys deposits).mpr ⟨hn, rfl⟩⟩
  · intro values h
    exact ((getVaultsTotalValues_eq_ok hpubkeys deposits).mp h).2
  · intro validators' deposits' hvalidators hdeposits
    refine getVaultsTotalValues_congr hpubkeys ((hvalidators.map _).nodup_iff.mp hpubkeys) (fun pubkey => ?_) fun pubkey => ?_
    · unfold contributionOf
      rw [find_perm hpubkeys hvalidators, amountOf_depositsOf_perm hdeposits]
    · rw [mem_countedPubkeys, mem_countedPubkeys, (hvalidators.map _).mem_iff]
      simp only [hdeposits.mem_iff]

def predepositOracle : LazyOracle := ⟨fun _ => ⟨.predeposited, "0xv", "0xn"⟩, 100⟩

def predepositVault : VaultInfo := ⟨"0xv", 5, 0, "0x02v", 0, 0, 0, 0, 0, 0, 0, 0, 0, false⟩

def predepositQueue : List PendingDeposit := [⟨"0xaa", "0x02v", 1000000000, "ok", 0⟩, ⟨"0xaa", "0x01w", 31000000000, "ok", 1⟩]

/-- A predeposit becomes a validator while a foreign deposit of its pubkey waits. -/
theorem getVaultsTotalValues_depositProcessing_predeposit :
    getVaultsTotalValues predepositOracle (Dict.ofList [("0xv", predepositVault)]) [] predepositQueue =
        .ok (Dict.ofList [("0xv", 1000000000000000005)]) ∧
      getVaultsTotalValues predepositOracle (Dict.ofList [("0xv", predepositVault)])
          (applyPendingDeposit (·.signature == "ok") [] ⟨"0xaa", "0x02v", 1000000000, "ok", 0⟩)
          ([] ++ [⟨"0xaa", "0x01w", 31000000000, "ok", 1⟩]) =
        .ok (Dict.ofList [("0xv", 1000000000000000005)]) := by
  obtain ⟨hkeeps, ⟨-, hreturns, hvalues⟩, -⟩ := getVaultsTotalValues_depositProcessing predepositOracle
    (·.signature == "ok") (Dict.ofList [("0xv", predepositVault)]) [] predepositQueue (List.nodup_singleton _) List.nodup_nil
  obtain ⟨values, hok⟩ := hreturns (Nat.zero_lt_succ 99)
  have hvalue : values = Dict.ofList [("0xv", 1000000000000000005)] :=
    (hvalues values hok).trans (Dict.ext (by decide +kernel))
  have hbefore := hok.trans (congrArg _ hvalue)
  refine ⟨hbefore, (hkeeps [] _ [⟨"0xaa", "0x01w", 31000000000, "ok", 1⟩] rfl ?_).trans hbefore⟩
  exact .inr ⟨rfl, rfl, predepositVault, List.mem_singleton.mpr rfl, rfl, rfl⟩

end DepositProcessing

end StakingVaultsService

end LidoOracle
