import LidoOracle.Lib.Python
import LidoOracle.LidoValidators.Pending

/-! The used keys of the protocol merged with the validators and the pending
deposits of one block, and the balances that a report sums over them. -/

namespace LidoOracle

open Consensus

/-- A key as the Keys API returns it -/
structure KeyResponse extends LidoKey where
  used : Bool

structure PendingConsolidation where
  sourceIndex : ValidatorIndex
  targetIndex : ValidatorIndex

/-- What is read for one block -/
structure BlockView where
  usedKeys : List KeyResponse
  /-- `deposited_validators` of the Lido contract's beacon stat -/
  depositedValidators : ℕ
  validators : List Validator
  pendingDeposits : List PendingDeposit
  pendingConsolidations : List PendingConsolidation

inductive ProviderError where
  | unusedKey (k : KeyResponse)
  | duplicatedKey (k previouslyFound : KeyResponse)
  | countOfKeysDiffers (keysCountReceived depositedValidators : ℕ)

abbrev Provide := Py ProviderError

/-- The loop body of `_check_used_keys` -/
def checkUsedKey (keysSeen : Dict HexStr KeyResponse) (k : KeyResponse) : Provide (Dict HexStr KeyResponse) :=
  if !k.used then .error (.raised (.unusedKey k))
  else match keysSeen.get? k.key with
    | some previouslyFound => .error (.raised (.duplicatedKey k previouslyFound))
    | none => .ok (keysSeen.set k.key k)

def getUsedLidoKeys (view : BlockView) : Provide (List LidoKey) := do
  let _ ← view.usedKeys.foldlM checkUsedKey Dict.empty
  return view.usedKeys.map (·.toLidoKey)

/-- A Lido validator whose deposits and consolidations are not looked up yet -/
structure KeyedValidator extends Validator where
  lidoId : LidoKey

def validatorsKeysDict (validators : List Validator) : Dict HexStr Validator :=
  Dict.ofList (validators.map fun v => (v.validator.pubkey, v))

def computeLidoValidators (keys : List LidoKey) (validators : List Validator) : List KeyedValidator × List LidoKey :=
  (keys.filterMap fun key => ((validatorsKeysDict validators).get? key.key).map fun v => { v with lidoId := key },
    keys.filter fun key => key.key ∉ validatorsKeysDict validators)

def kapiSanityCheck (view : BlockView) (keysCountReceived : ℕ) : Provide Unit :=
  if keysCountReceived < view.depositedValidators then
    .error (.raised (.countOfKeysDiffers keysCountReceived view.depositedValidators))
  else .ok ()

def getLidoValidatorsWithKeys (view : BlockView) : Provide (List KeyedValidator × List LidoKey) := do
  let lidoKeys ← getUsedLidoKeys view
  kapiSanityCheck view lidoKeys.length
  return computeLidoValidators lidoKeys view.validators

structure Consolidations where
  bySource : Dict ValidatorIndex ConsolidationRequest
  byTarget : Dict ValidatorIndex (List ConsolidationRequest)

def getValidatorsByIndexes (view : BlockView) : Dict ValidatorIndex Validator :=
  Dict.ofList (view.validators.map fun v => (v.index, v))

/-- Consolidations whose source validator is slashed are skipped. -/
def addConsolidation (validatorsByIndex : Dict ValidatorIndex Validator) (acc : Consolidations)
    (consolidation : PendingConsolidation) : Provide Consolidations := do
  let sourceValidator ← Py.getItem validatorsByIndex consolidation.sourceIndex
  if sourceValidator.validator.slashed then return acc
  let req : ConsolidationRequest := {
    sourceIndex := consolidation.sourceIndex
    targetIndex := consolidation.targetIndex
    amount := min sourceValidator.balance (getMaxEffectiveBalance sourceValidator.validator) }
  return {
    bySource := acc.bySource.set consolidation.sourceIndex req
    byTarget := acc.byTarget.push consolidation.targetIndex req }

def lidoValidatorOf (depositsByPubkey : Dict HexStr (List PendingDeposit)) (consolidations : Consolidations)
    (v : KeyedValidator) : LidoValidator where
  toValidator := v.toValidator
  lidoId := v.lidoId
  pendingTopups := (depositsByPubkey.get? v.validator.pubkey).getD []
  consolidatingAsSource := consolidations.bySource.get? v.index
  consolidatingAsTarget := (consolidations.byTarget.get? v.index).getD []

def getActiveLidoValidators (view : BlockView) : Provide (List LidoValidator) := do
  let depositsByPubkey := Dict.groupBy (·.pubkey) view.pendingDeposits
  let consolidations ← view.pendingConsolidations.foldlM (addConsolidation (getValidatorsByIndexes view))
    ⟨Dict.empty, Dict.empty⟩
  let (lidoValidators, _) ← getLidoValidatorsWithKeys view
  return lidoValidators.map (lidoValidatorOf depositsByPubkey consolidations)

def withPendingKey (pendingKeys : Dict HexStr LidoKey) (e : HexStr × List PendingDeposit) :
    Provide (HexStr × LidoKey × List PendingDeposit) := do
  let key ← Py.getItem pendingKeys e.1
  return (e.1, key, e.2)

def getPendingLidoValidators (rules : DepositRules) (view : BlockView) :
    Provide (Dict HexStr (LidoKey × List PendingDeposit)) := do
  let (_, pendingLidoKeys) ← getLidoValidatorsWithKeys view
  let pendingKeys := Dict.ofList (pendingLidoKeys.map fun key => (key.key, key))
  let valid := collectValidPendingDeposits rules view.pendingDeposits pendingKeys.keys
  let entries ← valid.entries.mapM (withPendingKey pendingKeys)
  return Dict.ofList entries

def getClValidatorsBalance (view : BlockView) : Provide Gwei := do
  let lidoValidators ← getActiveLidoValidators view
  return (lidoValidators.map (·.balance)).sum

/-- New validators and top-ups of the active ones -/
def getClPendingValidatorsBalance (rules : DepositRules) (view : BlockView) : Provide Gwei := do
  let lidoPendingBalanceByKeys ← getPendingLidoValidators rules view
  let newValidatorsPending := (lidoPendingBalanceByKeys.values.map fun e => amountOf e.2).sum
  let activeValidators ← getActiveLidoValidators view
  let topupsPending := (activeValidators.map fun v => amountOf v.pendingTopups).sum
  return newValidatorsPending + topupsPending

section Merge

variable {validators : List Validator}

theorem get?_validatorsKeysDict (h : (validators.map (·.validator.pubkey)).Nodup) (pubkey : HexStr) :
    (validatorsKeysDict validators).get? pubkey = find validators pubkey := by
  unfold validatorsKeysDict find
  rw [Dict.get?_ofList (by simpa [Function.comp_def] using h), List.find?_map, Option.map_map]
  exact Option.map_id'

theorem mem_validatorsKeysDict {pubkey : HexStr} :
    pubkey ∈ validatorsKeysDict validators ↔ (find validators pubkey).isSome := by
  rw [validatorsKeysDict, Dict.mem_ofList, find_isSome_iff, List.map_map]
  rfl

/-- A sum over the active Lido validators, taken over the used keys -/
theorem sum_lidoValidators (h : (validators.map (·.validator.pubkey)).Nodup) (f : Validator → Gwei)
    (keys : List LidoKey) :
    ((computeLidoValidators keys validators).1.map fun v => f v.toValidator).sum =
      (keys.map fun key => ((find validators key.key).map f).getD 0).sum := by
  unfold computeLidoValidators
  induction keys with
  | nil => rfl
  | cons key keys ih =>
    rw [List.map_cons, List.sum_cons, ← ih]
    cases hfind : find validators key.key with
    | none =>
      rw [List.filterMap_cons_none (by rw [get?_validatorsKeysDict h, hfind]; rfl)]
      simp
    | some v =>
      rw [List.filterMap_cons_some (by rw [get?_validatorsKeysDict h, hfind]; rfl)]
      simp

theorem pubkeys_lidoValidators (h : (validators.map (·.validator.pubkey)).Nodup) (keys : List LidoKey) :
    (computeLidoValidators keys validators).1.map (·.validator.pubkey) =
      (keys.map (·.key)).filter fun pubkey => (find validators pubkey).isSome := by
  unfold computeLidoValidators
  induction keys with
  | nil => rfl
  | cons key keys ih =>
    dsimp only at ih ⊢
    cases hfind : find validators key.key with
    | none =>
      rw [List.filterMap_cons_none (by rw [get?_validatorsKeysDict h, hfind]; rfl), List.map_cons,
        List.filter_cons_of_neg (by rw [hfind]; exact Bool.false_ne_true), ih]
    | some v =>
      rw [List.filterMap_cons_some (by rw [get?_validatorsKeysDict h, hfind]; rfl), List.map_cons, List.map_cons,
        List.filter_cons_of_pos (by rw [hfind]; rfl), ih, (find_some hfind).2]

theorem pendingLidoKeys_eq (keys : List LidoKey) :
    (computeLidoValidators keys validators).2 = keys.filter fun key => (find validators key.key).isNone := by
  unfold computeLidoValidators
  refine List.filter_congr fun key _ => ?_
  rw [Bool.eq_iff_iff, decide_eq_true_eq, mem_validatorsKeysDict]
  simp

/-- Balances, collected deposits and top-ups, put together key by key -/
theorem sum_ownedAt (rules : DepositRules) (validators : List Validator) (deposits : List PendingDeposit)
    (keys : List LidoKey) :
    (keys.map fun key => ((find validators key.key).map (·.balance)).getD 0).sum +
      (((keys.filter fun key => (find validators key.key).isNone).map fun key => pendingAt rules deposits key.key).sum +
        (keys.map fun key => ((find validators key.key).map
          fun v => amountOf (depositsOf deposits v.validator.pubkey)).getD 0).sum) =
      (keys.map fun key => ownedAt rules validators deposits key.key).sum := by
  induction keys with
  | nil => rfl
  | cons key keys ih =>
    rw [List.map_cons, List.map_cons, List.map_cons, List.sum_cons, List.sum_cons, List.sum_cons, ← ih, ownedAt]
    cases hfind : find validators key.key with
    | none =>
      rw [List.filter_cons_of_pos (by rw [hfind]; rfl), List.map_cons, List.sum_cons]
      simp only [Option.map_none, Option.getD_none]
      ring
    | some v =>
      rw [List.filter_cons_of_neg (by rw [hfind]; exact Bool.false_ne_true), (find_some hfind).2.symm]
      simp only [Option.map_some, Option.getD_some]
      ring

end Merge

section Checks

/-- What the provider's own checks ask of the block -/
structure BlockView.Consistent (view : BlockView) : Prop where
  usedKeys : ∃ keysSeen, view.usedKeys.foldlM checkUsedKey Dict.empty = .ok keysSeen
  keysCount : view.depositedValidators ≤ view.usedKeys.length
  sources : ∀ consolidation ∈ view.pendingConsolidations,
    consolidation.sourceIndex ∈ view.validators.map (·.index)

def BlockView.lidoKeys (view : BlockView) : List LidoKey := view.usedKeys.map (·.toLidoKey)

variable {view : BlockView}

theorem checkUsedKey_ok {keysSeen keysSeen' : Dict HexStr KeyResponse} {k : KeyResponse}
    (h : checkUsedKey keysSeen k = .ok keysSeen') : k.key ∉ keysSeen ∧ keysSeen' = keysSeen.set k.key k := by
  unfold checkUsedKey at h
  split_ifs at h
  cases hget : keysSeen.get? k.key with
  | some previouslyFound => rw [hget] at h; cases h
  | none =>
    rw [hget] at h
    cases h
    exact ⟨Dict.get?_eq_none_iff.mp hget, rfl⟩

theorem usedKeys_nodup {keys : List KeyResponse} {keysSeen : Dict HexStr KeyResponse}
    (h : keys.foldlM checkUsedKey Dict.empty = .ok keysSeen) : (keys.map (·.key)).Nodup := by
  have hinv := ExceptRun.foldlM_invariant
    (fun (pre : List KeyResponse) (seen : Dict HexStr KeyResponse) =>
      (pre.map (·.key)).Nodup ∧ ∀ key, key ∈ pre.map (·.key) → key ∈ seen)
    (fun pre k seen seen' hpre hstep => by
      obtain ⟨hnew, rfl⟩ := checkUsedKey_ok hstep
      rw [List.map_append, List.map_singleton]
      refine ⟨List.nodup_append.mpr ⟨hpre.1, List.nodup_singleton _, ?_⟩, fun key hkey => ?_⟩
      · intro a ha b hb hab
        rw [List.mem_singleton.mp hb] at hab
        exact hnew (hpre.2 _ (hab ▸ ha))
      · rw [Dict.mem_set]
        rcases List.mem_append.mp hkey with hold | hlast
        · exact Or.inr (hpre.2 key hold)
        · exact Or.inl (List.mem_singleton.mp hlast))
    ⟨List.nodup_nil, fun _ hkey => absurd hkey List.not_mem_nil⟩ h
  exact hinv.1

theorem lidoKeys_nodup (h : view.Consistent) : (view.lidoKeys.map (·.key)).Nodup := by
  obtain ⟨keysSeen, hkeys⟩ := h.usedKeys
  simpa [BlockView.lidoKeys, Function.comp_def] using usedKeys_nodup hkeys

theorem addConsolidation_ok_iff (validatorsByIndex : Dict ValidatorIndex Validator) (acc : Consolidations)
    (consolidation : PendingConsolidation) :
    (∃ acc', addConsolidation validatorsByIndex acc consolidation = .ok acc') ↔
      consolidation.sourceIndex ∈ validatorsByIndex := by
  rw [Dict.mem_iff_exists_get?]
  unfold addConsolidation
  constructor
  · intro ⟨acc', h⟩
    obtain ⟨v, hv, -⟩ := Except.bind_eq_ok.mp h
    exact ⟨v, Py.getItem_eq_ok.mp hv⟩
  · intro ⟨v, hv⟩
    rw [Py.getItem_eq_ok.mpr hv, Except.ok_bind]
    split_ifs <;> exact ⟨_, rfl⟩

theorem addConsolidations_ok_iff (validatorsByIndex : Dict ValidatorIndex Validator)
    (consolidations : List PendingConsolidation) (acc : Consolidations) :
    (∃ acc', consolidations.foldlM (addConsolidation validatorsByIndex) acc = .ok acc') ↔
      ∀ consolidation ∈ consolidations, consolidation.sourceIndex ∈ validatorsByIndex := by
  induction consolidations generalizing acc with
  | nil => exact iff_of_true ⟨acc, rfl⟩ fun _ h => absurd h List.not_mem_nil
  | cons consolidation consolidations ih =>
    rw [List.forall_mem_cons, ← addConsolidation_ok_iff validatorsByIndex acc]
    constructor
    · intro ⟨acc'', h⟩
      obtain ⟨acc', hstep, hrest⟩ := ExceptRun.foldlM_cons_ok.mp h
      exact ⟨⟨acc', hstep⟩, (ih acc').mp ⟨acc'', hrest⟩⟩
    · intro ⟨⟨acc', hstep⟩, hrest⟩
      obtain ⟨acc'', hrest⟩ := (ih acc').mpr hrest
      exact ⟨acc'', ExceptRun.foldlM_cons_ok.mpr ⟨acc', hstep, hrest⟩⟩

theorem getLidoValidatorsWithKeys_eq_ok {r : List KeyedValidator × List LidoKey} :
    getLidoValidatorsWithKeys view = .ok r ↔
      (∃ keysSeen, view.usedKeys.foldlM checkUsedKey Dict.empty = .ok keysSeen) ∧
        view.depositedValidators ≤ view.usedKeys.length ∧ computeLidoValidators view.lidoKeys view.validators = r := by
  unfold getLidoValidatorsWithKeys getUsedLidoKeys kapiSanityCheck
  cases hcheck : view.usedKeys.foldlM checkUsedKey Dict.empty with
  | error e => simp
  | ok keysSeen =>
    by_cases hcount : view.usedKeys.length < view.depositedValidators
    · simp [hcount]
    · simp [hcount, BlockView.lidoKeys, not_lt.mp hcount]

theorem getActiveLidoValidators_eq_ok {lidoValidators : List LidoValidator}
    (h : getActiveLidoValidators view = .ok lidoValidators) :
    view.Consistent ∧ ∃ consolidations, lidoValidators = (computeLidoValidators view.lidoKeys view.validators).1.map
      (lidoValidatorOf (Dict.groupBy (·.pubkey) view.pendingDeposits) consolidations) := by
  obtain ⟨consolidations, hconsolidations, h⟩ := Except.bind_eq_ok.mp h
  obtain ⟨r, hr, h⟩ := Except.bind_eq_ok.mp h
  obtain ⟨hkeys, hcount, rfl⟩ := getLidoValidatorsWithKeys_eq_ok.mp hr
  have hsources := (addConsolidations_ok_iff _ _ _).mp ⟨consolidations, hconsolidations⟩
  refine ⟨⟨hkeys, hcount, fun c hc => ?_⟩, consolidations, (Except.pure_eq_ok.mp h).symm⟩
  have hmem := hsources c hc
  rw [getValidatorsByIndexes, Dict.mem_ofList, List.map_map] at hmem
  exact hmem

theorem getActiveLidoValidators_consistent (h : view.Consistent) :
    ∃ lidoValidators, getActiveLidoValidators view = .ok lidoValidators := by
  have hsources : ∀ c ∈ view.pendingConsolidations, c.sourceIndex ∈ getValidatorsByIndexes view := by
    intro c hc
    rw [getValidatorsByIndexes, Dict.mem_ofList, List.map_map]
    exact h.sources c hc
  obtain ⟨consolidations, hconsolidations⟩ := (addConsolidations_ok_iff _ _ ⟨Dict.empty, Dict.empty⟩).mpr hsources
  have hkeys := getLidoValidatorsWithKeys_eq_ok.mpr ⟨h.usedKeys, h.keysCount, rfl⟩
  refine ⟨_, Except.bind_eq_ok.mpr ⟨consolidations, hconsolidations, Except.bind_eq_ok.mpr ⟨_, hkeys, rfl⟩⟩⟩

theorem withPendingKeys_ok {pendingKeys : Dict HexStr LidoKey} {es : List (HexStr × List PendingDeposit)}
    (h : ∀ e ∈ es, e.1 ∈ pendingKeys) :
    ∃ es', es.mapM (withPendingKey pendingKeys) = .ok es' ∧ es'.map (fun e => (e.1, e.2.2)) = es := by
  induction es with
  | nil => exact ⟨[], rfl, rfl⟩
  | cons e es ih =>
    rw [List.forall_mem_cons] at h
    obtain ⟨es', hes, hmap⟩ := ih h.2
    obtain ⟨key, hkey⟩ := Dict.mem_iff_exists_get?.mp h.1
    have hstep : withPendingKey pendingKeys e = .ok (e.1, key, e.2) := by
      unfold withPendingKey
      rw [Py.getItem_eq_ok.mpr hkey]
      rfl
    refine ⟨(e.1, key, e.2) :: es', ?_, by rw [List.map_cons, hmap]⟩
    rw [List.mapM_cons, hstep, hes]
    rfl

/-- Every collected key is a pending Lido key, so the dictionary is built without an error. -/
theorem getPendingLidoValidators_values (rules : DepositRules) (h : view.Consistent) :
    ∃ pending, getPendingLidoValidators rules view = .ok pending ∧
      (pending.values.map fun e => amountOf e.2).sum =
        ((view.lidoKeys.filter fun key => (find view.validators key.key).isNone).map
          fun key => pendingAt rules view.pendingDeposits key.key).sum := by
  have hkeys := getLidoValidatorsWithKeys_eq_ok.mpr ⟨h.usedKeys, h.keysCount, rfl⟩
  have hpending : (computeLidoValidators view.lidoKeys view.validators).2 =
      view.lidoKeys.filter fun key => (find view.validators key.key).isNone := pendingLidoKeys_eq _
  generalize hks : view.lidoKeys.filter (fun key => (find view.validators key.key).isNone) = pendingLidoKeys
  rw [hks] at hpending
  have hnodup : ((pendingLidoKeys.map fun key => (key.key, key)).map Prod.fst).Nodup := by
    rw [List.map_map, ← hks]
    exact (lidoKeys_nodup h).sublist (List.filter_sublist.map _)
  set pendingKeys := Dict.ofList (pendingLidoKeys.map fun key => (key.key, key)) with hdict
  have hkeysEq : pendingKeys.keys = pendingLidoKeys.map (·.key) := by
    rw [Dict.keys, hdict, Dict.entries_ofList hnodup, List.map_map]
    rfl
  set valid := collectValidPendingDeposits rules view.pendingDeposits pendingKeys.keys with hvalid
  have hmem : ∀ e ∈ valid.entries, e.1 ∈ pendingKeys := fun e he =>
    Dict.mem_keys.mp (mem_filter_of_collected view.pendingDeposits (Dict.mem_of_mem_entries he))
  obtain ⟨entries, hentries, hmap⟩ := withPendingKeys_ok hmem
  have hfst : (entries.map Prod.fst).Nodup := by
    have h' := valid.nodupKeys
    rw [← hmap, List.map_map] at h'
    exact h'
  refine ⟨Dict.ofList entries, ?_, ?_⟩
  · refine Except.bind_eq_ok.mpr ⟨_, hkeys, ?_⟩
    change (collectValidPendingDeposits rules view.pendingDeposits (Dict.ofList
      ((computeLidoValidators view.lidoKeys view.validators).2.map fun key => (key.key, key))).keys).entries.mapM
      (withPendingKey (Dict.ofList ((computeLidoValidators view.lidoKeys view.validators).2.map
        fun key => (key.key, key)))) >>= _ = _
    rw [hpending, ← hdict, ← hvalid, hentries]
    rfl
  · have hsum := @sum_collected rules pendingKeys.keys view.pendingDeposits pendingKeys.keys_nodup
    rw [← hvalid, hkeysEq, List.map_map] at hsum
    rw [← Function.comp_def (pendingAt rules view.pendingDeposits), ← hsum, Dict.values, Dict.values,
      Dict.entries_ofList hfst, ← hmap, List.map_map, List.map_map, List.map_map]
    rfl

end Checks

end LidoOracle
