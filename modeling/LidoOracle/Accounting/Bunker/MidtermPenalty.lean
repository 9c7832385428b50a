import LidoOracle.Lib.Cells
import LidoOracle.Lib.Python
import LidoOracle.Types

/-! The prediction of midterm slashing penalties against the ring of slashings
it predicts. The ring has one bucket an epoch; the end of an epoch clears the
bucket of the next one. -/

namespace LidoOracle

namespace MidtermSlashingPenalty

def PROPORTIONAL_SLASHING_MULTIPLIER_BELLATRIX : ℕ := 3

inductive PenaltyError where
  | unexpectedLength
  deriving DecidableEq, Repr

abbrev Predicting := Py PenaltyError

/-- `i % EPOCHS_PER_SLASHINGS_VECTOR` for the epochs whose buckets are taken to be overwritten -/
def obsoleteIndexes (midtermPenaltyEpoch reportRefEpoch : EpochNumber) : List ℕ :=
  (List.range' (reportRefEpoch + 1) (midtermPenaltyEpoch - (reportRefEpoch + 1))).map
    (· % EPOCHS_PER_SLASHINGS_VECTOR)

def cutSlashings (slashings : List Gwei) (midtermPenaltyEpoch reportRefEpoch : EpochNumber) :
    Predicting (List Gwei) :=
  if slashings.length ≠ EPOCHS_PER_SLASHINGS_VECTOR then .error (.raised .unexpectedLength)
  else if midtermPenaltyEpoch - reportRefEpoch > EPOCHS_PER_SLASHINGS_VECTOR then .ok []
  else .ok (Cells.others slashings (obsoleteIndexes midtermPenaltyEpoch reportRefEpoch))

def getValidatorMidtermPenalty (validator : Validator) (slashings : List Gwei) (totalBalance : Gwei)
    (midtermPenaltyEpoch reportRefEpoch : EpochNumber) : Predicting ℤ := do
  let kept ← cutSlashings slashings midtermPenaltyEpoch reportRefEpoch
  let adjusted := min (kept.sum * PROPORTIONAL_SLASHING_MULTIPLIER_BELLATRIX) totalBalance
  let perIncrement ← Py.floorDiv adjusted (totalBalance / EFFECTIVE_BALANCE_INCREMENT : ℕ)
  return perIncrement * (validator.validator.effectiveBalance / EFFECTIVE_BALANCE_INCREMENT : ℕ)

def getMidtermPenaltyEpoch (validator : Validator) : EpochNumber :=
  validator.validator.withdrawableEpoch - EPOCHS_PER_SLASHINGS_VECTOR / 2

def predictMidtermPenaltyInFrame (reportRefEpoch : EpochNumber) (slashings : List Gwei) (totalBalance : Gwei)
    (validators : List Validator) : Predicting ℤ :=
  validators.foldlM (fun penaltyInFrame validator => do
    let penalty ← getValidatorMidtermPenalty validator slashings totalBalance
      (getMidtermPenaltyEpoch validator) reportRefEpoch
    return penaltyInFrame + penalty) 0

/-! The ring itself, by the consensus rules -/

/-- `process_slashings_reset` at the end of an epoch -/
def processSlashingsReset (slashings : List Gwei) (epoch : EpochNumber) : List Gwei :=
  slashings.set ((epoch + 1) % EPOCHS_PER_SLASHINGS_VECTOR) 0

/-- The ring when `process_slashings` of the later epoch runs: every epoch since then has ended but
that one, and nothing has been slashed. -/
def slashingsAt (slashings : List Gwei) (refEpoch epoch : EpochNumber) : List Gwei :=
  (List.range' refEpoch (epoch - refEpoch)).foldl processSlashingsReset slashings

/-- The penalty that `process_slashings` takes from a validator whose midterm epoch it is -/
def processSlashings (slashings : List Gwei) (totalBalance : Gwei) (validator : Validator) : Predicting ℤ := do
  let adjusted := min (slashings.sum * PROPORTIONAL_SLASHING_MULTIPLIER_BELLATRIX) totalBalance
  let perIncrement ← Py.floorDiv adjusted (totalBalance / EFFECTIVE_BALANCE_INCREMENT : ℕ)
  return perIncrement * (validator.validator.effectiveBalance / EFFECTIVE_BALANCE_INCREMENT : ℕ)

section Ring

variable {slashings : List ℕ} {midtermPenaltyEpoch reportRefEpoch : ℕ}

/-- Before the last reset the ring has lost the buckets that the code leaves out. -/
theorem slashingsAt_pred (hlt : reportRefEpoch < midtermPenaltyEpoch) :
    slashingsAt slashings reportRefEpoch (midtermPenaltyEpoch - 1) =
      Cells.reset slashings (obsoleteIndexes midtermPenaltyEpoch reportRefEpoch) := by
  have hcount : midtermPenaltyEpoch - 1 - reportRefEpoch = midtermPenaltyEpoch - (reportRefEpoch + 1) := by omega
  rw [slashingsAt, hcount, obsoleteIndexes, List.range'_succ_left, List.map_map, Cells.reset, List.foldl_map]
  rfl

/-- At the midterm epoch it has lost one more: that of the midterm epoch. -/
theorem slashingsAt_eq (hlt : reportRefEpoch < midtermPenaltyEpoch) :
    slashingsAt slashings reportRefEpoch midtermPenaltyEpoch =
      Cells.reset slashings (obsoleteIndexes midtermPenaltyEpoch reportRefEpoch ++
        [midtermPenaltyEpoch % EPOCHS_PER_SLASHINGS_VECTOR]) := by
  have hcount : midtermPenaltyEpoch - reportRefEpoch = midtermPenaltyEpoch - 1 - reportRefEpoch + 1 := by omega
  have hlast : reportRefEpoch + (midtermPenaltyEpoch - 1 - reportRefEpoch) + 1 = midtermPenaltyEpoch := by omega
  have hpred := @slashingsAt_pred slashings _ _ hlt
  rw [slashingsAt] at hpred
  rw [slashingsAt, hcount, List.range'_1_concat, List.foldl_append, hpred, Cells.reset_append]
  simp only [List.foldl_cons, List.foldl_nil, processSlashingsReset, hlast]
  rfl

/-- No epoch in between shares the bucket of the midterm epoch within one turn. -/
theorem midterm_not_mem_obsolete (hturn : midtermPenaltyEpoch - reportRefEpoch ≤ EPOCHS_PER_SLASHINGS_VECTOR) :
    midtermPenaltyEpoch % EPOCHS_PER_SLASHINGS_VECTOR ∉ obsoleteIndexes midtermPenaltyEpoch reportRefEpoch := by
  intro hmem
  obtain ⟨epoch, hepoch, heq⟩ := List.mem_map.mp hmem
  rw [List.mem_range'_1] at hepoch
  unfold EPOCHS_PER_SLASHINGS_VECTOR at hturn heq
  omega

/-- After more than a turn every bucket is left out. -/
theorem mem_obsolete_of_turn (hturn : EPOCHS_PER_SLASHINGS_VECTOR < midtermPenaltyEpoch - reportRefEpoch) {i : ℕ}
    (hi : i < EPOCHS_PER_SLASHINGS_VECTOR) : i ∈ obsoleteIndexes midtermPenaltyEpoch reportRefEpoch := by
  -- the first epoch after the reference epoch that falls into bucket `i`
  refine List.mem_map.mpr ⟨reportRefEpoch + 1 + (i + EPOCHS_PER_SLASHINGS_VECTOR -
    (reportRefEpoch + 1) % EPOCHS_PER_SLASHINGS_VECTOR) % EPOCHS_PER_SLASHINGS_VECTOR, ?_, ?_⟩
  · rw [List.mem_range'_1]
    unfold EPOCHS_PER_SLASHINGS_VECTOR at hturn hi ⊢
    omega
  · unfold EPOCHS_PER_SLASHINGS_VECTOR at hi ⊢
    omega

theorem sum_slashingsAt_of_turn (hlength : slashings.length = EPOCHS_PER_SLASHINGS_VECTOR)
    (hturn : EPOCHS_PER_SLASHINGS_VECTOR < midtermPenaltyEpoch - reportRefEpoch) :
    (slashingsAt slashings reportRefEpoch midtermPenaltyEpoch).sum = 0 := by
  rw [slashingsAt_eq (by omega)]
  exact Cells.sum_reset_all fun i hi => List.mem_append_left _ (mem_obsolete_of_turn hturn (hlength ▸ hi))

/-- Within a turn the code counts the bucket of the midterm epoch on top of the ring. -/
theorem sum_cutSlashings (hlength : slashings.length = EPOCHS_PER_SLASHINGS_VECTOR)
    (hlt : reportRefEpoch < midtermPenaltyEpoch) :
    ∃ kept, cutSlashings slashings midtermPenaltyEpoch reportRefEpoch = .ok kept ∧
      kept.sum = (slashingsAt slashings reportRefEpoch midtermPenaltyEpoch).sum +
        if EPOCHS_PER_SLASHINGS_VECTOR < midtermPenaltyEpoch - reportRefEpoch then 0
        else slashings.getD (midtermPenaltyEpoch % EPOCHS_PER_SLASHINGS_VECTOR) 0 := by
  unfold cutSlashings
  rw [if_neg (not_not.mpr hlength)]
  by_cases hturn : EPOCHS_PER_SLASHINGS_VECTOR < midtermPenaltyEpoch - reportRefEpoch
  · refine ⟨[], if_pos hturn, ?_⟩
    rw [if_pos hturn, sum_slashingsAt_of_turn hlength hturn]
    rfl
  · refine ⟨_, if_neg hturn, ?_⟩
    rw [if_neg hturn, slashingsAt_eq hlt, Cells.sum_others,
      Cells.sum_reset_snoc (midterm_not_mem_obsolete (not_lt.mp hturn))]

/-- The prediction is that of the ring exactly when the midterm epoch is more than a turn away, or its
bucket is empty at the report already. -/
theorem prediction_agrees_iff (hlength : slashings.length = EPOCHS_PER_SLASHINGS_VECTOR)
    (hlt : reportRefEpoch < midtermPenaltyEpoch) :
    (∃ kept, cutSlashings slashings midtermPenaltyEpoch reportRefEpoch = .ok kept ∧
      kept.sum = (slashingsAt slashings reportRefEpoch midtermPenaltyEpoch).sum ∧
      ∀ validator totalBalance,
        getValidatorMidtermPenalty validator slashings totalBalance midtermPenaltyEpoch reportRefEpoch =
          processSlashings (slashingsAt slashings reportRefEpoch midtermPenaltyEpoch) totalBalance validator) ↔
      EPOCHS_PER_SLASHINGS_VECTOR < midtermPenaltyEpoch - reportRefEpoch ∨
        slashings.getD (midtermPenaltyEpoch % EPOCHS_PER_SLASHINGS_VECTOR) 0 = 0 := by
  obtain ⟨kept, hcut, hsum⟩ := sum_cutSlashings hlength hlt
  constructor
  · rintro ⟨kept', hcut', hsum', -⟩
    rw [hcut', Except.ok.injEq] at hcut
    rw [← hcut, hsum'] at hsum
    by_cases hturn : EPOCHS_PER_SLASHINGS_VECTOR < midtermPenaltyEpoch - reportRefEpoch
    · exact .inl hturn
    · rw [if_neg hturn] at hsum
      exact .inr (left_eq_add.mp hsum)
  · intro hcond
    have hagree : kept.sum = (slashingsAt slashings reportRefEpoch midtermPenaltyEpoch).sum := by
      rw [hsum]
      rcases hcond with hturn | hzero
      · rw [if_pos hturn, add_zero]
      · rw [hzero, ite_self, add_zero]
    refine ⟨kept, hcut, hagree, fun validator totalBalance => ?_⟩
    rw [getValidatorMidtermPenalty, hcut, Except.ok_bind, hagree, processSlashings]

/-- One validator with 32 ETH, slashed in epoch 1809 -/
def lateSlashing : List Gwei := (List.replicate 8192 0).set 1809 (32 * 10 ^ 9)

/-- At the end of epoch 10000 the ring clears bucket `10001 % 8192 = 1809`; the code still counts it. -/
theorem lateSlashing_counted : ∃ kept, cutSlashings lateSlashing 10001 10000 = .ok kept ∧
    kept.sum = (slashingsAt lateSlashing 10000 10001).sum + 32 * 10 ^ 9 ∧
    kept.sum ≠ (slashingsAt lateSlashing 10000 10001).sum := by
  have hlength : lateSlashing.length = EPOCHS_PER_SLASHINGS_VECTOR := by
    rw [lateSlashing, List.length_set, List.length_replicate]
    rfl
  obtain ⟨kept, hcut, hsum⟩ := @sum_cutSlashings lateSlashing 10001 10000 hlength (by decide)
  have hbucket : lateSlashing.getD (10001 % EPOCHS_PER_SLASHINGS_VECTOR) 0 = 32 * 10 ^ 9 := by
    have hindex : 10001 % EPOCHS_PER_SLASHINGS_VECTOR = 1809 := by norm_num [EPOCHS_PER_SLASHINGS_VECTOR]
    rw [hindex, lateSlashing, List.getD_eq_getElem?_getD,
      List.getElem?_set_self (by rw [List.length_replicate]; norm_num), Option.getD_some]
  have hturn : ¬EPOCHS_PER_SLASHINGS_VECTOR < 10001 - 10000 := by norm_num [EPOCHS_PER_SLASHINGS_VECTOR]
  have hextra : kept.sum = (slashingsAt lateSlashing 10000 10001).sum + 32 * 10 ^ 9 := by
    rw [hsum, if_neg hturn, hbucket]
  exact ⟨kept, hcut, hextra, fun heq => by simp [heq] at hextra⟩

/-- What the code keeps is what the ring holds before its last reset, the one at the end of the epoch before the
midterm epoch; within a turn, that is the bucket of the midterm epoch on top of the ring. -/
theorem prediction_beforeLastReset (hlength : slashings.length = EPOCHS_PER_SLASHINGS_VECTOR)
    (hlt : reportRefEpoch < midtermPenaltyEpoch) :
    ∃ kept, cutSlashings slashings midtermPenaltyEpoch reportRefEpoch = .ok kept ∧
      kept.sum = (slashingsAt slashings reportRefEpoch (midtermPenaltyEpoch - 1)).sum ∧
      (kept.sum = (slashingsAt slashings reportRefEpoch midtermPenaltyEpoch).sum +
        if EPOCHS_PER_SLASHINGS_VECTOR < midtermPenaltyEpoch - reportRefEpoch then 0
        else slashings.getD (midtermPenaltyEpoch % EPOCHS_PER_SLASHINGS_VECTOR) 0) ∧
      ∀ validator totalBalance,
        getValidatorMidtermPenalty validator slashings totalBalance midtermPenaltyEpoch reportRefEpoch =
          processSlashings (slashingsAt slashings reportRefEpoch (midtermPenaltyEpoch - 1)) totalBalance validator := by
  obtain ⟨kept, hcut, hsum⟩ := sum_cutSlashings hlength hlt
  have hbefore : kept.sum = (slashingsAt slashings reportRefEpoch (midtermPenaltyEpoch - 1)).sum := by
    rw [hsum, slashingsAt_pred hlt]
    by_cases hturn : EPOCHS_PER_SLASHINGS_VECTOR < midtermPenaltyEpoch - reportRefEpoch
    · -- every bucket has been cleared without the last reset
      rw [if_pos hturn, sum_slashingsAt_of_turn hlength hturn, add_zero]
      exact (Cells.sum_reset_all fun i hi => mem_obsolete_of_turn hturn (hlength ▸ hi)).symm
    · rw [if_neg hturn, slashingsAt_eq hlt, Cells.sum_reset_snoc (midterm_not_mem_obsolete (not_lt.mp hturn))]
  refine ⟨kept, hcut, hbefore, hsum, fun validator totalBalance => ?_⟩
  rw [getValidatorMidtermPenalty, hcut, Except.ok_bind, hbefore, processSlashings]

/-- A validator with 32 ETH that was slashed so that epoch 10002 is its midterm epoch -/
def slashedValidator : Validator where
  index := 7
  balance := 32 * 10 ^ 9
  validator := {
    pubkey := "0xaa", withdrawalCredentials := "0x01", effectiveBalance := maxEffectiveBalanceOf "0x01", slashed := true,
    activationEligibilityEpoch := 0, activationEpoch := 0, exitEpoch := 9000, withdrawableEpoch := 14098,
    effectiveBalance_le := le_refl _ }

/-- Every epoch has added one ether to the ring. The prediction for two epochs later leaves one bucket out, and the
validator is to lose that share of the 32 million ETH that are staked. -/
theorem prediction_beforeLastReset_fullRing :
    ∃ kept, cutSlashings (List.replicate 8192 (10 ^ 9)) 10002 10000 = .ok kept ∧ kept.sum = 8191 * 10 ^ 9 ∧
      getValidatorMidtermPenalty slashedValidator (List.replicate 8192 (10 ^ 9)) (32 * 10 ^ 15) 10002 10000 =
        .ok 24572992 := by
  obtain ⟨kept, hcut, hsum, -, hpenalty⟩ := @prediction_beforeLastReset (List.replicate 8192 (10 ^ 9)) 10002 10000
    List.length_replicate (by decide)
  have hring : slashingsAt (List.replicate 8192 (10 ^ 9)) 10000 (10002 - 1) =
      (List.replicate 8192 (10 ^ 9)).set 1809 0 := rfl
  have hsummed : ((List.replicate 8192 (10 ^ 9)).set 1809 0).sum = 8191 * 10 ^ 9 := by
    rw [List.sum_set, List.length_replicate, if_pos (by norm_num), List.take_replicate, List.drop_replicate,
      List.sum_replicate, List.sum_replicate]
    norm_num
  rw [hring] at hsum hpenalty
  refine ⟨kept, hcut, hsum.trans hsummed, ?_⟩
  rw [hpenalty, processSlashings, hsummed]
  rfl

/-- The frame's prediction is the sum of what the ring takes from each validator, as long as no midterm
epoch falls on a bucket that still holds something. -/
theorem predictMidtermPenaltyInFrame_eq (hlength : slashings.length = EPOCHS_PER_SLASHINGS_VECTOR)
    {validators : List Validator} (hlater : ∀ v ∈ validators, reportRefEpoch < getMidtermPenaltyEpoch v)
    (hbuckets : ∀ v ∈ validators,
      slashings.getD (getMidtermPenaltyEpoch v % EPOCHS_PER_SLASHINGS_VECTOR) 0 = 0) (totalBalance : Gwei) :
    predictMidtermPenaltyInFrame reportRefEpoch slashings totalBalance validators =
      validators.foldlM (fun penaltyInFrame v => do
        let penalty ← processSlashings
          (slashingsAt slashings reportRefEpoch (getMidtermPenaltyEpoch v)) totalBalance v
        return penaltyInFrame + penalty) 0 := by
  unfold predictMidtermPenaltyInFrame
  generalize (0 : ℤ) = penalty
  induction validators generalizing penalty with
  | nil => rfl
  | cons v validators ih =>
    rw [List.forall_mem_cons] at hlater hbuckets
    obtain ⟨kept, hcut, hsum⟩ := sum_cutSlashings hlength hlater.1
    rw [hbuckets.1, ite_self, add_zero] at hsum
    have hpenalty : getValidatorMidtermPenalty v slashings totalBalance (getMidtermPenaltyEpoch v) reportRefEpoch =
        processSlashings (slashingsAt slashings reportRefEpoch (getMidtermPenaltyEpoch v)) totalBalance v := by
      rw [getValidatorMidtermPenalty, hcut, Except.ok_bind, hsum, processSlashings]
    rw [List.foldlM_cons, List.foldlM_cons, hpenalty]
    exact congrArg _ (funext fun p => ih hlater.2 hbuckets.2 p)

end Ring

end MidtermSlashingPenalty

end LidoOracle
