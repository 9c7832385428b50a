import LidoOracle.Performance.EpochsRange

/-! Where the next range of the collector should start: at the first gap after
the oldest stored or demanded epoch. The database reads epoch 0 as no epoch, so
the range is the right one unless epoch 0 is stored and a gap follows it before
the start the collector falls back to. -/

namespace LidoOracle

namespace Performance

/-- The epochs a range may have to start from: the stored ones, or the last available one when
nothing is stored, and the starts of the demands that are not satisfied -/
def Wanted (db : DutiesDB) (maxAvailable : EpochNumber) (e : EpochNumber) : Prop :=
  e ∈ db.duties ∨ ((∀ stored, stored ∉ db.duties) ∧ e = maxAvailable) ∨
    ∃ d ∈ db.demands.values, ¬Available db d ∧ d.fromEpoch = e

open Classical in
/-- The call returns the range from the first gap, or none where there is no gap, and drops
the satisfied demands. -/
def StartsAtFirstGap (db : DutiesDB) (maxAvailable : EpochNumber) : Prop :=
  ∃ db' start range, defineEpochsToProcessRange db (maxAvailable + 2) = .ok (db', range) ∧
    db'.duties = db.duties ∧ db'.settings = db.settings ∧
    db'.demands.entries = (db.demands.entries.filter fun e => ¬Available db e.2) ∧
    IsLeast {e | Wanted db maxAvailable e} start ∧
    ((∀ e : ℕ, start ≤ e → e ≤ maxAvailable → e ∈ db.duties) → range = none) ∧
    ((∃ e : ℕ, start ≤ e ∧ e ≤ maxAvailable ∧ e ∉ db.duties) →
      ∃ first, IsLeast {e : ℕ | start ≤ e ∧ e ∉ db.duties} first ∧ range = some (first, maxAvailable))

variable {db : DutiesDB} {maxAvailable : ℕ}

/-- With epoch 0 left aside the code starts from what is wanted. -/
theorem firstWanted_le_iff_wanted (hzero : 0 ∉ db.duties) (n : ℕ) :
    firstWanted db maxAvailable ≤ n ↔ ∃ e : ℕ, Wanted db maxAvailable e ∧ e ≤ n := by
  rw [firstWanted_le_iff]
  refine ⟨fun h => ?_, fun ⟨e, he, hle⟩ => ?_⟩
  · rcases h with hmin | ⟨d, hd, hunsatisfied, hfrom⟩
    · rcases @minEpoch_spec db with ⟨hnone, hstored | hempty⟩ | ⟨oldest, hsome, -, hmem, -⟩
      · exact absurd hstored hzero
      · rw [hnone] at hmin
        exact ⟨maxAvailable, Or.inr (Or.inl ⟨hempty, rfl⟩), hmin⟩
      · rw [hsome] at hmin
        exact ⟨oldest, Or.inl hmem, hmin⟩
    · exact ⟨d.fromEpoch, Or.inr (Or.inr ⟨d, hd, hunsatisfied, rfl⟩), hfrom⟩
  · rcases he with hstored | ⟨hempty, rfl⟩ | ⟨d, hd, hunsatisfied, rfl⟩
    · refine Or.inl ?_
      rcases @minEpoch_spec db with ⟨-, hzero' | hempty⟩ | ⟨oldest, hsome, -, -, holdest⟩
      · exact absurd hzero' hzero
      · exact absurd hstored (hempty e)
      · rw [hsome]
        exact (holdest e hstored).trans hle
    · refine Or.inl ?_
      rcases @minEpoch_spec db with ⟨hnone, -⟩ | ⟨oldest, -, -, hmem, -⟩
      · rw [hnone]
        exact hle
      · exact absurd hmem (hempty oldest)
    · exact Or.inr ⟨d, hd, hunsatisfied, hle⟩

theorem isLeast_firstWanted (hzero : 0 ∉ db.duties) :
    IsLeast {e | Wanted db maxAvailable e} (firstWanted db maxAvailable) := by
  have hlower : ∀ e : ℕ, Wanted db maxAvailable e → firstWanted db maxAvailable ≤ e := fun e he =>
    (firstWanted_le_iff_wanted hzero e).mpr ⟨e, he, le_refl e⟩
  obtain ⟨e, he, hle⟩ := (firstWanted_le_iff_wanted hzero _).mp (le_refl (firstWanted db maxAvailable))
  have hsame : firstWanted db maxAvailable = e := Nat.le_antisymm (hlower e he) hle
  exact ⟨hsame ▸ he, hlower⟩

theorem isLeast_zero (hzero : 0 ∈ db.duties) : IsLeast {e | Wanted db maxAvailable e} 0 :=
  ⟨Or.inl hzero, fun e _ => Nat.zero_le e⟩

theorem firstWanted_le (hstored : ∀ e ∈ db.duties, e ≤ maxAvailable) : firstWanted db maxAvailable ≤ maxAvailable := by
  refine firstWanted_le_iff.mpr (Or.inl ?_)
  rcases @minEpoch_spec db with ⟨hmin, -⟩ | ⟨oldest, hmin, -, hmem, -⟩
  · rw [hmin]
    exact le_refl maxAvailable
  · rw [hmin]
    exact hstored oldest hmem

/-- Every epoch is stored up to where the code starts to look. -/
def StoredBelowStart (db : DutiesDB) (maxAvailable : EpochNumber) : Prop :=
  ∀ e : ℕ, e < maxAvailable → (∀ d ∈ db.demands.values, ¬Available db d → e < d.fromEpoch) → e ∈ db.duties

/-- With epoch 0 stored the code starts from the last available epoch or from a demand. -/
theorem lt_firstWanted_iff (hzero : 0 ∈ db.duties) (e : ℕ) : e < firstWanted db maxAvailable ↔
    e < maxAvailable ∧ ∀ d ∈ db.demands.values, ¬Available db d → e < d.fromEpoch := by
  have hmin : db.minEpoch.getD maxAvailable = maxAvailable := by
    rcases @minEpoch_spec db with ⟨hnone, -⟩ | ⟨oldest, -, hne, -, holdest⟩
    · rw [hnone]
      rfl
    · exact absurd (Nat.le_zero.mp (holdest 0 hzero)) hne
  rw [← not_le, firstWanted_le_iff, hmin]
  push Not
  rfl

/-- A gap at or after `start` is at or after `start'` too where everything between is stored. -/
theorem gap_between {start start' e : ℕ} (h : ∀ e : ℕ, start ≤ e → e < start' → e ∈ db.duties) (hfrom : start ≤ e)
    (hgap : e ∉ db.duties) : start' ≤ e := by
  by_contra hlt
  exact hgap (h e hfrom (not_le.mp hlt))

/-- The call is right about the first gap wherever it starts to look, as long as nothing is
missing before and it does not take the table for an empty one. -/
theorem startsAtFirstGap_of_start (hvalid : ValidDemands db) (hstored : ∀ e ∈ db.duties, e ≤ maxAvailable) {start : ℕ}
    (hleast : IsLeast {e | Wanted db maxAvailable e} start) (hfirst : start ≤ firstWanted db maxAvailable)
    (hbelow : ∀ e : ℕ, start ≤ e → e < firstWanted db maxAvailable → e ∈ db.duties)
    (hpos : 0 ∈ db.duties → 0 < maxAvailable) : StartsAtFirstGap db maxAvailable := by
  obtain ⟨db', hduties, hsettings, hdemands, heq⟩ := defineEpochsToProcessRange_eq hvalid hstored
  have hgap : ∀ e : ℕ, start ≤ e → e ≤ maxAvailable → e ∉ db.duties → e ∈ missing db maxAvailable := fun e hfrom hto hnot =>
    mem_missing.mpr ⟨gap_between hbelow hfrom hnot, hto, hnot⟩
  cases hmin : (missing db maxAvailable).min? with
  | some first =>
    rw [hmin] at heq
    obtain ⟨hmem, hle⟩ := List.min?_eq_some_iff.mp hmin
    obtain ⟨hfrom, hto, hnot⟩ := mem_missing.mp hmem
    have hstart : start ≤ first := hfirst.trans hfrom
    refine ⟨db', start, some (first, maxAvailable), heq, hduties, hsettings, hdemands, hleast,
      fun hall => absurd (hall first hstart hto) hnot, fun _ => ⟨first, ⟨⟨hstart, hnot⟩, ?_⟩, rfl⟩⟩
    intro (e : ℕ) he
    rcases Nat.lt_or_ge maxAvailable e with hlate | hearly
    · exact hto.trans hlate.le
    · exact hle e (hgap e he.1 hearly he.2)
  | none =>
    have hnone : ∀ e : ℕ, e ∉ missing db maxAvailable := by
      rw [List.min?_eq_none_iff] at hmin
      intro e he
      exact absurd (hmin ▸ he) List.not_mem_nil
    rcases @maxEpoch_spec db with ⟨-, hzero⟩ | ⟨newest, hmax, -, -, -⟩
    · have hlast : maxAvailable ∈ db.duties := by
        by_contra hnot
        exact hnone maxAvailable (mem_missing.mpr ⟨firstWanted_le hstored, le_refl _, hnot⟩)
      have hmaxZero := hzero maxAvailable hlast
      exact absurd hmaxZero (hpos (hmaxZero ▸ hlast)).ne'
    · rw [hmin, hmax] at heq
      exact ⟨db', start, none, heq, hduties, hsettings, hdemands, hleast, fun _ => rfl,
        fun ⟨e, hfrom, hto, hnot⟩ => absurd (hgap e hfrom hto hnot) (hnone e)⟩

/-- The range is the right one exactly when the code does not skip a gap after epoch 0, and
epoch 0 is not the only epoch there is. -/
theorem startsAtFirstGap_iff (hvalid : ValidDemands db) (hstored : ∀ e ∈ db.duties, e ≤ maxAvailable) :
    StartsAtFirstGap db maxAvailable ↔
      (0 ∈ db.duties → 0 < maxAvailable ∧ StoredBelowStart db maxAvailable) := by
  refine ⟨fun h hzero => ?_, fun h => ?_⟩
  · obtain ⟨db', -, -, -, heq⟩ := defineEpochsToProcessRange_eq hvalid hstored
    obtain ⟨kept, start, range, hcall, -, -, -, hleast, -, hsome⟩ := h
    obtain rfl : start = 0 := hleast.unique (isLeast_zero hzero)
    rw [heq] at hcall
    refine ⟨?_, fun e hlt hdemands => ?_⟩
    · rw [Nat.pos_iff_ne_zero]
      rintro rfl
      -- nothing is missing, and the newest epoch reads as none
      have hmin : (missing db 0).min? = none := by
        rw [List.min?_eq_none_iff, List.eq_nil_iff_forall_not_mem]
        intro e he
        obtain ⟨-, hto, hnot⟩ := mem_missing.mp he
        exact hnot (Nat.le_zero.mp hto ▸ hzero)
      rcases @maxEpoch_spec db with ⟨hmax, -⟩ | ⟨newest, -, hne, hmem, -⟩
      · rw [hmin, hmax] at hcall
        cases hcall
      · exact hne (Nat.le_zero.mp (hstored newest hmem))
    · by_contra hnot
      have hbelow := (lt_firstWanted_iff hzero e).mpr ⟨hlt, hdemands⟩
      obtain ⟨first, hfirst, rfl⟩ := hsome ⟨e, Nat.zero_le e, hlt.le, hnot⟩
      have hfirstLe := hfirst.2 ⟨Nat.zero_le e, hnot⟩
      cases hmin : (missing db maxAvailable).min? with
      | some found =>
        rw [hmin] at hcall
        have hfound := (mem_missing.mp (List.min?_eq_some_iff.mp hmin).1).1
        have hsame : found = first := congrArg Prod.fst (Option.some.inj (Prod.mk.inj (Except.ok.inj hcall)).2)
        exact absurd (hfound.trans (hsame.le.trans hfirstLe)) (not_le.mpr hbelow)
      | none =>
        cases hmax : db.maxEpoch with
        | some newest =>
          rw [hmin, hmax] at hcall
          exact absurd (Prod.mk.inj (Except.ok.inj hcall)).2 (Option.some_ne_none _).symm
        | none =>
          rw [hmin, hmax] at hcall
          cases hcall
  · by_cases hzero : 0 ∈ db.duties
    · obtain ⟨hpos, hbelow⟩ := h hzero
      refine startsAtFirstGap_of_start hvalid hstored (isLeast_zero hzero) (Nat.zero_le _) (fun e _ hlt => ?_)
        fun _ => hpos
      obtain ⟨hlast, hdemands⟩ := (lt_firstWanted_iff hzero e).mp hlt
      exact hbelow e hlast hdemands
    · exact startsAtFirstGap_of_start hvalid hstored (isLeast_firstWanted hzero) (le_refl _)
        (fun e hfrom hlt => absurd hfrom (not_le.mpr hlt)) fun hmem => absurd hmem hzero

/-- Epoch 0 and others with gaps, a demand that waits for epochs, and one that is satisfied -/
def zeroDB : DutiesDB :=
  ⟨Dict.ofList ([0, 1, 2, 3, 5].map fun epoch => (epoch, DutiesDB.dutyData [7] [] [])),
    Dict.ofList [("csm", ⟨3, 6⟩), ("cm", ⟨1, 2⟩)], Dict.empty⟩

/-- The code starts from the demand, before which nothing is missing. -/
theorem startsAtFirstGap_iff_zero : StartsAtFirstGap zeroDB 6 ∧
    defineEpochsToProcessRange zeroDB 8 =
      .ok ({ zeroDB with demands := Dict.ofList [("csm", ⟨3, 6⟩)] }, some (4, 6)) := by
  have hvalid : ValidDemands zeroDB := by
    unfold ValidDemands
    decide
  refine ⟨(startsAtFirstGap_iff hvalid (by decide)).mpr fun _ => ⟨by decide, fun (e : ℕ) _ hdemands => ?_⟩, rfl⟩
  have hlt : e < 3 := hdemands ⟨3, 6⟩ (by decide) fun h => absurd (h 4 (by decide) (by decide)) (by decide)
  interval_cases e <;> decide

/-- Nothing but one epoch is stored, and nothing is demanded. -/
def singleEpochDB (epoch : EpochNumber) : DutiesDB :=
  ⟨Dict.ofList [(epoch, DutiesDB.dutyData [] [] [])], Dict.empty, Dict.empty⟩

/-- Epoch 0 is stored and epoch 1 is the first gap, but the range starts at the last available
epoch; with nothing else available the call fails. -/
theorem startsAtFirstGap_epochZero :
    defineEpochsToProcessRange (singleEpochDB 0) 4 = .ok (singleEpochDB 0, some (2, 2)) ∧
      defineEpochsToProcessRange (singleEpochDB 0) 2 = .error (.raised .emptyWithoutMissing) ∧
      ¬ StartsAtFirstGap (singleEpochDB 0) 2 := by
  have hcall : defineEpochsToProcessRange (singleEpochDB 0) 4 = .ok (singleEpochDB 0, some (2, 2)) := rfl
  refine ⟨hcall, rfl, fun h => ?_⟩
  obtain ⟨kept, start, range, hrange, -, -, -, hleast, -, hsome⟩ := h
  obtain rfl : start = 0 := hleast.unique (isLeast_zero (List.mem_singleton.mpr rfl))
  rw [hcall, Except.ok.injEq, Prod.mk.injEq] at hrange
  have hgap : 1 ∉ (singleEpochDB 0).duties := fun hmem => absurd (List.mem_singleton.mp hmem) (by decide)
  obtain ⟨first, hfirst, hfound⟩ := hsome ⟨1, by decide, by decide, hgap⟩
  rw [← hrange.2, Option.some.injEq, Prod.mk.injEq] at hfound
  have hle := hfirst.2 ⟨Nat.zero_le 1, hgap⟩
  rw [← hfound.1] at hle
  exact absurd hle (by decide)

end Performance

end LidoOracle
