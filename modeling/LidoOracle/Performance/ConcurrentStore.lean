import LidoOracle.Performance.DutiesDB

/-! `store_epoch` from many threads. A call commits three times: it stores its
row, it reads the newest epoch, it deletes below the bound it has derived. The
calls interleave at these points. -/

namespace LidoOracle

namespace Performance

/-- What a call has committed so far -/
inductive Stage where
  | waiting
  | stored
  | pruning (minEpoch : ℤ)
  | finished
  deriving DecidableEq

structure StoreCall where
  epoch : EpochNumber
  data : DutyData
  stage : Stage
  deriving DecidableEq

/-- The commits that a call has left, at most -/
def Stage.left : Stage → ℕ
  | .waiting => 3
  | .stored => 2
  | .pruning _ => 1
  | .finished => 0

/-- The next commit of a call -/
def StoreCall.next (call : StoreCall) (db : DutiesDB) : Db (DutiesDB × StoreCall) :=
  match call.stage with
  | .waiting => .ok (db.storeData call.epoch call.data, { call with stage := .stored })
  | .stored => do
    let minEpoch ← db.minEpochToKeep call.epoch
    return (db, { call with stage := if minEpoch ≤ 0 then .finished else .pruning minEpoch })
  | .pruning minEpoch => .ok (db.deleteBelow minEpoch, { call with stage := .finished })
  | .finished => .ok (db, call)

structure Collector where
  db : DutiesDB
  calls : List StoreCall

/-- Any call makes its next commit. -/
inductive Collector.Step : Collector → Collector → Prop where
  | commit {db db' : DutiesDB} {before after : List StoreCall} {call call' : StoreCall}
      (h : call.next db = .ok (db', call')) :
      Step ⟨db, before ++ call :: after⟩ ⟨db', before ++ call' :: after⟩

def Collector.Run : Collector → Collector → Prop := Relation.ReflTransGen Collector.Step

def begin (calls : List (EpochNumber × DutyData)) : List StoreCall :=
  calls.map fun call => ⟨call.1, call.2, .waiting⟩

/-- The largest of all stored and all new epochs -/
def newestEpoch (db : DutiesDB) (calls : List (EpochNumber × DutyData)) : EpochNumber :=
  (db.duties.keys ++ calls.map Prod.fst).foldr max 0

/-- What was stored last under an epoch: by its call if it has one, else before -/
def lastStored (db : DutiesDB) (calls : List (EpochNumber × DutyData)) (epoch : EpochNumber) : Option DutyData :=
  match calls.find? fun call => call.1 = epoch with
  | some call => some call.2
  | none => db.duties.get? epoch

/-- The row an epoch has if nothing is pruned: that of its call once the call has stored it -/
def rowOf (initial : DutiesDB) (calls : List StoreCall) (epoch : EpochNumber) : Option DutyData :=
  match calls.find? fun call => call.epoch = epoch ∧ call.stage ≠ .waiting with
  | some call => some call.data
  | none => initial.duties.get? epoch

/-- A call that is still going to delete the row of an epoch -/
def Stage.WillDelete (stage : Stage) (epoch : ℕ) : Prop :=
  match stage with
  | .waiting => True
  | .stored => True
  | .pruning minEpoch => (epoch : ℤ) < minEpoch
  | .finished => False

section Rows

variable {initial : DutiesDB} {calls before after : List StoreCall} {call call' : StoreCall} {epoch : ℕ}

theorem eq_of_epoch_eq (hnodup : (calls.map (·.epoch)).Nodup) (h : call ∈ calls) (h' : call' ∈ calls)
    (heq : call.epoch = call'.epoch) : call = call' :=
  List.inj_on_of_nodup_map hnodup h h' heq

theorem rowOf_of_committed (hnodup : (calls.map (·.epoch)).Nodup) (h : call ∈ calls)
    (hstage : call.stage ≠ .waiting) : rowOf initial calls call.epoch = some call.data := by
  unfold rowOf
  have hsome : (calls.find? fun c => c.epoch = call.epoch ∧ c.stage ≠ .waiting).isSome :=
    List.find?_isSome.mpr ⟨call, h, by simpa using hstage⟩
  obtain ⟨found, hfound⟩ := Option.isSome_iff_exists.mp hsome
  have hprop := List.find?_some hfound
  rw [decide_eq_true_eq] at hprop
  have heq : found = call := eq_of_epoch_eq hnodup (List.mem_of_find?_eq_some hfound) h hprop.1
  rw [hfound, heq]

theorem rowOf_of_waiting (h : ∀ c ∈ calls, c.epoch = epoch → c.stage = .waiting) :
    rowOf initial calls epoch = initial.duties.get? epoch := by
  unfold rowOf
  have hnone : (calls.find? fun c => c.epoch = epoch ∧ c.stage ≠ .waiting) = none := by
    refine List.find?_eq_none.mpr fun c hc => ?_
    rw [decide_eq_true_eq]
    exact fun hboth => hboth.2 (h c hc hboth.1)
  rw [hnone]

/-- A commit says nothing about the rows of other epochs. -/
theorem rowOf_of_ne (hcall : call.epoch ≠ epoch) (hcall' : call'.epoch ≠ epoch) :
    rowOf initial (before ++ call :: after) epoch = rowOf initial (before ++ call' :: after) epoch := by
  unfold rowOf
  rw [List.find?_append, List.find?_append, List.find?_cons_of_neg (by simp [hcall]),
    List.find?_cons_of_neg (by simp [hcall'])]

/-- After the first commit of a call, its later ones do not touch the rows. -/
theorem rowOf_congr (hnodup : ((before ++ call :: after).map (·.epoch)).Nodup)
    (hepoch : call'.epoch = call.epoch) (hdata : call'.data = call.data) (hstage : call.stage ≠ .waiting)
    (hstage' : call'.stage ≠ .waiting) :
    rowOf initial (before ++ call :: after) epoch = rowOf initial (before ++ call' :: after) epoch := by
  by_cases heq : call.epoch = epoch
  · have hnodup' : ((before ++ call' :: after).map (·.epoch)).Nodup := by
      simpa only [List.map_append, List.map_cons, hepoch] using hnodup
    rw [← heq, rowOf_of_committed hnodup (List.mem_append_right _ List.mem_cons_self) hstage, ← hepoch,
      rowOf_of_committed hnodup' (List.mem_append_right _ List.mem_cons_self) hstage', hdata]
  · exact rowOf_of_ne heq (hepoch ▸ heq)

end Rows

section Newest

variable {db : DutiesDB} {calls : List (EpochNumber × DutyData)}

theorem le_newestEpoch {epoch : ℕ} (h : epoch ∈ db.duties ∨ epoch ∈ calls.map Prod.fst) :
    epoch ≤ newestEpoch db calls := by
  have hmem : epoch ∈ db.duties.keys ++ calls.map Prod.fst := List.mem_append.mpr h
  unfold newestEpoch
  generalize db.duties.keys ++ calls.map Prod.fst = epochs at hmem
  induction epochs with
  | nil => exact absurd hmem List.not_mem_nil
  | cons e es ih =>
    rcases List.mem_cons.mp hmem with rfl | hmem
    · exact le_max_left _ _
    · exact (ih hmem).trans (le_max_right _ _)

theorem newestEpoch_mem (h : calls ≠ []) :
    newestEpoch db calls ∈ db.duties ∨ newestEpoch db calls ∈ calls.map Prod.fst := by
  have hne : db.duties.keys ++ calls.map Prod.fst ≠ [] := by simp [h]
  have hgen : ∀ es : List ℕ, es ≠ [] → es.foldr max 0 ∈ es := by
    intro es hes
    induction es with
    | nil => exact absurd rfl hes
    | cons e es ih =>
      rw [List.foldr_cons]
      rcases le_total (es.foldr max 0) e with hle | hle
      · rw [max_eq_left hle]
        exact List.mem_cons_self
      · rw [max_eq_right hle]
        by_cases hnil : es = []
        · rw [hnil] at hle ⊢
          rw [List.foldr_nil] at hle ⊢
          rw [Nat.le_zero.mp hle]
          exact List.mem_cons_self
        · exact List.mem_cons_of_mem _ (ih hnil)
  exact List.mem_append.mp (hgen _ hne)

end Newest

/-- A call never fails, and its commits come to an end. -/
theorem StoreCall.exists_next {db : DutiesDB} {retention : ℤ} (h : DutiesDB.Retains db retention) (call : StoreCall) :
    ∃ db' call', call.next db = .ok (db', call') ∧ (call.stage ≠ .finished → call'.stage.left < call.stage.left) := by
  unfold StoreCall.next
  cases call.stage with
  | waiting => exact ⟨_, _, rfl, fun _ => by simp [Stage.left]⟩
  | stored =>
    dsimp only
    rw [DutiesDB.minEpochToKeep_eq h]
    refine ⟨_, _, rfl, fun _ => ?_⟩
    dsimp only
    split_ifs <;> simp [Stage.left]
  | pruning minEpoch => exact ⟨_, _, rfl, fun _ => by simp [Stage.left]⟩
  | finished => exact ⟨_, _, rfl, fun hstage => absurd rfl hstage⟩

/-- The call at a place makes its next commit. -/
def Collector.commitAt (s : Collector) (i : ℕ) : Collector :=
  match s.calls[i]? with
  | none => s
  | some call =>
    match call.next s.db with
    | .ok (db', call') => ⟨db', s.calls.set i call'⟩
    | .error _ => s

/-- Commits in any order make a run. -/
theorem Collector.run_commits (s : Collector) (turns : List ℕ) : Collector.Run s (turns.foldl Collector.commitAt s) := by
  induction turns generalizing s with
  | nil => exact .refl
  | cons i turns ih =>
    have hfirst : Collector.Run s (s.commitAt i) := by
      unfold Collector.commitAt
      cases hcall : s.calls[i]? with
      | none => exact .refl
      | some call =>
        obtain ⟨hi, hget⟩ := List.getElem?_eq_some_iff.mp hcall
        cases hnext : call.next s.db with
        | error e =>
          dsimp only
          rw [hnext]
          exact .refl
        | ok next =>
          dsimp only
          rw [hnext]
          dsimp only
          have hsplit : s.calls = s.calls.take i ++ call :: s.calls.drop (i + 1) := by
            rw [← hget, ← List.drop_eq_getElem_cons, List.take_append_drop]
          have hstep := @Collector.Step.commit s.db next.1 (s.calls.take i) (s.calls.drop (i + 1)) call next.2 hnext
          rw [← hsplit] at hstep
          rw [List.set_eq_take_append_cons_drop, if_pos hi]
          exact .single hstep
    exact hfirst.trans (ih (s.commitAt i))

/-- A call on its own is `store_epoch`. -/
theorem storeEpoch_run {db : DutiesDB} {retention : ℤ} (h : DutiesDB.Retains db retention) (epoch : EpochNumber)
    (data : DutyData) :
    ∃ s, Collector.Run ⟨db, begin [(epoch, data)]⟩ s ∧ (∀ call ∈ s.calls, call.stage = .finished) ∧
      db.storeEpoch epoch data = .ok s.db := by
  have hstored : DutiesDB.Retains (db.storeData epoch data) retention := h
  have hread := DutiesDB.minEpochToKeep_eq hstored epoch
  set minEpoch := (((db.storeData epoch data).maxEpoch.getD epoch : ℕ) : ℤ) - retention + 1
  have hstore : Collector.Step ⟨db, begin [(epoch, data)]⟩ ⟨db.storeData epoch data, [⟨epoch, data, .stored⟩]⟩ :=
    @Collector.Step.commit _ _ [] [] ⟨epoch, data, .waiting⟩ _ rfl
  have hbound : Collector.Step ⟨db.storeData epoch data, [⟨epoch, data, .stored⟩]⟩
      ⟨db.storeData epoch data,
        [⟨epoch, data, if minEpoch ≤ 0 then .finished else .pruning minEpoch⟩]⟩ := by
    refine @Collector.Step.commit _ _ [] [] ⟨epoch, data, .stored⟩ _ ?_
    unfold StoreCall.next
    dsimp only
    rw [hread]
    rfl
  have hrun := (Relation.ReflTransGen.single hstore).tail hbound
  unfold DutiesDB.storeEpoch DutiesDB.prune
  rw [hread]
  by_cases hall : minEpoch ≤ 0
  · rw [if_pos hall] at hrun
    exact ⟨_, hrun, by simp, congrArg Except.ok (if_pos hall)⟩
  · rw [if_neg hall] at hrun
    have hdelete : Collector.Step ⟨db.storeData epoch data, [⟨epoch, data, .pruning minEpoch⟩]⟩
        ⟨(db.storeData epoch data).deleteBelow minEpoch, [⟨epoch, data, .finished⟩]⟩ :=
      @Collector.Step.commit _ _ [] [] ⟨epoch, data, .pruning minEpoch⟩ _ rfl
    exact ⟨_, hrun.tail hdelete, by simp, congrArg Except.ok (if_neg hall)⟩

/-! The invariant of every interleaving -/

section Invariant

variable {initial : DutiesDB} {calls : List (EpochNumber × DutyData)} {retention : ℤ}

/-- Epochs at or above this one are never to be deleted. -/
def firstKept (initial : DutiesDB) (calls : List (EpochNumber × DutyData)) (retention : ℤ) : ℤ :=
  (newestEpoch initial calls : ℤ) - retention + 1

structure Converging (initial : DutiesDB) (calls : List (EpochNumber × DutyData)) (retention : ℤ)
    (s : Collector) : Prop where
  same : s.calls.map (fun call => (call.epoch, call.data)) = calls
  retains : DutiesDB.Retains s.db retention
  stored : ∀ e ∈ s.db.duties, e ≤ newestEpoch initial calls
  kept : ∀ e : ℕ, firstKept initial calls retention ≤ e → s.db.duties.get? e = rowOf initial s.calls e
  bounds : ∀ call ∈ s.calls, ∀ minEpoch, call.stage = .pruning minEpoch →
    minEpoch ≤ firstKept initial calls retention
  expired : ∀ e ∈ s.db.duties, (e : ℤ) < firstKept initial calls retention →
    ∃ call ∈ s.calls, call.stage.WillDelete e

theorem Converging.nodup {s : Collector} (h : Converging initial calls retention s)
    (hdistinct : (calls.map Prod.fst).Nodup) : (s.calls.map (·.epoch)).Nodup := by
  rw [← h.same, List.map_map] at hdistinct
  exact hdistinct

theorem converging_begin (hretains : DutiesDB.Retains initial retention) (hne : calls ≠ []) :
    Converging initial calls retention ⟨initial, begin calls⟩ := by
  have hwaiting : ∀ call ∈ begin calls, call.stage = .waiting := by
    intro call hcall
    obtain ⟨c, -, rfl⟩ := List.mem_map.mp hcall
    rfl
  refine ⟨?_, hretains, fun e he => le_newestEpoch (.inl he), fun e _ => ?_, fun call hcall minEpoch h => ?_,
    fun e _ _ => ?_⟩
  · rw [begin, List.map_map]
    exact List.map_id _
  · exact (rowOf_of_waiting fun c hc _ => hwaiting c hc).symm
  · rw [hwaiting call hcall] at h
    cases h
  · obtain ⟨c, hc⟩ := List.exists_mem_of_ne_nil calls hne
    exact ⟨⟨c.1, c.2, .waiting⟩, List.mem_map_of_mem hc, trivial⟩

/-- The newest epoch is stored, or its call is still to store it. -/
theorem Converging.newest_stored_or_waiting {s : Collector} (h : Converging initial calls retention s)
    (hdistinct : (calls.map Prod.fst).Nodup) (hne : calls ≠ []) :
    newestEpoch initial calls ∈ s.db.duties ∨ ∃ call ∈ s.calls, call.stage = .waiting := by
  have hkeep : firstKept initial calls retention ≤ newestEpoch initial calls := by
    have hpos := h.retains.2
    unfold firstKept
    omega
  have hrow := h.kept _ hkeep
  by_cases hcall : ∀ c ∈ s.calls, c.epoch = newestEpoch initial calls → c.stage = .waiting
  · rcases newestEpoch_mem hne with hmem | hmem
    · rw [rowOf_of_waiting hcall] at hrow
      exact .inl ((DutiesDB.mem_iff_of_get? hrow).mpr hmem)
    · rw [← h.same, List.map_map] at hmem
      obtain ⟨call, hcall', heq⟩ := List.mem_map.mp hmem
      exact .inr ⟨call, hcall', hcall call hcall' (heq.trans (by rw [h.same]))⟩
  · push Not at hcall
    obtain ⟨call, hcall', heq, hstage⟩ := hcall
    have hcommitted := @rowOf_of_committed initial _ _ (h.nodup hdistinct) hcall' hstage
    rw [heq, ← hrow] at hcommitted
    exact .inl (Dict.mem_of_get? hcommitted)

/-- A call whose next commit is another one's still counts. -/
theorem mem_others {before after : List StoreCall} {call call' c : StoreCall}
    (h : c ∈ before ++ call :: after) (hne : c ≠ call) : c ∈ before ++ call' :: after := by
  rcases List.mem_append.mp h with h | h
  · exact List.mem_append_left _ h
  · exact List.mem_append_right _ (List.mem_cons_of_mem _ ((List.mem_cons.mp h).resolve_left hne))

theorem mem_committed {before after : List StoreCall} {call' c : StoreCall}
    (h : c ∈ before ++ call' :: after) (call : StoreCall) : c = call' ∨ c ∈ before ++ call :: after := by
  rcases List.mem_append.mp h with h | h
  · exact .inr (List.mem_append_left _ h)
  · rcases List.mem_cons.mp h with rfl | h
    · exact .inl rfl
    · exact .inr (List.mem_append_right _ (List.mem_cons_of_mem _ h))

/-- Every commit keeps the invariant. -/
theorem Converging.step {s s' : Collector} (h : Converging initial calls retention s)
    (hdistinct : (calls.map Prod.fst).Nodup) (hne : calls ≠ []) (hstep : Collector.Step s s') :
    Converging initial calls retention s' := by
  have hnodup := h.nodup hdistinct
  have hnewest := h.newest_stored_or_waiting hdistinct hne
  cases hstep with
  | @commit db db' before after call call' hcommit =>
  have hcall : call ∈ before ++ call :: after := List.mem_append_right _ List.mem_cons_self
  have hcall' : call' ∈ before ++ call' :: after := List.mem_append_right _ List.mem_cons_self
  unfold StoreCall.next at hcommit
  have hcurrent : call.epoch ≤ newestEpoch initial calls := by
    refine le_newestEpoch (.inr ?_)
    rw [← h.same, List.map_map]
    exact List.mem_map_of_mem hcall
  cases hstage : call.stage with
  | waiting =>
    rw [hstage, Except.ok.injEq, Prod.mk.injEq] at hcommit
    obtain ⟨rfl, rfl⟩ := hcommit
    refine ⟨?_, h.retains, fun e he => ?_, fun e he => ?_, fun c hc minEpoch hprune => ?_, fun e he hlt => ?_⟩
    · simpa only [List.map_append, List.map_cons] using h.same
    · rcases Dict.mem_set.mp he with rfl | he
      · exact hcurrent
      · exact h.stored e he
    · rw [DutiesDB.get?_storeData]
      split_ifs with heq
      · have hnodup' : ((before ++ { call with stage := Stage.stored } :: after).map (·.epoch)).Nodup := by
          simpa only [List.map_append, List.map_cons] using hnodup
        rw [heq]
        exact (rowOf_of_committed hnodup' hcall' (by simp)).symm
      · rw [h.kept e he]
        exact rowOf_of_ne (Ne.symm heq) (Ne.symm heq)
    · rcases mem_committed hc call with rfl | hc
      · cases hprune
      · exact h.bounds c hc minEpoch hprune
    · exact ⟨_, hcall', trivial⟩
  | stored =>
    rw [hstage] at hcommit
    dsimp only at hcommit
    rw [DutiesDB.minEpochToKeep_eq h.retains, Except.ok_bind] at hcommit
    obtain ⟨rfl, rfl⟩ := Prod.mk.inj (Except.ok.inj hcommit)
    set anchor : ℕ := db.maxEpoch.getD call.epoch with hanchor
    have hanchorLe : (anchor : ℤ) ≤ newestEpoch initial calls :=
      Int.ofNat_le.mpr (DutiesDB.anchor_le h.stored hcurrent)
    have hcommitted : call.stage ≠ .waiting := by
      rw [hstage]
      simp
    have hstage' : (if (anchor : ℤ) - retention + 1 ≤ 0 then Stage.finished
        else .pruning ((anchor : ℤ) - retention + 1)) ≠ .waiting := by
      split_ifs <;> simp
    refine ⟨?_, h.retains, h.stored, fun e he => ?_, fun c hc minEpoch hprune => ?_, fun e he hlt => ?_⟩
    · simpa only [List.map_append, List.map_cons] using h.same
    · rw [h.kept e he]
      exact rowOf_congr hnodup rfl rfl hcommitted hstage'
    · rcases mem_committed hc call with rfl | hc
      · dsimp only at hprune
        split_ifs at hprune
        cases hprune
        unfold firstKept
        omega
      · exact h.bounds c hc minEpoch hprune
    · rcases hnewest with hmem | ⟨c, hc, hwaiting⟩
      · -- the newest epoch has been stored, so the bound that was read is the final one
        have hge : ((newestEpoch initial calls : ℕ) : ℤ) ≤ anchor :=
          Int.ofNat_le.mpr (DutiesDB.le_anchor hmem call.epoch)
        refine ⟨_, hcall', ?_⟩
        unfold firstKept at hlt
        rw [if_neg (by omega)]
        exact lt_of_lt_of_le hlt (by omega)
      · refine ⟨c, mem_others hc ?_, ?_⟩
        · rintro rfl
          exact hcommitted hwaiting
        · rw [hwaiting]
          trivial
  | pruning minEpoch =>
    rw [hstage, Except.ok.injEq, Prod.mk.injEq] at hcommit
    obtain ⟨rfl, rfl⟩ := hcommit
    have hbound := h.bounds call hcall minEpoch hstage
    have hcommitted : call.stage ≠ .waiting := by
      rw [hstage]
      simp
    refine ⟨?_, h.retains, fun e he => ?_, fun e he => ?_, fun c hc minEpoch' hprune => ?_, fun e he hlt => ?_⟩
    · simpa only [List.map_append, List.map_cons] using h.same
    · exact h.stored e (Dict.mem_filterKeys.mp he).1
    · rw [DutiesDB.get?_deleteBelow, if_pos (hbound.trans he), h.kept e he]
      exact rowOf_congr hnodup rfl rfl hcommitted (by simp)
    · rcases mem_committed hc call with rfl | hc
      · cases hprune
      · exact h.bounds c hc minEpoch' hprune
    · obtain ⟨hmem, hge⟩ := Dict.mem_filterKeys.mp he
      obtain ⟨c, hc, hwill⟩ := h.expired e hmem hlt
      refine ⟨c, mem_others hc ?_, hwill⟩
      rintro rfl
      rw [hstage] at hwill
      exact absurd (of_decide_eq_true hge) (not_le.mpr hwill)
  | finished =>
    rw [hstage, Except.ok.injEq, Prod.mk.injEq] at hcommit
    obtain ⟨rfl, rfl⟩ := hcommit
    exact h

theorem Converging.run {s s' : Collector} (h : Converging initial calls retention s)
    (hdistinct : (calls.map Prod.fst).Nodup) (hne : calls ≠ []) (hrun : Collector.Run s s') :
    Converging initial calls retention s' := by
  induction hrun with
  | refl => exact h
  | tail _ hstep ih => exact ih.step hdistinct hne hstep

/-- No commit deletes a row at or above the final bound. -/
theorem Converging.step_keeps {s s' : Collector} (h : Converging initial calls retention s)
    (hstep : Collector.Step s s') {epoch : ℕ} (hkeep : firstKept initial calls retention ≤ epoch)
    (hmem : epoch ∈ s.db.duties) : epoch ∈ s'.db.duties := by
  cases hstep with
  | @commit db db' before after call call' hcommit =>
  have hcall : call ∈ before ++ call :: after := List.mem_append_right _ List.mem_cons_self
  unfold StoreCall.next at hcommit
  cases hstage : call.stage with
  | waiting =>
    rw [hstage, Except.ok.injEq, Prod.mk.injEq] at hcommit
    obtain ⟨rfl, rfl⟩ := hcommit
    exact Dict.mem_set.mpr (.inr hmem)
  | stored =>
    rw [hstage] at hcommit
    dsimp only at hcommit
    rw [DutiesDB.minEpochToKeep_eq h.retains, Except.ok_bind] at hcommit
    obtain ⟨rfl, rfl⟩ := Prod.mk.inj (Except.ok.inj hcommit)
    exact hmem
  | pruning minEpoch =>
    rw [hstage, Except.ok.injEq, Prod.mk.injEq] at hcommit
    obtain ⟨rfl, rfl⟩ := hcommit
    have hbound := h.bounds call hcall minEpoch hstage
    exact Dict.mem_filterKeys.mpr ⟨hmem, decide_eq_true (hbound.trans hkeep)⟩
  | finished =>
    rw [hstage, Except.ok.injEq, Prod.mk.injEq] at hcommit
    obtain ⟨rfl, rfl⟩ := hcommit
    exact hmem

/-- Once every call has committed, an epoch's row is what was stored last under it. -/
theorem rowOf_eq_lastStored {s : Collector} (h : Converging initial calls retention s)
    (hfinished : ∀ call ∈ s.calls, call.stage = .finished)
    (epoch : ℕ) : rowOf initial s.calls epoch = lastStored initial calls epoch := by
  unfold rowOf lastStored
  rw [← h.same, List.find?_map]
  have hpred : ∀ c ∈ s.calls, (decide (c.epoch = epoch ∧ c.stage ≠ Stage.waiting)) =
      ((fun call : EpochNumber × DutyData => decide (call.1 = epoch)) ∘
        fun call : StoreCall => (call.epoch, call.data)) c := by
    intro c hc
    simp [hfinished c hc]
  rw [List.find?_congr hpred]
  cases s.calls.find? ((fun call : EpochNumber × DutyData => decide (call.1 = epoch)) ∘
    fun call : StoreCall => (call.epoch, call.data)) with
  | none => rfl
  | some call => rfl

/-- Whatever the interleaving: no step deletes a row that is to be kept, no call ever fails or waits for another one, and
when all calls have finished the rows are those from the final bound on, each with what was stored last. -/
theorem storeEpochs_converge (hretains : DutiesDB.Retains initial retention) (hne : calls ≠ [])
    (hdistinct : (calls.map Prod.fst).Nodup) {s : Collector}
    (hrun : Collector.Run ⟨initial, begin calls⟩ s) :
    (∀ call ∈ s.calls, ∃ db' call', call.next s.db = .ok (db', call') ∧
      (call.stage ≠ .finished → call'.stage.left < call.stage.left)) ∧
    (∀ s', Collector.Step s s' → ∀ epoch : ℕ, firstKept initial calls retention ≤ epoch →
      epoch ∈ s.db.duties → epoch ∈ s'.db.duties) ∧
    ((∀ call ∈ s.calls, call.stage = .finished) → ∀ epoch : ℕ, s.db.duties.get? epoch =
      if firstKept initial calls retention ≤ epoch then lastStored initial calls epoch else none) := by
  have h := (converging_begin hretains hne).run hdistinct hne hrun
  refine ⟨fun call _ => ?_, fun s' hstep epoch hkeep hmem => h.step_keeps hstep hkeep hmem,
    fun hfinished epoch => ?_⟩
  · exact call.exists_next h.retains
  · split_ifs with hkeep
    · rw [h.kept epoch hkeep, rowOf_eq_lastStored h hfinished]
    · refine Dict.get?_eq_none_iff.mpr fun hmem => ?_
      obtain ⟨call, hcall, hwill⟩ := h.expired epoch hmem (not_le.mp hkeep)
      rw [hfinished call hcall] at hwill
      exact hwill

/-- Two rows, of which one is old and one is stored again, and three calls that come out of order -/
def sampleTable : DutiesDB :=
  (DutiesDB.emptyDB.storeData 1 (DutiesDB.dutyData [7] [] [])).storeData 4 (DutiesDB.dutyData [8] [] [])

def sampleCalls : List (EpochNumber × DutyData) :=
  [(5, DutiesDB.dutyData [] [] []), (3, DutiesDB.dutyData [1] [] []), (4, DutiesDB.dutyData [2] [] [])]

/-- The call of epoch 3 takes its bound from a table that has no epoch 5 yet, and deletes by it after the others have
stored theirs. -/
def sampleRun : Collector :=
  [1, 1, 0, 2, 2, 1, 0, 2, 0].foldl Collector.commitAt ⟨sampleTable, begin sampleCalls⟩

theorem storeEpochs_converge_sample :
    (∀ call ∈ sampleRun.calls, call.stage = .finished) ∧ sampleRun.db.duties.keys = [4, 5] ∧
    ∀ epoch : ℕ, sampleRun.db.duties.get? epoch =
      if firstKept sampleTable sampleCalls 2 ≤ epoch then lastStored sampleTable sampleCalls epoch else none := by
  have hfinished : ∀ call ∈ sampleRun.calls, call.stage = .finished := by decide +kernel
  have hrun := Collector.run_commits ⟨sampleTable, begin sampleCalls⟩ [1, 1, 0, 2, 2, 1, 0, 2, 0]
  exact ⟨hfinished, by decide +kernel, (@storeEpochs_converge sampleTable sampleCalls 2 ⟨rfl, by decide⟩ (by decide)
    (by decide) _ hrun).2.2 hfinished⟩

end Invariant

end Performance

end LidoOracle
