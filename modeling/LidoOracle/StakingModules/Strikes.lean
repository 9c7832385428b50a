import LidoOracle.Lib.ObjectStore
import LidoOracle.StakingModules.Types

/-! Strikes of a key as a window over the frames. `processStrikes` works in
place on a deep copy of the accumulator; what it leaves under a key is the
history of that key, most recent frame first, cut at every lifetime on the way. -/

namespace LidoOracle

namespace StakingModules

/-- The data of a `StrikesList` -/
abbrev StrikesList := List ℕ

namespace StrikesList

def SENTINEL : ℕ := 0

def resize (maxlen : ℕ) (data : StrikesList) : StrikesList :=
  data.take maxlen ++ List.replicate (maxlen - data.length) SENTINEL

def push (item : ℕ) (data : StrikesList) : StrikesList := item :: data

end StrikesList

/-- The strikes lists and the maps of strikes that exist so far -/
abbrev StrikesStore := ObjectStore StrikesValidator StrikesList

/-- One frame: its strikes, and the curve parameters at its block -/
structure StrikesFrame where
  strikesInFrame : Dict StrikesValidator ℕ
  getCurveParams : NodeOperatorId → CurveParams

/-- First pass: the strikes of the frame go to the front, into a new list where there is none. -/
def pushStrikes (merged : ℕ) (strikesInFrame : Dict StrikesValidator ℕ) (store : StrikesStore)
    (key : StrikesValidator) : Distributing StrikesStore := do
  let store := if key ∉ store.dictAt merged then
    let (store, strikes) := store.newObject []
    store.setItem merged key strikes
  else store
  let strikes ← Py.getItem strikesInFrame key
  store.callItem merged key (StrikesList.push strikes)

/-- Second pass: shift, resize, and drop what carries no information. -/
def shiftStrikes (merged : ℕ) (frame : StrikesFrame) (store : StrikesStore)
    (key : StrikesValidator) : Distributing StrikesStore := do
  let store ← (if key ∉ frame.strikesInFrame then
      store.callItem merged key (StrikesList.push StrikesList.SENTINEL)
    else pure store)
  let maxlen := (frame.getCurveParams key.1).strikesParams.lifetime
  let store ← store.callItem merged key (StrikesList.resize maxlen)
  let strikes ← store.readItem merged key
  return if strikes.sum = 0 then store.delItem merged key else store

def processStrikes (store : StrikesStore) (acc : ℕ) (frame : StrikesFrame) :
    Distributing (StrikesStore × ℕ) := do
  let (store, merged) := store.deepcopy acc
  let store ← frame.strikesInFrame.keys.foldlM (pushStrikes merged frame.strikesInFrame) store
  let store ← (store.dictAt merged).keys.foldlM (shiftStrikes merged frame) store
  return (store, merged)

/-- The strikes part of the loop over the frames -/
def processFrames (start : StrikesStore × ℕ) (frames : List StrikesFrame) : Distributing (StrikesStore × ℕ) :=
  frames.foldlM (fun acc frame => processStrikes acc.1 acc.2 frame) start

/-! What the window of a key is, without the loop. Histories are given most recent frame first. -/

/-- The lifetime that was in force `age` frames ago -/
def lifetimeAt (recent : List StrikesFrame) (noId : NodeOperatorId) (age : ℕ) : ℕ :=
  match recent[age]? with
  | some frame => (frame.getCurveParams noId).strikesParams.lifetime
  | none => 0

def strikesOf (frame : StrikesFrame) (key : StrikesValidator) : ℕ :=
  (frame.strikesInFrame.get? key).getD 0

def strikesAt (recent : List StrikesFrame) (key : StrikesValidator) (age : ℕ) : ℕ :=
  match recent[age]? with
  | some frame => strikesOf frame key
  | none => 0

/-- Strikes given `age` frames ago are still in the list when no lifetime since then has cut them. -/
def Survives (recent : List StrikesFrame) (noId : NodeOperatorId) (age : ℕ) : Prop :=
  ∀ later ≤ age, age - later < lifetimeAt recent noId later

instance decidableSurvives (recent : List StrikesFrame) (noId : NodeOperatorId) (age : ℕ) :
    Decidable (Survives recent noId age) :=
  inferInstanceAs (Decidable (∀ later, later ≤ age → age - later < lifetimeAt recent noId later))

/-- As many entries as the current lifetime says, zero where nothing survives -/
def window (recent : List StrikesFrame) (key : StrikesValidator) : StrikesList :=
  (List.range (lifetimeAt recent key.1 0)).map fun age =>
    if Survives recent key.1 age then strikesAt recent key age else 0

/-- A list of zeros is not kept. -/
def kept (strikes : StrikesList) : Option StrikesList :=
  if ∃ s ∈ strikes, s ≠ 0 then some strikes else none

/-! Resizing, the window, and the one step of it -/

namespace StrikesList

theorem resize_eq (maxlen : ℕ) (data : StrikesList) :
    resize maxlen data = (List.range maxlen).map fun i => data.getD i 0 := by
  unfold resize
  refine List.ext_getElem ?_ fun i hi hmax => ?_
  · simp only [List.length_append, List.length_take, List.length_replicate, List.length_map,
      List.length_range]
    omega
  · rw [List.length_map, List.length_range] at hmax
    rw [List.getElem_map, List.getElem_range]
    by_cases hlt : i < data.length
    · rw [List.getElem_append_left (by rw [List.length_take]; omega), List.getElem_take,
        List.getD_eq_getElem _ _ hlt]
    · rw [List.getElem_append_right (by rw [List.length_take]; omega), List.getElem_replicate,
        List.getD_eq_default _ _ (not_lt.mp hlt)]
      rfl

/-- Zeros at the end make no difference to what a resized list holds. -/
theorem resize_push_congr {data data' : StrikesList} (h : ∀ i, data.getD i 0 = data'.getD i 0)
    (maxlen item : ℕ) : resize maxlen (push item data) = resize maxlen (push item data') := by
  rw [resize_eq, resize_eq]
  refine List.map_congr_left fun i _ => ?_
  cases i with
  | zero => rfl
  | succ i => exact h i

end StrikesList

theorem kept_getD (strikes : StrikesList) (i : ℕ) : ((kept strikes).getD []).getD i 0 = strikes.getD i 0 := by
  unfold kept
  split_ifs with h
  · rfl
  · by_cases hi : i < strikes.length
    · have hzero : strikes[i] = 0 := by
        by_contra hne
        exact h ⟨_, List.getElem_mem hi, hne⟩
      rw [List.getD_eq_getElem _ _ hi, hzero]
      rfl
    · rw [List.getD_eq_default _ _ (not_lt.mp hi)]
      rfl

theorem kept_eq_none_iff {strikes : StrikesList} : kept strikes = none ↔ strikes.sum = 0 := by
  rw [List.sum_eq_zero_iff]
  unfold kept
  by_cases h : ∃ s ∈ strikes, s ≠ 0
  · rw [if_pos h]
    obtain ⟨s, hs, hne⟩ := h
    exact ⟨fun hnone => absurd hnone (Option.some_ne_none _), fun hall => absurd (hall s hs) hne⟩
  · rw [if_neg h]
    exact ⟨fun _ s hs => by_contra fun hne => h ⟨s, hs, hne⟩, fun _ => rfl⟩

theorem kept_of_sum_ne_zero {strikes : StrikesList} (h : strikes.sum ≠ 0) : kept strikes = some strikes := by
  have hne : kept strikes ≠ none := fun hnone => h (kept_eq_none_iff.mp hnone)
  unfold kept at hne ⊢
  split_ifs at hne ⊢
  · rfl
  · exact absurd rfl hne

theorem survives_succ {frame : StrikesFrame} {older : List StrikesFrame} {noId : NodeOperatorId} {age : ℕ} :
    Survives (frame :: older) noId (age + 1) ↔
      age + 1 < lifetimeAt (frame :: older) noId 0 ∧ Survives older noId age := by
  constructor
  · intro h
    refine ⟨h 0 (Nat.zero_le _), fun later hlater => ?_⟩
    have hnext := h (later + 1) (Nat.succ_le_succ hlater)
    rwa [Nat.succ_sub_succ] at hnext
  · rintro ⟨hnow, hrest⟩ later hlater
    cases later with
    | zero => exact hnow
    | succ later =>
      rw [Nat.succ_sub_succ]
      exact hrest later (Nat.le_of_succ_le_succ hlater)

/-- One more frame pushes its strikes and resizes. -/
theorem window_cons (frame : StrikesFrame) (older : List StrikesFrame) (key : StrikesValidator) :
    window (frame :: older) key =
      StrikesList.resize (frame.getCurveParams key.1).strikesParams.lifetime
        (StrikesList.push (strikesOf frame key) (window older key)) := by
  rw [StrikesList.resize_eq]
  refine List.map_congr_left fun age hage => ?_
  have hlifetime : age < lifetimeAt (frame :: older) key.1 0 := List.mem_range.mp hage
  cases age with
  | zero =>
    have hsurvives : Survives (frame :: older) key.1 0 := by
      intro later hlater
      rw [Nat.le_zero.mp hlater]
      exact hlifetime
    rw [if_pos hsurvives]
    rfl
  | succ age =>
    change _ = (window older key).getD age 0
    by_cases hsurvives : Survives older key.1 age
    · have holder : age < (window older key).length := by
        have hfirst := hsurvives 0 (Nat.zero_le _)
        rwa [window, List.length_map, List.length_range]
      have hnext : Survives (frame :: older) key.1 (age + 1) := survives_succ.mpr ⟨hlifetime, hsurvives⟩
      rw [List.getD_eq_getElem _ _ holder, if_pos hnext]
      simp only [window, List.getElem_map, List.getElem_range, if_pos hsurvives]
      rfl
    · have hnext : ¬Survives (frame :: older) key.1 (age + 1) := fun h => hsurvives (survives_succ.mp h).2
      rw [if_neg hnext]
      by_cases holder : age < (window older key).length
      · rw [List.getD_eq_getElem _ _ holder]
        simp only [window, List.getElem_map, List.getElem_range, if_neg hsurvives]
      · rw [List.getD_eq_default _ _ (not_lt.mp holder)]

/-! The two passes -/

section Passes

variable {base store : StrikesStore} {merged acc : ℕ} {frame : StrikesFrame} {key : StrikesValidator}

theorem pushStrikes_spec (h : ObjectStore.Owned base store merged) {strikesInFrame : Dict StrikesValidator ℕ}
    {strikes : ℕ} (hkey : strikesInFrame.get? key = some strikes) :
    ∃ store', pushStrikes merged strikesInFrame store key = .ok store' ∧
      ObjectStore.Owned base store' merged ∧
      store'.contents merged = Function.update (store.contents merged) key
        (some (StrikesList.push strikes ((store.contents merged key).getD []))) := by
  unfold pushStrikes
  rw [Py.getItem_eq_ok.mpr hkey]
  simp only [Except.ok_bind]
  by_cases hmem : key ∈ store.dictAt merged
  · rw [if_neg (not_not.mpr hmem)]
    obtain ⟨store', hcall, howned, hcontents⟩ := @h.callItem _ _ _ _ _ _ _ _ DistributionError hmem
      (StrikesList.push strikes)
    refine ⟨store', hcall, howned, hcontents.trans ?_⟩
    cases hread : store.contents merged key with
    | none => exact absurd hmem (ObjectStore.contents_eq_none_iff.mp hread)
    | some data => rfl
  · rw [if_pos hmem]
    obtain ⟨hnew, hstart⟩ := h.newItem key []
    have hmem' : key ∈ ((store.newObject []).1.setItem merged key (store.newObject []).2).dictAt merged := by
      by_contra hnot
      have hnone := ObjectStore.contents_eq_none_iff.mpr hnot
      rw [hstart, Function.update_self] at hnone
      cases hnone
    obtain ⟨store', hcall, howned, hcontents⟩ := @hnew.callItem _ _ _ _ _ _ _ _ DistributionError hmem'
      (StrikesList.push strikes)
    refine ⟨store', hcall, howned, hcontents.trans ?_⟩
    rw [hstart, Function.update_self, Function.update_idem, ObjectStore.contents_eq_none_iff.mpr hmem]
    rfl

theorem mem_of_contents {data : StrikesList} (h : store.contents merged key = some data) :
    key ∈ store.dictAt merged := by
  by_contra hnot
  rw [ObjectStore.contents_eq_none_iff.mpr hnot] at h
  cases h

/-- What the second pass makes of a list -/
def shifted (frame : StrikesFrame) (key : StrikesValidator) (data : StrikesList) : StrikesList :=
  StrikesList.resize (frame.getCurveParams key.1).strikesParams.lifetime
    (if key ∉ frame.strikesInFrame then StrikesList.push StrikesList.SENTINEL data else data)

theorem shiftStrikes_spec (h : ObjectStore.Owned base store merged) {data : StrikesList}
    (hkey : store.contents merged key = some data) :
    ∃ store', shiftStrikes merged frame store key = .ok store' ∧
      ObjectStore.Owned base store' merged ∧
      store'.contents merged = Function.update (store.contents merged) key (kept (shifted frame key data)) := by
  have hshift : ∃ store₁, (if key ∉ frame.strikesInFrame then
      store.callItem merged key (StrikesList.push StrikesList.SENTINEL) else pure store :
      Distributing StrikesStore) = .ok store₁ ∧ ObjectStore.Owned base store₁ merged ∧
      store₁.contents merged = Function.update (store.contents merged) key
        (some (if key ∉ frame.strikesInFrame then StrikesList.push StrikesList.SENTINEL data else data)) := by
    by_cases hframe : key ∈ frame.strikesInFrame
    · simp only [not_not.mpr hframe, if_false]
      refine ⟨store, rfl, h, ?_⟩
      rw [← hkey, Function.update_eq_self]
    · simp only [hframe, not_false_iff, if_true]
      obtain ⟨store₁, hcall, howned, hcontents⟩ := h.callItem (mem_of_contents hkey)
        (StrikesList.push StrikesList.SENTINEL)
      refine ⟨store₁, hcall, howned, hcontents.trans ?_⟩
      rw [hkey]
      rfl
  obtain ⟨store₁, hcall₁, howned₁, hcontents₁⟩ := hshift
  have hkey₁ := congrFun hcontents₁ key
  rw [Function.update_self] at hkey₁
  obtain ⟨store₂, hcall₂, howned₂, hcontents₂⟩ := howned₁.callItem (mem_of_contents hkey₁)
    (StrikesList.resize (frame.getCurveParams key.1).strikesParams.lifetime)
  have hresized : store₂.contents merged =
      Function.update (store.contents merged) key (some (shifted frame key data)) := by
    rw [hcontents₂, hkey₁, hcontents₁, Function.update_idem]
    rfl
  have hread := congrFun hresized key
  rw [Function.update_self] at hread
  unfold shiftStrikes
  rw [hcall₁, Except.ok_bind]
  dsimp only
  rw [hcall₂, Except.ok_bind, ObjectStore.readItem_ok_iff.mpr hread, Except.ok_bind]
  by_cases hsum : (shifted frame key data).sum = 0
  · obtain ⟨hdel, hcontents⟩ := howned₂.delItem key
    refine ⟨_, congrArg Except.ok (if_pos hsum), hdel, ?_⟩
    rw [hcontents, hresized, Function.update_idem, kept_eq_none_iff.mpr hsum]
  · refine ⟨_, congrArg Except.ok (if_neg hsum), howned₂, ?_⟩
    rw [hresized, kept_of_sum_ne_zero hsum]

/-- One frame: what stands under a key is its strikes in front of what stood there, resized. -/
theorem processStrikes_spec (h : ObjectStore.Owned base store acc) (frame : StrikesFrame) :
    ∃ store' merged, processStrikes store acc frame = .ok (store', merged) ∧
      ObjectStore.Owned store store' merged ∧
      ∀ key, store'.contents merged key =
        kept (StrikesList.resize (frame.getCurveParams key.1).strikesParams.lifetime
          (StrikesList.push (strikesOf frame key) ((store.contents acc key).getD []))) := by
  obtain ⟨hcopy, hcopied⟩ := h.deepcopy
  obtain ⟨store₁, hpush, howned₁, hpushed⟩ := ExceptRun.foldlM_update
    (v := fun s => s.contents (store.deepcopy acc).2)
    (C := fun key _ => key ∈ frame.strikesInFrame)
    (g := fun key data => some (StrikesList.push (strikesOf frame key) (data.getD [])))
    (fun s => ObjectStore.Owned store s (store.deepcopy acc).2)
    (fun s key hs hkey => by
      obtain ⟨strikes, hstrikes⟩ := Dict.mem_iff_exists_get?.mp hkey
      rw [show strikesOf frame key = strikes by rw [strikesOf, hstrikes]; rfl]
      exact pushStrikes_spec hs hstrikes)
    frame.strikesInFrame.keys_nodup hcopy (fun key hkey => hkey)
  obtain ⟨store₂, hshift, howned₂, hshifted⟩ := ExceptRun.foldlM_update
    (v := fun s => s.contents (store.deepcopy acc).2)
    (C := fun _ data => data ≠ none)
    (g := fun key data => kept (shifted frame key (data.getD [])))
    (fun s => ObjectStore.Owned store s (store.deepcopy acc).2)
    (fun s key hs hdata => by
      obtain ⟨data, hdata⟩ := Option.ne_none_iff_exists'.mp hdata
      rw [hdata]
      exact shiftStrikes_spec hs hdata)
    (store₁.dictAt (store.deepcopy acc).2).keys_nodup howned₁
    (fun key hkey hnone => ObjectStore.contents_eq_none_iff.mp hnone hkey)
  refine ⟨store₂, (store.deepcopy acc).2, ?_, howned₂, fun key => ?_⟩
  · unfold processStrikes
    dsimp only
    rw [hpush, Except.ok_bind, hshift, Except.ok_bind]
    rfl
  · have hshiftedKey := congrFun hshifted key
    have hpushedKey := congrFun hpushed key
    simp only [hcopied, Dict.mem_keys] at hpushedKey
    simp only [hshiftedKey, Dict.mem_keys]
    by_cases hframe : key ∈ frame.strikesInFrame
    · rw [if_pos hframe] at hpushedKey
      rw [if_pos (mem_of_contents hpushedKey), hpushedKey, shifted, if_neg (not_not.mpr hframe)]
      rfl
    · have hnone : strikesOf frame key = StrikesList.SENTINEL := by
        rw [strikesOf, Dict.get?_eq_none_iff.mpr hframe]
        rfl
      rw [if_neg hframe] at hpushedKey
      rw [hpushedKey, hnone]
      cases hacc : store.contents acc key with
      | none =>
        rw [hacc] at hpushedKey
        rw [if_neg (ObjectStore.contents_eq_none_iff.mp hpushedKey)]
        refine (kept_eq_none_iff.mpr ?_).symm
        rw [StrikesList.resize_eq, List.sum_eq_zero_iff]
        refine List.forall_mem_map.mpr fun i _ => ?_
        cases i <;> rfl
      | some data =>
        rw [hacc] at hpushedKey
        rw [if_pos (mem_of_contents hpushedKey), shifted, if_pos hframe]

end Passes

/-! Whole histories -/

section Runs

/-- The map `start.2` holds the windows of a history, in lists of its own. -/
structure Holds (start : StrikesStore × ℕ) (recent : List StrikesFrame) : Prop where
  owned : ObjectStore.Owned ObjectStore.empty start.1 start.2
  windows : ∀ key, start.1.contents start.2 key = kept (window recent key)

theorem holds_nil (store : StrikesStore) : Holds (store.newDict Dict.empty) [] := by
  refine ⟨(ObjectStore.owned_newDict_empty store).weaken (ObjectStore.empty_unchanged store), fun key => ?_⟩
  rw [ObjectStore.contents_newDict_empty]
  rfl

theorem processStrikes_holds {start : StrikesStore × ℕ} {recent : List StrikesFrame} (h : Holds start recent)
    (frame : StrikesFrame) :
    ∃ next, processStrikes start.1 start.2 frame = .ok next ∧ ObjectStore.Unchanged start.1 next.1 ∧
      Holds next (frame :: recent) := by
  obtain ⟨store, merged, hprocess, howned, hcontents⟩ := processStrikes_spec h.owned frame
  refine ⟨(store, merged), hprocess, howned.unchanged,
    howned.weaken (ObjectStore.empty_unchanged _), fun key => ?_⟩
  rw [hcontents, h.windows, window_cons]
  refine congrArg kept (StrikesList.resize_push_congr ?_ _ _)
  exact kept_getD (window recent key)

theorem processFrames_holds {start : StrikesStore × ℕ} {recent : List StrikesFrame} (h : Holds start recent)
    (frames : List StrikesFrame) :
    ∃ last, processFrames start frames = .ok last ∧ ObjectStore.Unchanged start.1 last.1 ∧
      Holds last (frames.reverse ++ recent) := by
  induction frames generalizing start recent with
  | nil => exact ⟨start, rfl, ObjectStore.Unchanged.refl _, h⟩
  | cons frame frames ih =>
    obtain ⟨next, hstep, hunchanged, hnext⟩ := processStrikes_holds h frame
    obtain ⟨last, hrun, hrest, hlast⟩ := ih hnext
    refine ⟨last, ExceptRun.foldlM_cons_ok.mpr ⟨next, hstep, hrun⟩, hunchanged.trans hrest, ?_⟩
    rw [List.reverse_cons, List.append_assoc]
    exact hlast

/-- From any map that the frames of earlier reports have left, the frames of this one leave the
windows of the whole history, and no map or list of strikes that existed before is changed by any of
the steps. -/
theorem processFrames_windows (store : StrikesStore) (reported frames : List StrikesFrame) :
    ∃ start last, processFrames (store.newDict Dict.empty) reported = .ok start ∧
      processFrames start frames = .ok last ∧
      (∀ key, last.1.contents last.2 key = kept (window (frames.reverse ++ reported.reverse) key)) ∧
      ∀ done rest, frames = done ++ rest → ∃ acc, processFrames start done = .ok acc ∧
        processFrames acc rest = .ok last ∧ ObjectStore.Unchanged acc.1 last.1 ∧
        ∀ key, acc.1.contents acc.2 key = kept (window (done.reverse ++ reported.reverse) key) ∧
          last.1.contents acc.2 key = acc.1.contents acc.2 key := by
  obtain ⟨start, hstart, -, hreported⟩ := processFrames_holds (holds_nil store) reported
  rw [List.append_nil] at hreported
  obtain ⟨last, hlast, -, hwindows⟩ := processFrames_holds hreported frames
  refine ⟨start, last, hstart, hlast, hwindows.windows, ?_⟩
  intro done rest hsplit
  obtain ⟨acc, hdone, -, hacc⟩ := processFrames_holds hreported done
  obtain ⟨end_, hrest, hunchanged, -⟩ := processFrames_holds hacc rest
  have hwhole : processFrames start frames = .ok end_ := by
    rw [hsplit]
    exact ExceptRun.foldlM_append_ok.mpr ⟨acc, hdone, hrest⟩
  have hend : end_ = last := Except.ok.inj (hwhole.symm.trans hlast)
  subst hend
  exact ⟨acc, hdone, hrest, hunchanged, fun key =>
    ⟨hacc.windows key, congrFun (hacc.owned.contents_of_unchanged hunchanged) key⟩⟩

end Runs

end StakingModules

end LidoOracle
