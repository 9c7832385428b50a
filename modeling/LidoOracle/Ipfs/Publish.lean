import LidoOracle.Ipfs.Fallback
import LidoOracle.Lib.Tally
import LidoOracle.Types

/-! Publishing with all providers at once. Of the CIDs that come back, in whatever
order, the majority's is taken, and without a majority the one of the provider
that the configuration names first. -/

namespace LidoOracle

namespace Ipfs

/-- An `IPFSProvider`, and what its `publish` does at each attempt -/
structure Provider where
  className : String
  publish : ℕ → Attempt CID

structure SuccessfulUpload where
  providerClass : String
  cid : CID
  deriving DecidableEq

/-- The providers as `__init__` leaves them: shuffled, and in the configured order -/
structure Publisher where
  retries : ℕ
  providers : List Provider
  priorityProviders : List Provider
  shuffled : providers.Perm priorityProviders

def uploadToProvider (retries : ℕ) (provider : Provider) : Except Failure CID :=
  (retryLoop (fun _ attempt => (provider.publish attempt, ())) retries 0 ()).1

/-- The uploads that went through, in the order in which they completed -/
def successfulUploads (retries : ℕ) (completed : List Provider) : List SuccessfulUpload :=
  completed.filterMap fun provider =>
    match uploadToProvider retries provider with
    | .ok cid => some ⟨provider.className, cid⟩
    | .error _ => none

/-- `Counter` over the CIDs of the uploads -/
def cidCounts (uploads : List SuccessfulUpload) : Dict CID ℕ :=
  Dict.empty.addAll (uploads.map fun upload => (upload.cid, 1))

def selectCidWithQuorum (priorityProviders : List Provider) (uploads : List SuccessfulUpload) : Except Failure CID :=
  let requiredQuorum := uploads.length / 2 + 1
  match (cidCounts uploads).entries.find? fun e => requiredQuorum ≤ e.2 with
  | some e => .ok e.1
  | none =>
    let byPriority := priorityProviders.findSome? fun provider =>
      (uploads.find? fun upload => upload.providerClass = provider.className).map SuccessfulUpload.cid
    match byPriority with
    | some cid => .ok cid
    | none => .error .providerConsistency

/-- `publish`, when the uploads complete in the order of `completed` -/
def publish (publisher : Publisher) (completed : List Provider) : Except Failure CID :=
  let uploads := successfulUploads publisher.retries completed
  if uploads = [] then .error .noMoreProviders else selectCidWithQuorum publisher.priorityProviders uploads

/-- More than half of the uploads returned it. -/
def StrictMajority (uploads : List SuccessfulUpload) (cid : CID) : Prop :=
  uploads.length < 2 * uploads.countP fun upload => upload.cid = cid

/-- The provider is the first one in order whose upload went through. -/
def FirstSuccess (retries : ℕ) (providers : List Provider) (cid : CID) : Prop :=
  ∃ failed provider rest, providers = failed ++ provider :: rest ∧
    (∀ other ∈ failed, ∃ failure, uploadToProvider retries other = .error failure) ∧
    uploadToProvider retries provider = .ok cid

section Quorum

variable {uploads : List SuccessfulUpload} {cid : CID}

theorem totalAt_cidCounts (uploads : List SuccessfulUpload) (cid : CID) :
    (cidCounts uploads).totalAt cid = uploads.countP fun upload => upload.cid = cid := by
  rw [cidCounts, Dict.totalAt_addAll, Dict.totalAt_empty, Nat.zero_add]
  induction uploads with
  | nil => rfl
  | cons upload uploads ih =>
    rw [List.map_cons, Dict.amountAt_cons, ih, List.countP_cons, Nat.add_comm]
    simp

theorem strictMajority_iff : StrictMajority uploads cid ↔
    uploads.length / 2 + 1 ≤ uploads.countP fun upload => upload.cid = cid := by
  unfold StrictMajority
  omega

theorem StrictMajority.unique {cid' : CID} (h : StrictMajority uploads cid) (h' : StrictMajority uploads cid') :
    cid = cid' := by
  by_contra hne
  have hle : (uploads.countP fun upload => upload.cid = cid') ≤
      uploads.countP fun upload => ¬(decide (upload.cid = cid) = true) := by
    refine List.countP_mono_left fun upload _ hcid => ?_
    have heq : upload.cid = cid' := by simpa using hcid
    simpa [heq] using Ne.symm hne
  have hsplit : uploads.length = (uploads.countP fun upload => upload.cid = cid) +
      uploads.countP fun upload => ¬(decide (upload.cid = cid) = true) :=
    List.length_eq_countP_add_countP _
  unfold StrictMajority at h h'
  omega

/-- What the loop over the counter finds -/
theorem find?_cidCounts (uploads : List SuccessfulUpload) :
    (∃ e, (cidCounts uploads).entries.find? (fun e => uploads.length / 2 + 1 ≤ e.2) = some e ∧
      StrictMajority uploads e.1) ∨
    ((cidCounts uploads).entries.find? (fun e => uploads.length / 2 + 1 ≤ e.2) = none ∧
      ∀ cid, ¬StrictMajority uploads cid) := by
  rcases hfind : (cidCounts uploads).entries.find? (fun e => uploads.length / 2 + 1 ≤ e.2) with _ | e
  · refine .inr ⟨hfind, fun cid hmajority => ?_⟩
    rw [strictMajority_iff, ← totalAt_cidCounts] at hmajority
    have hmem : cid ∈ cidCounts uploads := by
      by_contra hnot
      rw [Dict.totalAt_of_not_mem hnot] at hmajority
      omega
    have hnone := List.find?_eq_none.mp hfind _ (Dict.mem_entries_totalAt hmem)
    simp only [decide_eq_true_eq] at hnone
    exact hnone hmajority
  · refine .inl ⟨e, hfind, ?_⟩
    have hle : uploads.length / 2 + 1 ≤ e.2 := by simpa using List.find?_some hfind
    rwa [strictMajority_iff, ← totalAt_cidCounts, Dict.totalAt_of_mem_entries (List.mem_of_find?_eq_some hfind)]

/-- The choice of the majority, or that of the fallback -/
theorem selectCidWithQuorum_of_majority (priorityProviders : List Provider) (h : StrictMajority uploads cid) :
    selectCidWithQuorum priorityProviders uploads = .ok cid := by
  rcases find?_cidCounts uploads with ⟨e, hfind, hmajority⟩ | ⟨-, hnone⟩
  · simp only [selectCidWithQuorum, hfind, hmajority.unique h]
  · exact absurd h (hnone cid)

theorem selectCidWithQuorum_of_none {priorityProviders : List Provider} (h : ∀ cid, ¬StrictMajority uploads cid)
    (hpriority : (priorityProviders.findSome? fun provider =>
      (uploads.find? fun upload => upload.providerClass = provider.className).map SuccessfulUpload.cid) = some cid) :
    selectCidWithQuorum priorityProviders uploads = .ok cid := by
  rcases find?_cidCounts uploads with ⟨e, -, hmajority⟩ | ⟨hfind, -⟩
  · exact absurd hmajority (h e.1)
  · simp only [selectCidWithQuorum, hfind, hpriority]

end Quorum

section Order

variable {retries : ℕ} {completed completed' priority : List Provider}

theorem mem_successfulUploads {upload : SuccessfulUpload} :
    upload ∈ successfulUploads retries completed ↔ ∃ provider ∈ completed,
      uploadToProvider retries provider = .ok upload.cid ∧ provider.className = upload.providerClass := by
  rw [successfulUploads, List.mem_filterMap]
  refine ⟨fun ⟨provider, hmem, hupload⟩ => ⟨provider, hmem, ?_⟩,
    fun ⟨provider, hmem, hok, hclass⟩ => ⟨provider, hmem, ?_⟩⟩
  · rcases hresult : uploadToProvider retries provider with failure | cid
    · simp [hresult] at hupload
    · rw [hresult] at hupload
      obtain rfl := Option.some.inj hupload
      exact ⟨rfl, rfl⟩
  · simp only [hok, hclass]

theorem successfulUploads_perm (h : completed.Perm completed') :
    (successfulUploads retries completed).Perm (successfulUploads retries completed') :=
  h.filterMap _

theorem strictMajority_perm {uploads uploads' : List SuccessfulUpload} (h : uploads.Perm uploads') (cid : CID) :
    StrictMajority uploads cid ↔ StrictMajority uploads' cid := by
  rw [StrictMajority, StrictMajority, h.length_eq, h.countP_eq]

/-- The upload found for a provider is its own, as no other provider has its class. -/
theorem find?_providerClass (hclasses : (priority.map Provider.className).Nodup) (hperm : completed.Perm priority)
    {provider : Provider} (hmem : provider ∈ priority) :
    ((successfulUploads retries completed).find? fun upload => upload.providerClass = provider.className).map
      SuccessfulUpload.cid = (uploadToProvider retries provider).toOption := by
  have hown : ∀ upload ∈ successfulUploads retries completed, upload.providerClass = provider.className →
      uploadToProvider retries provider = .ok upload.cid := by
    intro upload hupload hclass
    obtain ⟨other, hother, hok, hname⟩ := mem_successfulUploads.mp hupload
    rwa [List.inj_on_of_nodup_map hclasses (hperm.subset hother) hmem (hname.trans hclass)] at hok
  rcases hfind : (successfulUploads retries completed).find? fun upload => upload.providerClass = provider.className
    with _ | upload <;> rw [hfind]
  · rcases hresult : uploadToProvider retries provider with failure | cid
    · rfl
    · have hupload : (⟨provider.className, cid⟩ : SuccessfulUpload) ∈ successfulUploads retries completed :=
        mem_successfulUploads.mpr ⟨provider, hperm.mem_iff.mpr hmem, hresult, rfl⟩
      have hnone := List.find?_eq_none.mp hfind _ hupload
      simp at hnone
  · have hclass : upload.providerClass = provider.className := by simpa using List.find?_some hfind
    rw [hown upload (List.mem_of_find?_eq_some hfind) hclass]
    rfl

/-- What the nested loops find is the first provider in order whose upload went through. -/
theorem findSome?_priority (hclasses : (priority.map Provider.className).Nodup) (hperm : completed.Perm priority)
    {cid : CID} (hfirst : FirstSuccess retries priority cid) :
    (priority.findSome? fun provider => ((successfulUploads retries completed).find? fun upload =>
      upload.providerClass = provider.className).map SuccessfulUpload.cid) = some cid := by
  obtain ⟨failed, provider, rest, hsplit, hfailed, hok⟩ := hfirst
  rw [List.findSome?_eq_some_iff]
  refine ⟨failed, provider, rest, hsplit, ?_, fun other hother => ?_⟩
  · rw [find?_providerClass hclasses hperm (by simp [hsplit]), hok]
    rfl
  · obtain ⟨failure, hfailure⟩ := hfailed other hother
    rw [find?_providerClass hclasses hperm (by simp [hsplit, hother]), hfailure]
    rfl

theorem exists_firstSuccess {provider : Provider} {cid : CID} (hmem : provider ∈ priority)
    (hok : uploadToProvider retries provider = .ok cid) : ∃ cid, FirstSuccess retries priority cid := by
  induction priority with
  | nil => cases hmem
  | cons head priority ih =>
    rcases hhead : uploadToProvider retries head with failure | first
    · have hrest : provider ∈ priority := by
        rcases List.mem_cons.mp hmem with rfl | hrest
        · rw [hhead] at hok
          cases hok
        · exact hrest
      obtain ⟨first, failed, next, rest, rfl, hfailed, hnext⟩ := ih hrest
      exact ⟨first, head :: failed, next, rest, rfl, List.forall_mem_cons.mpr ⟨⟨failure, hhead⟩, hfailed⟩, hnext⟩
    · exact ⟨first, [], head, priority, rfl, by simp, hhead⟩

end Order

/-- The CID is the same whatever the shuffle and whatever the order in which the uploads complete. -/
theorem publish_eq (retries : ℕ) (priority : List Provider) (hclasses : (priority.map Provider.className).Nodup)
    (hsuccess : ∃ provider ∈ priority, ∃ cid, uploadToProvider retries provider = .ok cid) :
    ∃ cid, (∀ publisher : Publisher, publisher.retries = retries → publisher.priorityProviders = priority →
        ∀ completed : List Provider, completed.Perm publisher.providers → publish publisher completed = .ok cid) ∧
      (StrictMajority (successfulUploads retries priority) cid ∨
        (∀ other, ¬StrictMajority (successfulUploads retries priority) other) ∧ FirstSuccess retries priority cid) := by
  obtain ⟨provider, hmem, cid₀, hok⟩ := hsuccess
  have hrun : ∀ {cid : CID}, (∀ completed : List Provider, completed.Perm priority →
      selectCidWithQuorum priority (successfulUploads retries completed) = .ok cid) →
      ∀ publisher : Publisher, publisher.retries = retries → publisher.priorityProviders = priority →
      ∀ completed : List Provider, completed.Perm publisher.providers → publish publisher completed = .ok cid := by
    rintro cid hselect publisher rfl rfl completed hcompleted
    have hperm := hcompleted.trans publisher.shuffled
    have hupload : (⟨provider.className, cid₀⟩ : SuccessfulUpload) ∈ successfulUploads publisher.retries completed :=
      mem_successfulUploads.mpr ⟨provider, hperm.mem_iff.mpr hmem, hok, rfl⟩
    rw [publish, if_neg (List.ne_nil_of_mem hupload), hselect completed hperm]
  by_cases hmajority : ∃ cid, StrictMajority (successfulUploads retries priority) cid
  · obtain ⟨cid, hcid⟩ := hmajority
    refine ⟨cid, hrun fun completed hperm => ?_, .inl hcid⟩
    exact selectCidWithQuorum_of_majority priority ((strictMajority_perm (successfulUploads_perm hperm) cid).mpr hcid)
  · obtain ⟨cid, hfirst⟩ := exists_firstSuccess hmem hok
    have hnone : ∀ other, ¬StrictMajority (successfulUploads retries priority) other := not_exists.mp hmajority
    refine ⟨cid, hrun fun completed hperm => ?_, .inr ⟨hnone, hfirst⟩⟩
    refine selectCidWithQuorum_of_none (fun other hother => ?_) (findSome?_priority hclasses hperm hfirst)
    exact hnone other ((strictMajority_perm (successfulUploads_perm hperm) other).mp hother)

/-- Two uploads that differ, and one that fails -/
def disagreeing : List Provider :=
  [⟨"LidoIPFS", fun _ => .ipfsError⟩, ⟨"Pinata", fun attempt => if attempt = 0 then .ipfsError else .success "Qm1"⟩,
    ⟨"Kubo", fun _ => .success "Qm2"⟩]

/-- No CID has the majority, and Pinata is the first in the configured order to succeed, at its second attempt. -/
theorem publish_eq_disagreeing :
    (∀ publisher : Publisher, publisher.retries = 3 → publisher.priorityProviders = disagreeing →
      ∀ completed : List Provider, completed.Perm publisher.providers → publish publisher completed = .ok "Qm1") ∧
    successfulUploads 3 disagreeing.reverse = [⟨"Kubo", "Qm2"⟩, ⟨"Pinata", "Qm1"⟩] := by
  obtain ⟨cid, hall, -⟩ :=
    publish_eq 3 disagreeing (by decide) ⟨⟨"Kubo", fun _ => .success "Qm2"⟩, by simp [disagreeing], "Qm2", rfl⟩
  have hreversed : (.ok cid : Except Failure CID) = .ok "Qm1" :=
    (hall ⟨3, disagreeing.reverse, disagreeing, List.reverse_perm _⟩ rfl rfl disagreeing.reverse (.refl _)).symm
  obtain rfl := Except.ok.inj hreversed
  exact ⟨hall, rfl⟩

end Ipfs

end LidoOracle
