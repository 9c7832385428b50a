import LidoOracle.Lib.Python

/-! Dictionaries of mutable objects. Objects and dictionaries live in a store
and are passed around as references, so that a copy, an alias and an update in
place are three different things. -/

/-- The objects and the dictionaries handed out so far; a dictionary holds references to objects. -/
structure ObjectStore (κ : Type) (α : Type) where
  objects : List α
  dicts : List (Dict κ ℕ)

namespace ObjectStore

variable {κ : Type} {α : Type}

def empty : ObjectStore κ α := ⟨[], []⟩

/-- Every object and every dictionary of the first store reads the same in the second. -/
structure Unchanged (s s' : ObjectStore κ α) : Prop where
  objects : s.objects <+: s'.objects
  dicts : s.dicts <+: s'.dicts

theorem Unchanged.refl (s : ObjectStore κ α) : Unchanged s s :=
  ⟨List.prefix_rfl, List.prefix_rfl⟩

theorem Unchanged.trans {s s' s'' : ObjectStore κ α} (h : Unchanged s s') (h' : Unchanged s' s'') :
    Unchanged s s'' :=
  ⟨h.objects.trans h'.objects, h.dicts.trans h'.dicts⟩

theorem empty_unchanged (s : ObjectStore κ α) : Unchanged empty s :=
  ⟨List.nil_prefix, List.nil_prefix⟩

def dictAt (s : ObjectStore κ α) (m : ℕ) : Dict κ ℕ := s.dicts.getD m Dict.empty

def newObject (s : ObjectStore κ α) (a : α) : ObjectStore κ α × ℕ :=
  (⟨s.objects ++ [a], s.dicts⟩, s.objects.length)

def newDict (s : ObjectStore κ α) (d : Dict κ ℕ) : ObjectStore κ α × ℕ :=
  (⟨s.objects, s.dicts ++ [d]⟩, s.dicts.length)

/-- A method that changes the object behind a reference -/
def updateObject (s : ObjectStore κ α) (r : ℕ) (f : α → α) : ObjectStore κ α :=
  ⟨s.objects.modify r f, s.dicts⟩

/-- What lies beyond a prefix can change. -/
theorem prefix_modify {β : Type} {l l' : List β} {i : ℕ} (h : l <+: l') (hi : l.length ≤ i) (f : β → β) :
    l <+: l'.modify i f := by
  rw [List.prefix_iff_getElem?] at h ⊢
  intro j hj
  rw [List.getElem?_modify_ne f l' (by omega), h j hj]

variable {s s' : ObjectStore κ α} {m : ℕ}

theorem dictAt_of_unchanged (h : Unchanged s s') (hm : m < s.dicts.length) :
    s'.dictAt m = s.dictAt m := by
  obtain ⟨rest, hrest⟩ := h.dicts
  unfold dictAt
  rw [← hrest, List.getD_append _ _ _ _ hm]

theorem dictAt_modify (hm : m < s.dicts.length) (f : Dict κ ℕ → Dict κ ℕ) :
    (⟨s.objects, s.dicts.modify m f⟩ : ObjectStore κ α).dictAt m = f (s.dictAt m) := by
  unfold dictAt
  rw [List.getD_eq_getElem?_getD, List.getElem?_modify_eq, List.getElem?_eq_getElem hm,
    List.getD_eq_getElem _ _ hm]
  rfl

section Dicts

variable [DecidableEq κ]

/-- `m[k] = r` -/
def setItem (s : ObjectStore κ α) (m : ℕ) (k : κ) (r : ℕ) : ObjectStore κ α :=
  ⟨s.objects, s.dicts.modify m fun d => d.set k r⟩

/-- `del m[k]` -/
def delItem (s : ObjectStore κ α) (m : ℕ) (k : κ) : ObjectStore κ α :=
  ⟨s.objects, s.dicts.modify m fun d => d.erase k⟩

/-- `m[k].f()` -/
def callItem {χ : Type} (s : ObjectStore κ α) (m : ℕ) (k : κ) (f : α → α) : Py χ (ObjectStore κ α) := do
  let r ← Py.getItem (s.dictAt m) k
  return s.updateObject r f

/-- The dictionary `m` and its objects were made after `base`, and no object stands under two keys. -/
structure Owned (base s : ObjectStore κ α) (m : ℕ) : Prop where
  unchanged : Unchanged base s
  dict_new : base.dicts.length ≤ m
  dict_lt : m < s.dicts.length
  object_new : ∀ k r, (s.dictAt m).get? k = some r → base.objects.length ≤ r
  object_lt : ∀ k r, (s.dictAt m).get? k = some r → r < s.objects.length
  unaliased : ∀ k k' r, (s.dictAt m).get? k = some r → (s.dictAt m).get? k' = some r → k = k'

variable {base s s' : ObjectStore κ α} {m : ℕ} {k : κ}

theorem Owned.weaken {base' : ObjectStore κ α} (h : Owned base s m) (hb : Unchanged base' base) :
    Owned base' s m where
  unchanged := hb.trans h.unchanged
  dict_new := hb.dicts.length_le.trans h.dict_new
  dict_lt := h.dict_lt
  object_new := fun k r hk => hb.objects.length_le.trans (h.object_new k r hk)
  object_lt := h.object_lt
  unaliased := h.unaliased

theorem owned_newDict_empty (s : ObjectStore κ α) :
    Owned s (s.newDict Dict.empty).1 (s.newDict Dict.empty).2 := by
  have hdict : (s.newDict Dict.empty).1.dictAt (s.newDict Dict.empty).2 = Dict.empty := by
    simp [newDict, dictAt]
  refine ⟨⟨List.prefix_rfl, List.prefix_append _ _⟩, le_rfl, ?_, ?_, ?_, ?_⟩
  · simp [newDict]
  all_goals
    rw [hdict]
    intros
    contradiction

end Dicts

section Objects

variable [Inhabited α]

def objectAt (s : ObjectStore κ α) (r : ℕ) : α := s.objects.getD r default

variable {s s' : ObjectStore κ α} {r : ℕ}

theorem objectAt_of_unchanged (h : Unchanged s s') (hr : r < s.objects.length) :
    s'.objectAt r = s.objectAt r := by
  obtain ⟨rest, hrest⟩ := h.objects
  unfold objectAt
  rw [← hrest, List.getD_append _ _ _ _ hr]

theorem objectAt_newObject (s : ObjectStore κ α) (a : α) :
    (s.newObject a).1.objectAt (s.newObject a).2 = a := by
  simp [newObject, objectAt]

theorem objectAt_updateObject (hr : r < s.objects.length) (f : α → α) (r' : ℕ) :
    (s.updateObject r f).objectAt r' = if r' = r then f (s.objectAt r') else s.objectAt r' := by
  unfold objectAt updateObject
  rw [List.getD_eq_getElem?_getD, List.getD_eq_getElem?_getD]
  split_ifs with h
  · rw [h, List.getElem?_modify_eq, List.getElem?_eq_getElem hr]
    rfl
  · rw [List.getElem?_modify_ne f s.objects (Ne.symm h)]

end Objects

section Contents

variable [DecidableEq κ] [Inhabited α]

/-- The object `m[k]` -/
def readItem {χ : Type} (s : ObjectStore κ α) (m : ℕ) (k : κ) : Py χ α := do
  let r ← Py.getItem (s.dictAt m) k
  return s.objectAt r

/-- What a dictionary holds under a key -/
def contents (s : ObjectStore κ α) (m : ℕ) (k : κ) : Option α :=
  ((s.dictAt m).get? k).map s.objectAt

/-- An object that was copied before is not copied again. -/
def copyItem (copy : ℕ) (acc : ObjectStore κ α × Dict ℕ ℕ) (e : κ × ℕ) : ObjectStore κ α × Dict ℕ ℕ :=
  match acc.2.get? e.2 with
  | some r => (acc.1.setItem copy e.1 r, acc.2)
  | none =>
    let (store, r) := acc.1.newObject (acc.1.objectAt e.2)
    (store.setItem copy e.1 r, acc.2.set e.2 r)

/-- `deepcopy(m)` -/
def deepcopy (s : ObjectStore κ α) (m : ℕ) : ObjectStore κ α × ℕ :=
  let (store, copy) := s.newDict Dict.empty
  (((s.dictAt m).entries.foldl (copyItem copy) (store, Dict.empty)).1, copy)

variable {base s s' : ObjectStore κ α} {m : ℕ} {k : κ}

theorem contents_eq_none_iff : s.contents m k = none ↔ k ∉ s.dictAt m := by
  unfold contents
  rw [Option.map_eq_none_iff, Dict.get?_eq_none_iff]

@[simp] theorem contents_newDict_empty (s : ObjectStore κ α) (k : κ) :
    (s.newDict Dict.empty).1.contents (s.newDict Dict.empty).2 k = none := by
  simp [newDict, contents, dictAt]

theorem readItem_ok_iff {χ : Type} {a : α} :
    (s.readItem m k : Py χ α) = .ok a ↔ s.contents m k = some a := by
  unfold readItem contents
  simp only [Except.bind_eq_ok, Py.getItem_eq_ok, Except.pure_eq_ok, Option.map_eq_some_iff]

/-- What was built in a store stays readable in every later one. -/
theorem Owned.contents_of_unchanged (h : Owned base s m) (hs : Unchanged s s') :
    s'.contents m = s.contents m := by
  funext k
  unfold contents
  rw [dictAt_of_unchanged hs h.dict_lt]
  cases hk : (s.dictAt m).get? k with
  | none => rfl
  | some r => rw [Option.map_some, Option.map_some, objectAt_of_unchanged hs (h.object_lt k r hk)]

/-- `m[k] = a` with a new object -/
theorem Owned.newItem (h : Owned base s m) (k : κ) (a : α) :
    Owned base ((s.newObject a).1.setItem m k (s.newObject a).2) m ∧
      ((s.newObject a).1.setItem m k (s.newObject a).2).contents m =
        Function.update (s.contents m) k (some a) := by
  set s' := (s.newObject a).1.setItem m k (s.newObject a).2 with hs'
  have hdict : s'.dictAt m = (s.dictAt m).set k s.objects.length := dictAt_modify h.dict_lt _
  have hlength : s'.objects.length = s.objects.length + 1 := by simp [hs', newObject, setItem]
  have hold : ∀ r < s.objects.length, s'.objectAt r = s.objectAt r := fun r hr => by
    have hsame : s'.objectAt r = (s.newObject a).1.objectAt r := rfl
    rw [hsame]
    exact objectAt_of_unchanged ⟨List.prefix_append _ _, List.prefix_rfl⟩ hr
  have hget : ∀ k' r, (s'.dictAt m).get? k' = some r →
      (k' = k ∧ r = s.objects.length) ∨ (k' ≠ k ∧ (s.dictAt m).get? k' = some r) := by
    intro k' r hr
    rw [hdict, Dict.get?_set] at hr
    split_ifs at hr with hk
    · exact .inl ⟨hk, (Option.some.inj hr).symm⟩
    · exact .inr ⟨hk, hr⟩
  refine ⟨⟨⟨h.unchanged.objects.trans (List.prefix_append _ _), prefix_modify h.unchanged.dicts h.dict_new _⟩,
    h.dict_new, ?_, ?_, ?_, ?_⟩, ?_⟩
  · simpa [hs', newObject, setItem] using h.dict_lt
  · intro k' r hr
    rcases hget k' r hr with ⟨-, rfl⟩ | ⟨-, hr⟩
    · exact h.unchanged.objects.length_le
    · exact h.object_new k' r hr
  · intro k' r hr
    rw [hlength]
    rcases hget k' r hr with ⟨-, rfl⟩ | ⟨-, hr⟩
    · omega
    · have := h.object_lt k' r hr
      omega
  · intro k₁ k₂ r h₁ h₂
    rcases hget k₁ r h₁ with ⟨hk₁, hr₁⟩ | ⟨-, hr₁⟩ <;> rcases hget k₂ r h₂ with ⟨hk₂, hr₂⟩ | ⟨-, hr₂⟩
    · exact hk₁.trans hk₂.symm
    · exact absurd (h.object_lt k₂ r hr₂) (by omega)
    · exact absurd (h.object_lt k₁ r hr₁) (by omega)
    · exact h.unaliased k₁ k₂ r hr₁ hr₂
  · funext k'
    unfold contents
    rw [hdict, Dict.get?_set, Function.update_apply]
    split_ifs with hk
    · exact congrArg some (objectAt_newObject s a)
    · cases hk' : (s.dictAt m).get? k' with
      | none => rfl
      | some r => rw [Option.map_some, Option.map_some, hold r (h.object_lt k' r hk')]

/-- `m[k].f()` changes what stands under `k` and nothing else. -/
theorem Owned.callItem {χ : Type} (h : Owned base s m) (hk : k ∈ s.dictAt m) (f : α → α) :
    ∃ s', (s.callItem m k f : Py χ _) = .ok s' ∧ Owned base s' m ∧
      s'.contents m = Function.update (s.contents m) k ((s.contents m k).map f) := by
  obtain ⟨r, hr⟩ := Dict.mem_iff_exists_get?.mp hk
  have hlt := h.object_lt k r hr
  have hcall : (s.callItem m k f : Py χ _) = .ok (s.updateObject r f) := by
    unfold ObjectStore.callItem
    rw [Py.getItem_eq_ok.mpr hr]
    rfl
  have hlength : (s.updateObject r f).objects.length = s.objects.length := by simp [updateObject]
  refine ⟨_, hcall, ⟨⟨prefix_modify h.unchanged.objects (h.object_new k r hr) f, h.unchanged.dicts⟩,
    h.dict_new, h.dict_lt, h.object_new, ?_, h.unaliased⟩, ?_⟩
  · intro k' r' hr'
    rw [hlength]
    exact h.object_lt k' r' hr'
  · funext k'
    have hsame : (s.updateObject r f).dictAt m = s.dictAt m := rfl
    unfold contents
    rw [hsame, Function.update_apply]
    split_ifs with hk'
    · rw [hk', hr, Option.map_some, objectAt_updateObject hlt, if_pos rfl]
      rfl
    · cases hr' : (s.dictAt m).get? k' with
      | none => rfl
      | some r' =>
        have hne : r' ≠ r := fun heq => hk' (h.unaliased k' k r (heq ▸ hr') hr)
        rw [Option.map_some, Option.map_some, objectAt_updateObject hlt, if_neg hne]

/-- `del m[k]` -/
theorem Owned.delItem (h : Owned base s m) (k : κ) :
    Owned base (s.delItem m k) m ∧
      (s.delItem m k).contents m = Function.update (s.contents m) k none := by
  have hdict : (s.delItem m k).dictAt m = (s.dictAt m).erase k := dictAt_modify h.dict_lt _
  have hget : ∀ k' r, ((s.delItem m k).dictAt m).get? k' = some r → (s.dictAt m).get? k' = some r := by
    intro k' r hr
    rw [hdict, Dict.get?_erase] at hr
    split_ifs at hr
    exact hr
  refine ⟨⟨⟨h.unchanged.objects, prefix_modify h.unchanged.dicts h.dict_new _⟩, h.dict_new, ?_,
    fun k' r hr => h.object_new k' r (hget k' r hr), fun k' r hr => h.object_lt k' r (hget k' r hr),
    fun k₁ k₂ r h₁ h₂ => h.unaliased k₁ k₂ r (hget k₁ r h₁) (hget k₂ r h₂)⟩, ?_⟩
  · simpa [ObjectStore.delItem] using h.dict_lt
  · funext k'
    unfold contents
    rw [hdict, Dict.get?_erase, Function.update_apply]
    split_ifs with hk'
    · rfl
    · rfl

theorem Owned.copyItem (h : Owned base s m) {copy : ℕ} {acc : ObjectStore κ α × Dict ℕ ℕ} {e : κ × ℕ}
    (hacc : Owned s acc.1 copy) (he : (s.dictAt m).get? e.1 = some e.2) (hmemo : e.2 ∉ acc.2) :
    Owned s (ObjectStore.copyItem copy acc e).1 copy ∧
      (ObjectStore.copyItem copy acc e).1.contents copy =
        Function.update (acc.1.contents copy) e.1 (s.contents m e.1) ∧
      ∀ r ∈ (ObjectStore.copyItem copy acc e).2, r = e.2 ∨ r ∈ acc.2 := by
  have hobject : s.contents m e.1 = some (acc.1.objectAt e.2) := by
    rw [contents, he, objectAt_of_unchanged hacc.unchanged (h.object_lt e.1 e.2 he)]
    rfl
  obtain ⟨hstep, hcontents⟩ := hacc.newItem e.1 (acc.1.objectAt e.2)
  unfold ObjectStore.copyItem
  rw [Dict.get?_eq_none_iff.mpr hmemo, hobject]
  exact ⟨hstep, hcontents, fun r hr => Dict.mem_set.mp hr⟩

theorem Owned.copyItems (h : Owned base s m) {copy : ℕ} {es : List (κ × ℕ)}
    (hes : ∀ e ∈ es, (s.dictAt m).get? e.1 = some e.2) (hnodup : (es.map Prod.snd).Nodup)
    {acc : ObjectStore κ α × Dict ℕ ℕ} (hacc : Owned s acc.1 copy) (hmemo : ∀ e ∈ es, e.2 ∉ acc.2) :
    Owned s (es.foldl (ObjectStore.copyItem copy) acc).1 copy ∧
      (es.foldl (ObjectStore.copyItem copy) acc).1.contents copy =
        fun k => if k ∈ es.map Prod.fst then s.contents m k else acc.1.contents copy k := by
  induction es generalizing acc with
  | nil => exact ⟨hacc, rfl⟩
  | cons e es ih =>
    rw [List.forall_mem_cons] at hes hmemo
    rw [List.map_cons, List.nodup_cons] at hnodup
    obtain ⟨hstep, hcontents, hseen⟩ := h.copyItem hacc hes.1 hmemo.1
    have hfresh : ∀ e' ∈ es, e'.2 ∉ (ObjectStore.copyItem copy acc e).2 := by
      intro e' he' hmem
      rcases hseen e'.2 hmem with heq | hmem
      · exact hnodup.1 (heq ▸ List.mem_map_of_mem he')
      · exact hmemo.2 e' he' hmem
    obtain ⟨howned, hall⟩ := ih hes.2 hnodup.2 hstep hfresh
    refine ⟨howned, hall.trans ?_⟩
    funext k
    rw [hcontents, Function.update_apply, List.map_cons]
    by_cases hk : k ∈ es.map Prod.fst
    · rw [if_pos hk, if_pos (List.mem_cons_of_mem _ hk)]
    · by_cases he : k = e.1
      · rw [if_neg hk, if_pos he, if_pos (he ▸ List.mem_cons_self), he]
      · rw [if_neg hk, if_neg he, if_neg (fun hmem => (List.mem_cons.mp hmem).elim he hk)]

/-- A deep copy reads like its original, and shares no object with anything before it. -/
theorem Owned.deepcopy (h : Owned base s m) :
    Owned s (s.deepcopy m).1 (s.deepcopy m).2 ∧ (s.deepcopy m).1.contents (s.deepcopy m).2 = s.contents m := by
  have hrefs : ((s.dictAt m).entries.map Prod.snd).Nodup := by
    have hpairs : (s.dictAt m).entries.Nodup := List.Nodup.of_map _ (s.dictAt m).nodupKeys
    refine hpairs.map_on fun e he e' he' heq => ?_
    have hkey := h.unaliased e.1 e'.1 e.2 (Dict.get?_eq_some_iff.mpr he)
      (Dict.get?_eq_some_iff.mpr (heq ▸ he'))
    exact Prod.ext hkey heq
  have hstart : Owned s ((s.newDict Dict.empty).1, (Dict.empty : Dict ℕ ℕ)).1 (s.newDict Dict.empty).2 :=
    owned_newDict_empty s
  obtain ⟨howned, hcontents⟩ := h.copyItems (fun e he => Dict.get?_eq_some_iff.mpr he) hrefs hstart
    (fun e _ hmem => List.not_mem_nil hmem)
  refine ⟨howned, hcontents.trans ?_⟩
  funext k
  dsimp only
  rw [contents_newDict_empty]
  split_ifs with hk
  · rfl
  · exact (contents_eq_none_iff.mpr hk).symm

end Contents

end ObjectStore
