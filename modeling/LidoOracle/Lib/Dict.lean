import Mathlib

/-! Insertion-ordered dictionaries: finite maps that remember the order in
which their keys were first inserted. The key list has no duplicates by
construction, so a lookup and a membership in the entry list are one fact. -/

universe u v w

structure Dict (κ : Type u) (ν : Type v) where
  entries : List (κ × ν)
  nodupKeys : (entries.map Prod.fst).Nodup

namespace Dict

variable {κ : Type u} {ν : Type v} {ν' : Type w}

@[ext] theorem ext {d d' : Dict κ ν} (h : d.entries = d'.entries) : d = d' := by
  cases d; cases d'; cases h; rfl

def empty : Dict κ ν := ⟨[], List.nodup_nil⟩

def keys (d : Dict κ ν) : List κ := d.entries.map Prod.fst

def values (d : Dict κ ν) : List ν := d.entries.map Prod.snd

instance : Membership κ (Dict κ ν) := ⟨fun d k => k ∈ d.keys⟩

theorem mem_keys {d : Dict κ ν} {k : κ} : k ∈ d.keys ↔ k ∈ d := Iff.rfl

theorem keys_nodup (d : Dict κ ν) : d.keys.Nodup := d.nodupKeys

/-- Rewrite every value, keeping the keys and their order. -/
def mapKV (f : κ → ν → ν') (d : Dict κ ν) : Dict κ ν' :=
  ⟨d.entries.map fun e => (e.1, f e.1 e.2), by
    simpa [List.map_map, Function.comp_def] using d.nodupKeys⟩

@[simp] theorem entries_mapKV (f : κ → ν → ν') (d : Dict κ ν) :
    (d.mapKV f).entries = d.entries.map fun e => (e.1, f e.1 e.2) := rfl

@[simp] theorem keys_mapKV (f : κ → ν → ν') (d : Dict κ ν) : (d.mapKV f).keys = d.keys := by
  simp [keys, List.map_map, Function.comp_def]

@[simp] theorem mem_mapKV {f : κ → ν → ν'} {d : Dict κ ν} {k : κ} : k ∈ d.mapKV f ↔ k ∈ d := by
  rw [← mem_keys, keys_mapKV, mem_keys]

@[simp] theorem mapKV_mapKV {ν'' : Type*} (g : κ → ν' → ν'') (f : κ → ν → ν') (d : Dict κ ν) :
    (d.mapKV f).mapKV g = d.mapKV fun k v => g k (f k v) := by
  ext1
  simp [List.map_map, Function.comp_def]

theorem mapKV_congr {f g : κ → ν → ν'} {d : Dict κ ν}
    (h : ∀ k v, (k, v) ∈ d.entries → f k v = g k v) : d.mapKV f = d.mapKV g := by
  ext1
  exact List.map_congr_left fun e he => by rw [h e.1 e.2 he]

theorem mapKV_id {f : κ → ν → ν} {d : Dict κ ν}
    (h : ∀ k v, (k, v) ∈ d.entries → f k v = v) : d.mapKV f = d := by
  ext1
  rw [entries_mapKV]
  exact (List.map_congr_left (g := id) fun e he => by rw [h e.1 e.2 he]; rfl).trans (List.map_id _)

theorem values_mapKV (f : κ → ν → ν') (d : Dict κ ν) :
    (d.mapKV f).values = d.entries.map fun e => f e.1 e.2 := by
  simp [values, List.map_map, Function.comp_def]

theorem map_values_eq_map_keys {α : Type*} {d : Dict κ ν} {f : ν → α} {g : κ → α}
    (h : ∀ k v, (k, v) ∈ d.entries → f v = g k) : d.values.map f = d.keys.map g := by
  rw [values, keys, List.map_map, List.map_map]
  exact List.map_congr_left fun e he => h e.1 e.2 he

section Lookup

variable [DecidableEq κ]

instance (d : Dict κ ν) (k : κ) : Decidable (k ∈ d) :=
  inferInstanceAs (Decidable (k ∈ d.keys))

def get? (d : Dict κ ν) (k : κ) : Option ν :=
  (d.entries.find? fun e => e.1 = k).map Prod.snd

theorem find?_key_eq_some_iff {es : List (κ × ν)} (hes : (es.map Prod.fst).Nodup) {k : κ} {v : ν} :
    (es.find? fun e => e.1 = k).map Prod.snd = some v ↔ (k, v) ∈ es := by
  induction es with
  | nil => simp
  | cons e es ih =>
    rw [List.map_cons, List.nodup_cons] at hes
    by_cases hk : e.1 = k
    · have hne : (k, v) ∉ es := fun hm => hes.1 (hk ▸ List.mem_map_of_mem (f := Prod.fst) hm)
      have he : e = (k, e.2) := by rw [← hk]
      rw [List.find?_cons_of_pos (by simpa using hk)]
      simp only [Option.map_some, Option.some.injEq, List.mem_cons, hne, or_false]
      rw [he, Prod.mk.injEq]
      simp [eq_comm]
    · have hne : (k, v) ≠ e := fun h => hk (by rw [← h])
      rw [List.find?_cons_of_neg (by simpa using hk), ih hes.2, List.mem_cons]
      simp [hne]

theorem get?_eq_some_iff {d : Dict κ ν} {k : κ} {v : ν} :
    d.get? k = some v ↔ (k, v) ∈ d.entries := find?_key_eq_some_iff d.nodupKeys

theorem mem_iff_exists_get? {d : Dict κ ν} {k : κ} : k ∈ d ↔ ∃ v, d.get? k = some v := by
  simp only [get?_eq_some_iff, ← mem_keys, keys, List.mem_map]
  constructor
  · rintro ⟨e, he, rfl⟩
    exact ⟨e.2, he⟩
  · rintro ⟨v, hv⟩
    exact ⟨(k, v), hv, rfl⟩

theorem get?_eq_none_iff {d : Dict κ ν} {k : κ} : d.get? k = none ↔ k ∉ d := by
  rw [mem_iff_exists_get?, Option.eq_none_iff_forall_ne_some]
  simp

theorem get?_eq_of_perm {d d' : Dict κ ν} (h : d.entries.Perm d'.entries) (k : κ) : d.get? k = d'.get? k := by
  refine Option.ext fun v => ?_
  rw [get?_eq_some_iff, get?_eq_some_iff, h.mem_iff]

theorem mem_of_get? {d : Dict κ ν} {k : κ} {v : ν} (h : d.get? k = some v) : k ∈ d :=
  mem_iff_exists_get?.mpr ⟨v, h⟩

theorem mem_of_mem_entries {d : Dict κ ν} {k : κ} {v : ν} (h : (k, v) ∈ d.entries) : k ∈ d :=
  mem_of_get? (get?_eq_some_iff.mpr h)

@[simp] theorem get?_mapKV (f : κ → ν → ν') (d : Dict κ ν) (k : κ) :
    (d.mapKV f).get? k = (d.get? k).map (f k) := by
  unfold get?
  rw [entries_mapKV, List.find?_map]
  have hcomp : ((fun e : κ × ν' => decide (e.1 = k)) ∘ fun e : κ × ν => (e.1, f e.1 e.2)) =
      fun e => decide (e.1 = k) := rfl
  rw [hcomp]
  cases h : d.entries.find? fun e => decide (e.1 = k) with
  | none => rfl
  | some e =>
    have he : e.1 = k := by simpa using List.find?_some h
    simp [he]

@[simp] theorem get?_empty (k : κ) : (empty : Dict κ ν).get? k = none := rfl

/-- A dictionary is determined by its key order and its lookups. -/
theorem ext_get? {d d' : Dict κ ν} (hk : d.keys = d'.keys) (hg : ∀ k ∈ d, d.get? k = d'.get? k) :
    d = d' := by
  ext1
  have hlen : d.entries.length = d'.entries.length := by
    simpa [keys] using congrArg List.length hk
  apply List.ext_getElem hlen
  intro i hi hi'
  have hfst : d.entries[i].1 = d'.entries[i].1 := by
    have h := congrArg (fun l => l[i]?) hk
    simpa [keys, hi, hi'] using h
  have hmem : (d.entries[i].1, d.entries[i].2) ∈ d.entries := List.getElem_mem hi
  have hmem' : (d.entries[i].1, d'.entries[i].2) ∈ d'.entries := by
    rw [hfst]; exact List.getElem_mem hi'
  have h := hg _ (mem_of_mem_entries hmem)
  rw [get?_eq_some_iff.mpr hmem, get?_eq_some_iff.mpr hmem'] at h
  exact Prod.ext hfst (Option.some.inj h)

/-- Apply `f` at `k`; a dictionary without `k` is unchanged. -/
def modify (d : Dict κ ν) (k : κ) (f : ν → ν) : Dict κ ν :=
  d.mapKV fun k' v => if k' = k then f v else v

@[simp] theorem keys_modify (d : Dict κ ν) (k : κ) (f : ν → ν) : (d.modify k f).keys = d.keys :=
  keys_mapKV _ _

@[simp] theorem mem_modify {d : Dict κ ν} {k k' : κ} {f : ν → ν} : k' ∈ d.modify k f ↔ k' ∈ d :=
  mem_mapKV

theorem get?_modify (d : Dict κ ν) (k k' : κ) (f : ν → ν) :
    (d.modify k f).get? k' = if k' = k then (d.get? k').map f else d.get? k' := by
  rw [modify, get?_mapKV]
  split_ifs <;> simp

/-- The entries after an update: the old ones, the one at `k` rewritten -/
theorem mem_entries_modify {d : Dict κ ν} {k : κ} {f : ν → ν} {e : κ × ν}
    (h : e ∈ (d.modify k f).entries) :
    ∃ v, (e.1, v) ∈ d.entries ∧ e.2 = if e.1 = k then f v else v := by
  obtain ⟨e', he', rfl⟩ := List.mem_map.mp h
  exact ⟨e'.2, he', rfl⟩

/-- An update rewrites one entry where it stands. -/
theorem entries_modify_of_get? {d : Dict κ ν} {k : κ} {v : ν} (h : d.get? k = some v) (f : ν → ν) :
    ∃ pre post, d.entries = pre ++ (k, v) :: post ∧ (d.modify k f).entries = pre ++ (k, f v) :: post := by
  obtain ⟨pre, post, hsplit⟩ := List.append_of_mem (get?_eq_some_iff.mp h)
  refine ⟨pre, post, hsplit, ?_⟩
  have hnd := d.nodupKeys
  rw [hsplit, List.map_append, List.map_cons] at hnd
  have hnd' := List.nodup_middle.mp hnd
  rw [List.nodup_cons, List.mem_append, not_or] at hnd'
  have hsame : ∀ l : List (κ × ν), k ∉ l.map Prod.fst →
      l.map (fun e => (e.1, if e.1 = k then f e.2 else e.2)) = l := by
    intro l hl
    refine (List.map_congr_left fun e he => ?_).trans (List.map_id l)
    have hne : e.1 ≠ k := fun h => hl (h ▸ List.mem_map_of_mem he)
    simp [hne]
  rw [modify, entries_mapKV, hsplit, List.map_append, List.map_cons, hsame pre hnd'.1.1,
    hsame post hnd'.1.2]
  simp

/-- Assignment `d[k] = v`: an existing key keeps its place, a new one goes last. -/
def set (d : Dict κ ν) (k : κ) (v : ν) : Dict κ ν :=
  if h : k ∈ d then d.modify k fun _ => v
  else ⟨d.entries ++ [(k, v)], by
    simpa [List.nodup_append, d.nodupKeys] using fun a b hab hk =>
      h (mem_of_mem_entries (hk ▸ hab))⟩

theorem set_of_mem {d : Dict κ ν} {k : κ} (h : k ∈ d) (v : ν) : d.set k v = d.modify k fun _ => v :=
  dif_pos h

theorem entries_set_of_not_mem {d : Dict κ ν} {k : κ} (h : k ∉ d) (v : ν) :
    (d.set k v).entries = d.entries ++ [(k, v)] := by
  rw [set, dif_neg h]

theorem keys_set_of_mem {d : Dict κ ν} {k : κ} (h : k ∈ d) (v : ν) : (d.set k v).keys = d.keys := by
  rw [set_of_mem h, keys_modify]

theorem keys_set_of_not_mem {d : Dict κ ν} {k : κ} (h : k ∉ d) (v : ν) :
    (d.set k v).keys = d.keys ++ [k] := by
  rw [keys, entries_set_of_not_mem h]
  simp [keys]

@[simp] theorem mem_set {d : Dict κ ν} {k k' : κ} {v : ν} : k' ∈ d.set k v ↔ k' = k ∨ k' ∈ d := by
  by_cases h : k ∈ d
  · rw [← mem_keys, keys_set_of_mem h, mem_keys]
    exact ⟨Or.inr, fun h' => h'.elim (fun e => e ▸ h) id⟩
  · rw [← mem_keys, keys_set_of_not_mem h, List.mem_append, List.mem_singleton, mem_keys, or_comm]

theorem get?_set (d : Dict κ ν) (k k' : κ) (v : ν) :
    (d.set k v).get? k' = if k' = k then some v else d.get? k' := by
  by_cases h : k ∈ d
  · rw [set_of_mem h, get?_modify]
    split_ifs with hk
    · obtain ⟨w, hw⟩ := mem_iff_exists_get?.mp h
      rw [hk, hw]
      rfl
    · rfl
  · have hnone := get?_eq_none_iff.mpr h
    unfold get? at hnone ⊢
    rw [entries_set_of_not_mem h, List.find?_append]
    split_ifs with hk
    · subst hk
      rw [Option.map_eq_none_iff] at hnone
      simp [hnone]
    · have hk' : ¬ k = k' := fun e => hk e.symm
      simp [hk']

/-- The dictionary a comprehension builds: later entries overwrite earlier ones. -/
def ofList (es : List (κ × ν)) : Dict κ ν := es.foldl (fun d e => d.set e.1 e.2) empty

theorem mem_foldl_set (es : List (κ × ν)) (d : Dict κ ν) (k : κ) :
    k ∈ es.foldl (fun d e => d.set e.1 e.2) d ↔ k ∈ es.map Prod.fst ∨ k ∈ d := by
  induction es generalizing d with
  | nil => simp
  | cons e es ih =>
    rw [List.foldl_cons, ih, mem_set, List.map_cons, List.mem_cons]
    tauto

theorem mem_ofList {es : List (κ × ν)} {k : κ} : k ∈ ofList es ↔ k ∈ es.map Prod.fst := by
  rw [ofList, mem_foldl_set]
  simp [← mem_keys, keys, empty]

theorem mem_entries_foldl_set (es : List (κ × ν)) (d : Dict κ ν) {k : κ} {v : ν}
    (h : (k, v) ∈ (es.foldl (fun d e => d.set e.1 e.2) d).entries) :
    (k, v) ∈ es ∨ (k, v) ∈ d.entries := by
  induction es generalizing d with
  | nil => exact .inr h
  | cons e es ih =>
    rcases ih _ h with h | h
    · exact .inl (List.mem_cons_of_mem e h)
    · rw [← get?_eq_some_iff, get?_set] at h
      split_ifs at h with hk
      · cases h
        exact .inl (hk ▸ List.mem_cons_self)
      · exact .inr (get?_eq_some_iff.mp h)

/-- Every entry of a comprehension is one of those listed. -/
theorem mem_of_mem_entries_ofList {es : List (κ × ν)} {k : κ} {v : ν}
    (h : (k, v) ∈ (ofList es).entries) : (k, v) ∈ es :=
  (mem_entries_foldl_set es empty h).resolve_right fun h => by cases h

theorem entries_foldl_set (es : List (κ × ν)) (d : Dict κ ν)
    (h : ((d.entries ++ es).map Prod.fst).Nodup) :
    (es.foldl (fun d e => d.set e.1 e.2) d).entries = d.entries ++ es := by
  induction es generalizing d with
  | nil => simp
  | cons e es ih =>
    have hnot : e.1 ∉ d := by
      rw [List.map_append, List.nodup_append'] at h
      exact fun hd => h.2.2 (mem_keys.mpr hd) (List.mem_map_of_mem List.mem_cons_self)
    rw [List.foldl_cons, ih, entries_set_of_not_mem hnot, List.append_assoc]
    · rfl
    · rw [entries_set_of_not_mem hnot]
      simpa using h

/-- A comprehension over distinct keys keeps its entries as listed. -/
theorem ofList_mapKV (d : Dict κ ν) (f : κ → ν → ν') :
    ofList (d.entries.map fun e => (e.1, f e.1 e.2)) = d.mapKV f := by
  ext1
  refine (entries_foldl_set _ _ ?_).trans (List.nil_append _)
  simpa [empty] using (d.mapKV f).nodupKeys

/-- A comprehension over distinct keys holds what it lists. -/
theorem entries_ofList {es : List (κ × ν)} (h : (es.map Prod.fst).Nodup) : (ofList es).entries = es :=
  (entries_foldl_set es empty (by simpa [empty] using h)).trans (List.nil_append es)

theorem entries_ofList_perm {es : List (κ × ν)} {d : Dict κ ν} (h : es.Perm d.entries) :
    (ofList es).entries.Perm d.entries := by
  rw [entries_ofList ((h.map Prod.fst).nodup_iff.mpr d.nodupKeys)]
  exact h

theorem get?_ofList {es : List (κ × ν)} (h : (es.map Prod.fst).Nodup) (k : κ) :
    (ofList es).get? k = (es.find? fun e => e.1 = k).map Prod.snd := by
  rw [get?, entries_ofList h]

/-- `d.setdefault(k, []).append(a)` -/
def push {α : Type*} (d : Dict κ (List α)) (k : κ) (a : α) : Dict κ (List α) :=
  if k ∈ d then d.modify k (· ++ [a]) else d.set k [a]

theorem get?_push {α : Type*} (d : Dict κ (List α)) (k k' : κ) (a : α) :
    (d.push k a).get? k' = if k' = k then some ((d.get? k).getD [] ++ [a]) else d.get? k' := by
  unfold push
  by_cases h : k ∈ d
  · obtain ⟨l, hl⟩ := mem_iff_exists_get?.mp h
    rw [if_pos h, get?_modify]
    split_ifs with hk
    · rw [hk, hl]
      rfl
    · rfl
  · rw [if_neg h, get?_set, get?_eq_none_iff.mpr h]
    rfl

/-- `d[k][k'] = v` where a missing `d[k]` is created -/
def setIn {κ' : Type*} [DecidableEq κ'] (d : Dict κ (Dict κ' ν)) (k : κ) (k' : κ') (v : ν) : Dict κ (Dict κ' ν) :=
  d.set k (((d.get? k).getD empty).set k' v)

theorem getD_setIn {κ' : Type*} [DecidableEq κ'] (d : Dict κ (Dict κ' ν)) (k j : κ) (k' : κ') (v : ν) :
    ((d.setIn k k' v).get? j).getD empty =
      if j = k then ((d.get? j).getD empty).set k' v else (d.get? j).getD empty := by
  rw [setIn, get?_set]
  split_ifs with h
  · rw [h]
    rfl
  · rfl

/-- One list per key, in the order of the original list -/
def groupBy {α : Type*} (key : α → κ) (l : List α) : Dict κ (List α) :=
  l.foldl (fun d a => d.push (key a) a) empty

theorem getD_foldl_push {α : Type*} (key : α → κ) (l : List α) (d : Dict κ (List α)) (k : κ) :
    ((l.foldl (fun d a => d.push (key a) a) d).get? k).getD [] =
      (d.get? k).getD [] ++ l.filter fun a => key a = k := by
  induction l generalizing d with
  | nil => simp
  | cons a l ih =>
    rw [List.foldl_cons, ih, get?_push]
    by_cases hk : key a = k
    · subst hk
      simp
    · rw [if_neg (Ne.symm hk), List.filter_cons_of_neg (by simpa using hk)]

theorem getD_groupBy {α : Type*} (key : α → κ) (l : List α) (k : κ) :
    ((groupBy key l).get? k).getD [] = l.filter fun a => key a = k :=
  getD_foldl_push key l empty k

/-- Deletion `del d[k]`. -/
def erase (d : Dict κ ν) (k : κ) : Dict κ ν :=
  ⟨d.entries.filter fun e => e.1 ≠ k, d.nodupKeys.sublist ((List.filter_sublist).map _)⟩

theorem get?_erase (d : Dict κ ν) (k k' : κ) :
    (d.erase k).get? k' = if k' = k then none else d.get? k' := by
  split_ifs with hk
  · rw [get?_eq_none_iff, mem_iff_exists_get?]
    rintro ⟨v, hv⟩
    rw [get?_eq_some_iff] at hv
    simpa [hk] using (List.mem_filter.mp hv).2
  · refine Option.ext fun v => ?_
    rw [get?_eq_some_iff, get?_eq_some_iff, erase, List.mem_filter]
    simp [hk]

theorem keys_erase (d : Dict κ ν) (k : κ) : (d.erase k).keys = d.keys.erase k := by
  rw [d.keys_nodup.erase_eq_filter, keys, keys, List.filter_map]
  refine congrArg (List.map Prod.fst) (List.filter_congr fun e _ => ?_)
  simp [bne, BEq.beq]

theorem erase_of_not_mem {d : Dict κ ν} {k : κ} (h : k ∉ d) : d.erase k = d := by
  refine ext_get? ?_ fun k' hk' => ?_
  · rw [keys_erase, List.erase_of_not_mem h]
  · rw [get?_erase, if_neg]
    rintro rfl
    rw [← mem_keys, keys_erase, List.erase_of_not_mem h] at hk'
    exact h hk'

/-- Keep the entries whose key passes a test. -/
def filterKeys (d : Dict κ ν) (p : κ → Bool) : Dict κ ν :=
  ⟨d.entries.filter fun e => p e.1, d.nodupKeys.sublist ((List.filter_sublist).map _)⟩

theorem get?_filterKeys (d : Dict κ ν) (p : κ → Bool) (k : κ) :
    (d.filterKeys p).get? k = if p k then d.get? k else none := by
  refine Option.ext fun v => ?_
  rw [get?_eq_some_iff, filterKeys, List.mem_filter]
  split_ifs with hp
  · rw [get?_eq_some_iff]
    exact and_iff_left hp
  · exact iff_of_false (fun h => hp h.2) (fun h => by cases h)

theorem mem_filterKeys {d : Dict κ ν} {p : κ → Bool} {k : κ} :
    k ∈ d.filterKeys p ↔ k ∈ d ∧ p k = true := by
  rw [mem_iff_exists_get?, mem_iff_exists_get?, get?_filterKeys]
  by_cases hp : p k = true
  · simp [hp]
  · simp [hp]

end Lookup

section Sums

variable [DecidableEq κ] {M : Type*} [AddCommMonoid M]

theorem sum_single_key {es : List (κ × ν)} (hes : (es.map Prod.fst).Nodup) {k : κ}
    (hk : k ∈ es.map Prod.fst) (x : M) : (es.map fun e => if e.1 = k then x else 0).sum = x := by
  induction es with
  | nil => simp at hk
  | cons e es ih =>
    rw [List.map_cons, List.nodup_cons] at hes
    rw [List.map_cons, List.mem_cons] at hk
    rw [List.map_cons, List.sum_cons]
    by_cases he : e.1 = k
    · have hne : ∀ e' ∈ es, ¬ e'.1 = k := fun e' h' h =>
        hes.1 (he ▸ h ▸ List.mem_map_of_mem (f := Prod.fst) h')
      rw [if_pos he, List.sum_eq_zero, add_zero]
      intro y hy
      obtain ⟨e', h', rfl⟩ := List.mem_map.mp hy
      exact if_neg (hne e' h')
    · rw [if_neg he, zero_add]
      exact ih hes.2 (hk.resolve_left fun h => he h.symm)

/-- A sum that looks at one key only -/
theorem sum_at_key (d : Dict κ ν) (f : ν → M) (k : κ) :
    (d.entries.map fun e => if e.1 = k then f e.2 else 0).sum = ((d.get? k).map f).getD 0 := by
  cases hk : d.get? k with
  | none =>
    rw [get?_eq_none_iff] at hk
    refine List.sum_eq_zero fun x hx => ?_
    obtain ⟨e, he, rfl⟩ := List.mem_map.mp hx
    have hne : e.1 ≠ k := fun h => hk (h ▸ mem_of_mem_entries he)
    simp [hne]
  | some v =>
    have hsame : (d.entries.map fun e => if e.1 = k then f e.2 else 0) =
        d.entries.map fun e => if e.1 = k then f v else 0 := by
      refine List.map_congr_left fun e he => ?_
      split_ifs with h
      · have hv := get?_eq_some_iff.mpr (show (k, e.2) ∈ d.entries from h ▸ he)
        rw [hk, Option.some.injEq] at hv
        rw [hv]
      · rfl
    rw [hsame, sum_single_key d.nodupKeys (mem_of_get? hk)]
    rfl

/-- Adding `x` at one present key raises a sum over the entries by `x`. -/
theorem sum_add_single (d : Dict κ ν) (f : κ → ν → M) {k : κ} (hk : k ∈ d) (x : M) :
    (d.entries.map fun e => f e.1 e.2 + if e.1 = k then x else 0).sum =
      (d.entries.map fun e => f e.1 e.2).sum + x := by
  rw [List.sum_map_add, sum_single_key d.nodupKeys hk]

/-- A change at one key of a duplicate-free list -/
theorem sum_keys_add_single {ks : List κ} (hks : ks.Nodup) {f g : κ → M} {k : κ} {x : M}
    (h : ∀ k', g k' = f k' + if k' = k then x else 0) :
    (ks.map g).sum = (ks.map f).sum + if k ∈ ks then x else 0 := by
  have hsingle : (ks.map fun k' => if k' = k then x else 0).sum = if k ∈ ks then x else 0 := by
    rw [List.sum_map_eq_nsmul_single k _ fun k' hne _ => if_neg hne, if_pos rfl]
    split_ifs with hmem
    · rw [List.count_eq_one_of_mem hks hmem, one_smul]
    · rw [List.count_eq_zero_of_not_mem hmem, zero_smul]
  rw [List.map_congr_left fun k' _ => h k', List.sum_map_add, hsingle]

/-- A sum over the values, taken key by key over any list that holds all the keys -/
theorem sum_values (d : Dict κ ν) (f : ν → M) {ks : List κ} (hks : ks.Nodup) (hsub : ∀ k ∈ d, k ∈ ks) :
    (d.values.map f).sum = (ks.map fun k => ((d.get? k).map f).getD 0).sum := by
  have hvalues : d.values.map f = d.keys.map fun k => ((d.get? k).map f).getD 0 :=
    map_values_eq_map_keys fun k v hkv => by
      rw [get?_eq_some_iff.mpr hkv]
      rfl
  rw [hvalues, ← List.sum_toFinset _ d.keys_nodup, ← List.sum_toFinset _ hks]
  refine Finset.sum_subset (fun k hk => ?_) fun k _ hk => ?_
  · exact List.mem_toFinset.mpr (hsub k (List.mem_toFinset.mp hk))
  · rw [List.mem_toFinset] at hk
    rw [get?_eq_none_iff.mpr hk]
    rfl

end Sums

end Dict
