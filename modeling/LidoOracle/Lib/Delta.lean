import LidoOracle.Lib.Dict

/-! Deltas of a map of current values against recorded ones: a delta lists what
changed, and writing it over the record gives the current values. -/

universe u v w

namespace Dict

variable {κ : Type u} {ν : Type v} [DecidableEq κ]

/-- `d[k] = v` for every entry, in order -/
def overwrite (d : Dict κ ν) (es : List (κ × ν)) : Dict κ ν := es.foldl (fun d e => d.set e.1 e.2) d

theorem get?_overwrite_of_not_mem {es : List (κ × ν)} {k : κ} (h : k ∉ es.map Prod.fst) (d : Dict κ ν) :
    (d.overwrite es).get? k = d.get? k := by
  unfold overwrite
  induction es generalizing d with
  | nil => rfl
  | cons e es ih =>
    rw [List.map_cons, List.mem_cons, not_or] at h
    rw [List.foldl_cons, ih h.2, get?_set, if_neg h.1]

theorem get?_overwrite_of_mem {es : List (κ × ν)} (hes : (es.map Prod.fst).Nodup) {k : κ} {x : ν} (h : (k, x) ∈ es)
    (d : Dict κ ν) : (d.overwrite es).get? k = some x := by
  induction es generalizing d with
  | nil => cases h
  | cons e es ih =>
    rw [List.map_cons, List.nodup_cons] at hes
    have hcons : d.overwrite (e :: es) = (d.set e.1 e.2).overwrite es := rfl
    rcases List.mem_cons.mp h with rfl | h
    · rw [hcons, get?_overwrite_of_not_mem hes.1, get?_set, if_pos rfl]
    · rw [hcons, ih hes.2 h]

/-- A delta holds the current value of every recorded key whose value changed, and nothing else. -/
def IsDelta (recorded : Dict κ ν) (current : κ → ν) (delta : Dict κ ν) : Prop :=
  ∀ k x, delta.get? k = some x ↔ x = current k ∧ ∃ r, recorded.get? k = some r ∧ r ≠ current k

/-- What is kept of a current value next to the recorded one -/
theorem isDelta_of_changed [DecidableEq ν] {α : Type w} {key : α → κ} {recorded : α → ν} {l : List α}
    (hnodup : (l.map key).Nodup) {current : κ → ν} {delta : Dict κ ν}
    (hmem : ∀ a ∈ l, delta.get? (key a) = if current (key a) = recorded a then none else some (current (key a)))
    (hnot : ∀ k ∉ l.map key, delta.get? k = none) :
    IsDelta (ofList (l.map fun a => (key a, recorded a))) current delta := by
  have hentries : (ofList (l.map fun a => (key a, recorded a))).entries = l.map fun a => (key a, recorded a) := by
    refine entries_ofList ?_
    rw [List.map_map]
    exact hnodup
  intro k x
  simp only [get?_eq_some_iff, hentries, List.mem_map, Prod.mk.injEq]
  by_cases hk : k ∈ l.map key
  · obtain ⟨a, ha, rfl⟩ := List.mem_map.mp hk
    have hown : ∀ b ∈ l, key b = key a → b = a := fun b hb heq => List.inj_on_of_nodup_map hnodup hb ha heq
    rw [← get?_eq_some_iff, hmem a ha]
    constructor
    · intro h
      split_ifs at h with heq
      exact ⟨(Option.some.inj h).symm, recorded a, ⟨a, ha, rfl, rfl⟩, Ne.symm heq⟩
    · rintro ⟨rfl, r, ⟨b, hb, hkey, rfl⟩, hne⟩
      rw [hown b hb hkey] at hne
      rw [if_neg hne.symm]
  · rw [← get?_eq_some_iff, hnot k hk]
    constructor
    · intro h
      cases h
    · rintro ⟨-, r, ⟨b, hb, hkey, -⟩, -⟩
      exact absurd (List.mem_map.mpr ⟨b, hb, hkey⟩) hk

theorem IsDelta.overwrite {recorded delta : Dict κ ν} {current : κ → ν} (h : IsDelta recorded current delta) {k : κ}
    (hk : k ∈ recorded) {es : List (κ × ν)} (hes : es.Perm delta.entries) :
    (recorded.overwrite es).get? k = some (current k) := by
  have hnodup : (es.map Prod.fst).Nodup := (hes.map Prod.fst).nodup_iff.mpr delta.nodupKeys
  obtain ⟨r, hr⟩ := mem_iff_exists_get?.mp hk
  by_cases hchanged : r = current k
  · have hnot : k ∉ es.map Prod.fst := by
      intro hmem
      have hdelta : k ∈ delta := (hes.map Prod.fst).mem_iff.mp hmem
      obtain ⟨x, hx⟩ := mem_iff_exists_get?.mp hdelta
      obtain ⟨-, r', hr', hne⟩ := (h k x).mp hx
      rw [hr, Option.some.injEq] at hr'
      exact hne (hr' ▸ hchanged)
    rw [get?_overwrite_of_not_mem hnot, hr, hchanged]
  · have hentry : delta.get? k = some (current k) := (h k _).mpr ⟨rfl, r, hr, hchanged⟩
    exact get?_overwrite_of_mem hnodup (hes.mem_iff.mpr (get?_eq_some_iff.mp hentry)) recorded

theorem IsDelta.changed {recorded delta : Dict κ ν} {current : κ → ν} (h : IsDelta recorded current delta) {e : κ × ν}
    (he : e ∈ delta.entries) : e.2 = current e.1 ∧ ∃ r, recorded.get? e.1 = some r ∧ e.2 ≠ r := by
  obtain ⟨hvalue, r, hr, hne⟩ := (h e.1 e.2).mp (get?_eq_some_iff.mpr he)
  exact ⟨hvalue, r, hr, hvalue ▸ hne.symm⟩

end Dict
