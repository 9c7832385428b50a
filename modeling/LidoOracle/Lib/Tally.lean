import LidoOracle.Lib.Dict

/-! Maps of running totals, as a `defaultdict` keeps them: an amount added at a
key, many of them, and the total that a key reads. -/

universe u v

namespace Dict

section Tally

variable {κ : Type u} {M : Type v} [DecidableEq κ] [AddCommMonoid M]

/-- What a key reads; a key that is not there reads zero. -/
def totalAt (d : Dict κ M) (k : κ) : M := (d.get? k).getD 0

/-- `d[k] += x` -/
def addTo (d : Dict κ M) (k : κ) (x : M) : Dict κ M := d.set k (d.totalAt k + x)

def addAll (d : Dict κ M) (amounts : List (κ × M)) : Dict κ M :=
  amounts.foldl (fun d a => d.addTo a.1 a.2) d

/-- The sum of the amounts under one key -/
def amountAt (amounts : List (κ × M)) (k : κ) : M :=
  (amounts.map fun a => if a.1 = k then a.2 else 0).sum

@[simp] theorem totalAt_empty (k : κ) : totalAt (empty : Dict κ M) k = 0 := rfl

theorem totalAt_addTo (d : Dict κ M) (k k' : κ) (x : M) :
    (d.addTo k x).totalAt k' = d.totalAt k' + if k = k' then x else 0 := by
  unfold addTo totalAt
  rw [get?_set]
  by_cases h : k' = k
  · rw [if_pos h, if_pos h.symm, h]
    rfl
  · rw [if_neg h, if_neg (Ne.symm h), add_zero]

@[simp] theorem amountAt_nil (k : κ) : amountAt ([] : List (κ × M)) k = 0 := rfl

theorem amountAt_cons (a : κ × M) (amounts : List (κ × M)) (k : κ) :
    amountAt (a :: amounts) k = (if a.1 = k then a.2 else 0) + amountAt amounts k := rfl

theorem amountAt_singleton (a : κ × M) (k : κ) : amountAt [a] k = if a.1 = k then a.2 else 0 :=
  add_zero _

theorem amountAt_append (amounts amounts' : List (κ × M)) (k : κ) :
    amountAt (amounts ++ amounts') k = amountAt amounts k + amountAt amounts' k := by
  unfold amountAt
  rw [List.map_append, List.sum_append]

theorem totalAt_addAll (d : Dict κ M) (amounts : List (κ × M)) (k : κ) :
    (d.addAll amounts).totalAt k = d.totalAt k + amountAt amounts k := by
  unfold addAll
  induction amounts generalizing d with
  | nil => exact (add_zero _).symm
  | cons a amounts ih => rw [List.foldl_cons, ih, totalAt_addTo, amountAt_cons, add_assoc]

theorem totalAt_set (d : Dict κ M) (k k' : κ) (x : M) :
    (d.set k x).totalAt k' = if k' = k then x else d.totalAt k' := by
  rw [totalAt, get?_set]
  split_ifs with h
  · rfl
  · rfl

theorem totalAt_erase (d : Dict κ M) (k k' : κ) : (d.erase k).totalAt k' = if k' = k then 0 else d.totalAt k' := by
  rw [totalAt, get?_erase]
  split_ifs with h
  · rfl
  · rfl

theorem mem_addTo {d : Dict κ M} {k k' : κ} {x : M} : k' ∈ d.addTo k x ↔ k' = k ∨ k' ∈ d := mem_set

theorem mem_addAll {d : Dict κ M} {amounts : List (κ × M)} {k : κ} :
    k ∈ d.addAll amounts ↔ k ∈ d ∨ k ∈ amounts.map Prod.fst := by
  unfold addAll
  induction amounts generalizing d with
  | nil => simp
  | cons a amounts ih =>
    rw [List.foldl_cons, ih, mem_addTo, List.map_cons, List.mem_cons]
    tauto

theorem mem_entries_totalAt {d : Dict κ M} {k : κ} (h : k ∈ d) : (k, d.totalAt k) ∈ d.entries := by
  obtain ⟨x, hx⟩ := mem_iff_exists_get?.mp h
  rw [totalAt, hx]
  exact get?_eq_some_iff.mp hx

theorem totalAt_of_not_mem {d : Dict κ M} {k : κ} (h : k ∉ d) : d.totalAt k = 0 := by
  rw [totalAt, get?_eq_none_iff.mpr h]
  rfl

theorem totalAt_of_mem_entries {d : Dict κ M} {k : κ} {x : M} (h : (k, x) ∈ d.entries) :
    d.totalAt k = x := by
  rw [totalAt, get?_eq_some_iff.mpr h]
  rfl

theorem entries_eq_map_keys (d : Dict κ M) : d.entries = d.keys.map fun k => (k, d.totalAt k) := by
  have hself : d.entries.map id = d.entries.map fun e => (e.1, d.totalAt e.1) :=
    List.map_congr_left fun e he => Prod.ext rfl (totalAt_of_mem_entries he).symm
  rw [keys, List.map_map]
  exact d.entries.map_id.symm.trans hself

theorem amountAt_of_not_mem {amounts : List (κ × M)} {k : κ} (h : k ∉ amounts.map Prod.fst) :
    amountAt amounts k = 0 := by
  refine List.sum_eq_zero fun x hx => ?_
  obtain ⟨a, ha, rfl⟩ := List.mem_map.mp hx
  refine if_neg fun hkey : a.1 = k => h ?_
  rw [← hkey]
  exact List.mem_map_of_mem ha

theorem amountAt_perm {amounts amounts' : List (κ × M)} (h : amounts.Perm amounts') (k : κ) :
    amountAt amounts k = amountAt amounts' k := (h.map _).sum_eq

/-- Where every key has at most one amount, the amount of a key is its own. -/
theorem amountAt_of_nodup {amounts : List (κ × M)} (h : (amounts.map Prod.fst).Nodup) {a : κ × M}
    (ha : a ∈ amounts) : amountAt amounts a.1 = a.2 := by
  have hsame : (amounts.map fun b => if b.1 = a.1 then b.2 else 0) =
      amounts.map fun b => if b.1 = a.1 then a.2 else 0 := by
    refine List.map_congr_left fun b hb => ?_
    split_ifs with hkey
    · exact congrArg Prod.snd (List.inj_on_of_nodup_map h hb ha hkey)
    · rfl
  rw [amountAt, hsame, sum_single_key h (List.mem_map_of_mem ha)]

/-- The amounts of a map under a key are what the key reads. -/
theorem amountAt_entries (d : Dict κ M) (k : κ) : amountAt d.entries k = d.totalAt k := by
  by_cases h : k ∈ d
  · exact amountAt_of_nodup d.nodupKeys (mem_entries_totalAt h)
  · rw [totalAt_of_not_mem h]
    exact amountAt_of_not_mem h

/-- An update in place of a key that is there -/
theorem totalAt_modify {d : Dict κ M} {k : κ} (h : k ∈ d) (x : M) (k' : κ) :
    (d.modify k (· + x)).totalAt k' = d.totalAt k' + if k' = k then x else 0 := by
  rw [totalAt, totalAt, get?_modify]
  split_ifs with hkey
  · obtain ⟨y, hy⟩ := mem_iff_exists_get?.mp h
    rw [hkey, hy]
    rfl
  · rw [add_zero]

theorem sum_values_eq {d : Dict κ M} {ks : List κ} (hks : ks.Nodup) (hsub : ∀ k ∈ d, k ∈ ks) :
    d.values.sum = (ks.map d.totalAt).sum := by
  have hsum := d.sum_values id hks hsub
  simp only [List.map_id, Option.map_id, id_eq] at hsum
  exact hsum

theorem sum_values_addTo (d : Dict κ M) (k : κ) (x : M) : (d.addTo k x).values.sum = d.values.sum + x := by
  have hks := (d.addTo k x).keys_nodup
  have hmem : k ∈ (d.addTo k x).keys := mem_keys.mpr (mem_addTo.mpr (Or.inl rfl))
  rw [sum_values_eq hks fun _ h => h, sum_values_eq hks fun _ h => mem_addTo.mpr (Or.inr h)]
  have hread : ∀ k', (d.addTo k x).totalAt k' = d.totalAt k' + if k' = k then x else 0 := fun k' => by
    rw [totalAt_addTo, if_congr eq_comm rfl rfl]
  rw [sum_keys_add_single hks hread, if_pos hmem]

/-- Adding amounts adds their sum to the sum of the values. -/
theorem sum_values_addAll (d : Dict κ M) (amounts : List (κ × M)) :
    (d.addAll amounts).values.sum = d.values.sum + (amounts.map Prod.snd).sum := by
  unfold addAll
  induction amounts generalizing d with
  | nil => exact (add_zero _).symm
  | cons a amounts ih => rw [List.foldl_cons, ih, sum_values_addTo, List.map_cons, List.sum_cons, add_assoc]

omit [DecidableEq κ] in
/-- Amounts of zero do not count. -/
theorem sum_filter_ne_zero [DecidableEq M] (amounts : List (κ × M)) :
    ((amounts.filter fun a => a.2 ≠ 0).map Prod.snd).sum = (amounts.map Prod.snd).sum := by
  induction amounts with
  | nil => rfl
  | cons a amounts ih =>
    rw [List.filter_cons, List.map_cons, List.sum_cons, ← ih]
    by_cases hzero : a.2 = 0
    · simp [hzero]
    · simp [hzero]

/-- Elements sorted into groups by a key: the groups' sums add up to the sum over all that have a group. -/
theorem sum_groups {α : Type*} {groups : List κ} (hgroups : groups.Nodup) (key : α → Option κ) (f : α → M) (l : List α) :
    (groups.map fun k => ((l.filter fun a => key a = some k).map f).sum).sum =
      ((l.filter fun a => ∃ k ∈ groups, key a = some k).map f).sum := by
  induction l with
  | nil => simp
  | cons a l ih =>
    have hcons : ∀ (p : α → Prop) [DecidablePred p], (((a :: l).filter p).map f).sum =
        ((l.filter p).map f).sum + if p a then f a else 0 := by
      intro p _
      rw [List.filter_cons]
      by_cases hp : p a
      · simp [hp, add_comm]
      · simp [hp]
    rw [List.map_congr_left fun k _ => hcons fun a => key a = some k, hcons, List.sum_map_add, ih]
    congr 1
    cases hkey : key a with
    | none => simp
    | some k =>
      have hsingle := List.sum_map_eq_nsmul_single (l := groups) (f := fun k' => if some k = some k' then f a else 0) k
        fun k' hne _ => if_neg fun h => hne (Option.some.inj h).symm
      rw [hsingle, if_pos rfl]
      by_cases hmem : k ∈ groups
      · rw [List.count_eq_one_of_mem hgroups hmem, one_smul, if_pos ⟨k, hmem, rfl⟩]
      · rw [List.count_eq_zero_of_not_mem hmem, zero_smul, if_neg]
        rintro ⟨k', hk', heq⟩
        exact hmem (Option.some.inj heq ▸ hk')

/-- A homomorphism maps the totals. -/
theorem mapKV_addTo {N : Type*} [AddCommMonoid N] (f : M →+ N) (d : Dict κ M) (k : κ) (x : M) :
    (d.addTo k x).mapKV (fun _ => f) = (d.mapKV fun _ => f).addTo k (f x) := by
  have htotal : (d.mapKV fun _ => f).totalAt k = f (d.totalAt k) := by
    rw [totalAt, totalAt, get?_mapKV]
    cases d.get? k with
    | none => exact (map_zero f).symm
    | some y => rfl
  have hkeys : ((d.addTo k x).mapKV fun _ => f).keys = ((d.mapKV fun _ => f).addTo k (f x)).keys := by
    rw [keys_mapKV, addTo, addTo]
    by_cases hmem : k ∈ d
    · rw [keys_set_of_mem hmem, keys_set_of_mem (mem_mapKV.mpr hmem), keys_mapKV]
    · rw [keys_set_of_not_mem hmem, keys_set_of_not_mem fun h => hmem (mem_mapKV.mp h), keys_mapKV]
  refine ext_get? hkeys fun k' _ => ?_
  rw [get?_mapKV, addTo, addTo, get?_set, get?_set, htotal]
  split_ifs
  · exact congrArg some (map_add f _ _)
  · rw [get?_mapKV]

theorem mapKV_addAll {N : Type*} [AddCommMonoid N] (f : M →+ N) (d : Dict κ M) (amounts : List (κ × M)) :
    (d.addAll amounts).mapKV (fun _ => f) = (d.mapKV fun _ => f).addAll (amounts.map fun a => (a.1, f a.2)) := by
  unfold addAll
  induction amounts generalizing d with
  | nil => rfl
  | cons a amounts ih => rw [List.foldl_cons, ih, mapKV_addTo, List.map_cons, List.foldl_cons]

/-- Without negative amounts, no amount is above the total of its key. -/
theorem le_amountAt [PartialOrder M] [IsOrderedAddMonoid M] {amounts : List (κ × M)} (h : ∀ a ∈ amounts, 0 ≤ a.2)
    {a : κ × M} (ha : a ∈ amounts) : a.2 ≤ amountAt amounts a.1 := by
  have hmem := List.mem_map_of_mem (f := fun b : κ × M => if b.1 = a.1 then b.2 else 0) ha
  rw [if_pos rfl] at hmem
  refine List.single_le_sum (fun x hx => ?_) _ hmem
  obtain ⟨b, hb, rfl⟩ := List.mem_map.mp hx
  split_ifs
  · exact h b hb
  · exact le_rfl

end Tally

section Ordered

variable {κ : Type u} {M : Type v} [DecidableEq κ] [AddCommMonoid M] [PartialOrder M]
  [IsOrderedAddMonoid M] [CanonicallyOrderedAdd M]

/-- Without negative amounts, the total of the values is zero exactly when every key reads zero. -/
theorem sum_values_eq_zero_iff {d : Dict κ M} : d.values.sum = 0 ↔ ∀ k, d.totalAt k = 0 := by
  rw [List.sum_eq_zero_iff]
  constructor
  · intro hvalues k
    by_cases h : k ∈ d
    · exact hvalues _ (List.mem_map_of_mem (mem_entries_totalAt h))
    · exact totalAt_of_not_mem h
  · intro htotals x hx
    obtain ⟨e, he, rfl⟩ := List.mem_map.mp hx
    rw [← totalAt_of_mem_entries he]
    exact htotals e.1

end Ordered

end Dict
