import Mathlib

/-! Stable sorting of a list by a key, with the facts that make the result
canonical: it is a permutation in key order, and distinct keys leave exactly
one such permutation. -/

universe u v

namespace Sorted

variable {α : Type u} {κ : Type v} [LinearOrder κ]

/-- Equal keys keep their input order. -/
def sortedBy (key : α → κ) (l : List α) : List α :=
  l.insertionSort fun a b => key a ≤ key b

section

variable (key : α → κ)

instance total_key_le : Std.Total fun a b : α => key a ≤ key b := ⟨fun a b => le_total (key a) (key b)⟩

instance isTrans_key_le : IsTrans α fun a b => key a ≤ key b := ⟨fun _ _ _ => le_trans⟩

end

variable {key : α → κ} {l l' : List α}

theorem perm_sortedBy : (sortedBy key l).Perm l := List.perm_insertionSort _ l

theorem mem_sortedBy {a : α} : a ∈ sortedBy key l ↔ a ∈ l := perm_sortedBy.mem_iff

theorem length_sortedBy : (sortedBy key l).length = l.length := perm_sortedBy.length_eq

theorem pairwise_sortedBy : (sortedBy key l).Pairwise fun a b => key a ≤ key b :=
  List.pairwise_insertionSort _ l

theorem sortedBy_eq_self (h : l.Pairwise fun a b => key a ≤ key b) : sortedBy key l = l :=
  List.Pairwise.insertionSort_eq h

/-- Distinct keys come out strictly ascending. -/
theorem pairwise_lt_sortedBy (hkey : (l.map key).Nodup) :
    (sortedBy key l).Pairwise fun a b => key a < key b := by
  have hne : ((sortedBy key l).map key).Nodup := (perm_sortedBy.map key).nodup_iff.mpr hkey
  have hne' : (sortedBy key l).Pairwise fun a b => key a ≠ key b := List.pairwise_map.mp hne
  exact (pairwise_sortedBy.and hne').imp fun h => lt_of_le_of_ne h.1 h.2

/-- The order of the input is immaterial when its keys are distinct. -/
theorem sortedBy_eq_of_perm (hkey : (l.map key).Nodup) (h : l.Perm l') :
    sortedBy key l = sortedBy key l' := by
  have hkey' : (l'.map key).Nodup := (h.map key).nodup_iff.mp hkey
  have hperm : (sortedBy key l).Perm (sortedBy key l') :=
    perm_sortedBy.trans (h.trans perm_sortedBy.symm)
  have hasymm : ∀ a b, a ∈ sortedBy key l → b ∈ sortedBy key l' → key a < key b → key b < key a → a = b :=
    fun a b _ _ hab hba => absurd hba hab.asymm
  exact hperm.eq_of_pairwise hasymm (pairwise_lt_sortedBy hkey) (pairwise_lt_sortedBy hkey')

end Sorted
