import Mathlib

/-! Votes of a committee in which some members are not to be trusted. A value
that more members back than are faulty is backed by a member that is not. -/

namespace Quorum

variable {ι α : Type*} [DecidableEq α]

/-- The members that vote for a value -/
def support (members : List ι) (vote : ι → Option α) (value : α) : ℕ :=
  members.countP fun m => vote m = some value

/-- The faulty members are fewer than a quorum. -/
def FewFaulty (members : List ι) (faulty : ι → Bool) (quorum : ℕ) : Prop := members.countP faulty < quorum

variable {members : List ι} {vote : ι → Option α} {faulty : ι → Bool} {quorum : ℕ} {value : α}

theorem FewFaulty.exists_backer (hfew : FewFaulty members faulty quorum) (hquorum : quorum ≤ support members vote value) :
    ∃ m ∈ members, faulty m = false ∧ vote m = some value := by
  by_contra hnone
  push Not at hnone
  have hle : support members vote value ≤ members.countP faulty := by
    refine List.countP_mono_left fun m hm hvote => ?_
    by_contra hfaulty
    exact hnone m hm (by simpa using hfaulty) (by simpa using hvote)
  exact absurd (hquorum.trans hle) (not_le.mpr hfew)

end Quorum
