import LidoOracle.Consensus.Web3Converter
import LidoOracle.Lib.Python
import LidoOracle.Lib.Rotation

/-! The order in which the members of the committee submit a report. Those
without the submit role take turns: each waits for its position in the list, and
the list turns by one position with every frame. -/

namespace LidoOracle

inductive ConsensusError where
  | isNotMember
  deriving DecidableEq, Repr

abbrev Consensus := Py ConsensusError

/-- What the oracle reads of `getConsensusStateForMember` -/
structure ConsensusState where
  currentFrameConsensusReport : HexBytes
  isMember : Bool

/-- The state of the contracts at a block -/
structure ChainView where
  slotNumber : SlotNumber
  converter : Web3Converter
  members : List ChecksumAddress
  /-- Nothing where the call reverts, before the initial epoch -/
  consensusState : ChecksumAddress → Option ConsensusState
  hasSubmitRole : ChecksumAddress → Bool
  isMainDataSubmitted : Bool

structure MemberInfo where
  isReportMember : Bool
  isSubmitMember : Bool
  currentFrameConsensusReport : HexBytes

/-- The account is `none` in dry mode. -/
def getMemberInfo (account : Option ChecksumAddress) (view : ChainView) : Consensus MemberInfo :=
  match account with
  | none => .ok ⟨true, true, ZERO_HASH⟩
  | some address =>
    let state := (view.consensusState address).getD ⟨ZERO_HASH, true⟩
    let isSubmitMember := view.hasSubmitRole address
    if !state.isMember && !isSubmitMember then .error (.raised .isNotMember)
    else .ok ⟨state.isMember, isSubmitMember, state.currentFrameConsensusReport⟩

variable (submitDataDelayInSlots : ℤ)

def getSlotDelayBeforeDataSubmit (account : Option ChecksumAddress) (view : ChainView) : Consensus ℤ := do
  let member ← getMemberInfo account view
  match account with
  | none => return 0
  | some address =>
    if member.isSubmitMember then return 0
    let memPosition ← Py.index view.members address
    let currentFrameNumber := view.converter.getFrameBySlot view.slotNumber
    let currentPosition := currentFrameNumber % view.members.length
    let sleepCount : ℤ := memPosition - currentPosition
    let sleepCount := if sleepCount < 0 then sleepCount + view.members.length else sleepCount
    return (1 + sleepCount) * submitDataDelayInSlots

/-- The members are the committee at the block, and none of them has the submit role. -/
structure ChainView.IsCommittee (view : ChainView) (members : List ChecksumAddress) : Prop where
  members_eq : view.members = members
  isMember : ∀ address ∈ members, ∀ state, view.consensusState address = some state → state.isMember = true
  noSubmitRole : ∀ address ∈ members, view.hasSubmitRole address = false

def ChainView.frame (view : ChainView) : FrameNumber := view.converter.getFrameBySlot view.slotNumber

/-- No member has a smaller delay on the block. -/
def IsFirst (members : List ChecksumAddress) (view : ChainView) (address : ChecksumAddress) : Prop :=
  ∃ delay, getSlotDelayBeforeDataSubmit submitDataDelayInSlots (some address) view = .ok delay ∧
    ∀ other ∈ members, ∀ delay',
      getSlotDelayBeforeDataSubmit submitDataDelayInSlots (some other) view = .ok delay' → delay ≤ delay'

/-- The delays on the block are the multiples of the configured delay, one for each member. -/
def CollisionFree (members : List ChecksumAddress) (view : ChainView) : Prop :=
  ∃ delay : ChecksumAddress → ℤ,
    (∀ address ∈ members,
      getSlotDelayBeforeDataSubmit submitDataDelayInSlots (some address) view = .ok (delay address)) ∧
    Set.BijOn delay {address | address ∈ members}
      ((fun k : ℕ => (k : ℤ) * submitDataDelayInSlots) '' Set.Icc 1 members.length)

section Turns

open Rotation

variable {submitDataDelayInSlots} {members : List ChecksumAddress} {view : ChainView} {address : ChecksumAddress}

theorem getMemberInfo_of_committee (hview : view.IsCommittee members) (haddress : address ∈ members) :
    ∃ report, getMemberInfo (some address) view = .ok ⟨true, false, report⟩ := by
  have hrole := hview.noSubmitRole address haddress
  rcases hstate : view.consensusState address with _ | ⟨report, isMember⟩
  · exact ⟨ZERO_HASH, by simp [getMemberInfo, hstate, hrole]⟩
  · have hmember : isMember = true := hview.isMember address haddress _ hstate
    exact ⟨report, by simp [getMemberInfo, hstate, hrole, hmember]⟩

/-- The delay of a member, from its turn in the rotation -/
theorem getSlotDelayBeforeDataSubmit_eq (hview : view.IsCommittee members) (haddress : address ∈ members) :
    getSlotDelayBeforeDataSubmit submitDataDelayInSlots (some address) view =
      .ok ((1 + wait members.length view.frame (members.idxOf address)) * submitDataDelayInSlots) := by
  obtain ⟨report, hinfo⟩ := getMemberInfo_of_committee hview haddress
  rw [wait_eq_wrapped (List.idxOf_lt_length_of_mem haddress)]
  simp [getSlotDelayBeforeDataSubmit, hinfo, Py.index, hview.members_eq, haddress, ChainView.frame]

theorem collisionFree (hdelay : 0 < submitDataDelayInSlots) (hnodup : members.Nodup)
    (hview : view.IsCommittee members) : CollisionFree submitDataDelayInSlots members view := by
  refine ⟨fun address => (1 + wait members.length view.frame (members.idxOf address)) * submitDataDelayInSlots,
    fun address haddress => getSlotDelayBeforeDataSubmit_eq hview haddress, ?_, ?_, ?_⟩
  · intro address haddress
    have hn : 0 < members.length := List.length_pos_of_mem haddress
    have hnonneg := @wait_nonneg _ view.frame (members.idxOf address) hn
    have hlt := @wait_lt _ view.frame (members.idxOf address) hn
    refine ⟨(1 + wait members.length view.frame (members.idxOf address)).toNat, ⟨by omega, by omega⟩, ?_⟩
    simp only [Int.toNat_of_nonneg (Int.add_nonneg zero_le_one hnonneg)]
  · intro address haddress other hother heq
    have hwait := add_left_cancel (mul_right_cancel₀ hdelay.ne' heq)
    exact (List.idxOf_inj haddress).mp (wait_inj (List.idxOf_lt_length_of_mem haddress)
      (List.idxOf_lt_length_of_mem hother) hwait)
  · rintro _ ⟨k, ⟨hpos, hle⟩, rfl⟩
    obtain ⟨pos, hlt, hwait⟩ := @exists_wait_eq members.length view.frame (k - 1) (by omega) (by omega)
    refine ⟨members[pos], List.getElem_mem hlt, ?_⟩
    simp only [hnodup.idxOf_getElem pos hlt, hwait, add_sub_cancel]

/-- The first one is the member that does not wait for others. -/
theorem isFirst_iff (hdelay : 0 < submitDataDelayInSlots) (hnodup : members.Nodup) (hview : view.IsCommittee members)
    (haddress : address ∈ members) : IsFirst submitDataDelayInSlots members view address ↔
      wait members.length view.frame (members.idxOf address) = 0 := by
  have hn : 0 < members.length := List.length_pos_of_mem haddress
  have hnonneg := @wait_nonneg _ view.frame (members.idxOf address) hn
  unfold IsFirst
  simp only [getSlotDelayBeforeDataSubmit_eq hview haddress, Except.ok.injEq, exists_eq_left']
  refine ⟨fun hfirst => ?_, fun hzero other hother delay' hdelay' => ?_⟩
  · obtain ⟨pos, hlt, hwait⟩ := @exists_wait_eq members.length view.frame 0 le_rfl (Int.natCast_pos.mpr hn)
    have hmem := List.getElem_mem hlt
    have hle := hfirst members[pos] hmem _ (getSlotDelayBeforeDataSubmit_eq hview hmem)
    rw [hnodup.idxOf_getElem pos hlt, hwait, mul_le_mul_iff_left₀ hdelay] at hle
    omega
  · rw [getSlotDelayBeforeDataSubmit_eq hview hother] at hdelay'
    obtain rfl := Except.ok.inj hdelay'
    have hother' := @wait_nonneg _ view.frame (members.idxOf other) hn
    exact mul_le_mul_of_nonneg_right (by omega) hdelay.le

/-- A frame on, the first becomes the last, and the others move up. -/
theorem delay_next_frame (hdelay : 0 < submitDataDelayInSlots) (hnodup : members.Nodup) {view' : ChainView}
    (hview : view.IsCommittee members) (hview' : view'.IsCommittee members) (hframe : view'.frame = view.frame + 1)
    (haddress : address ∈ members) {delay delay' : ℤ}
    (hok : getSlotDelayBeforeDataSubmit submitDataDelayInSlots (some address) view = .ok delay)
    (hok' : getSlotDelayBeforeDataSubmit submitDataDelayInSlots (some address) view' = .ok delay') :
    (IsFirst submitDataDelayInSlots members view address → delay' = members.length * submitDataDelayInSlots) ∧
      (¬IsFirst submitDataDelayInSlots members view address → delay' = delay - submitDataDelayInSlots) := by
  have hn : 0 < members.length := List.length_pos_of_mem haddress
  rw [getSlotDelayBeforeDataSubmit_eq hview haddress] at hok
  rw [getSlotDelayBeforeDataSubmit_eq hview' haddress, hframe, wait_succ hn] at hok'
  rw [isFirst_iff hdelay hnodup hview haddress, ← Except.ok.inj hok, ← Except.ok.inj hok']
  refine ⟨fun hzero => ?_, fun hpos => ?_⟩
  · rw [if_pos hzero, add_sub_cancel]
  · rw [if_neg hpos]
    ring

theorem existsUnique_isFirst (hdelay : 0 < submitDataDelayInSlots) (hnodup : members.Nodup) {start : ℤ}
    {views : ℤ → ChainView} (hviews : ∀ frame, start ≤ frame → frame < start + members.length →
      (views frame).IsCommittee members ∧ (views frame).frame = frame) (haddress : address ∈ members) :
    ∃! frame, (start ≤ frame ∧ frame < start + members.length) ∧
      IsFirst submitDataDelayInSlots members (views frame) address := by
  have hiff : ∀ frame, start ≤ frame → frame < start + members.length →
      (IsFirst submitDataDelayInSlots members (views frame) address ↔
        wait members.length frame (members.idxOf address) = 0) := by
    intro frame hle hlt
    obtain ⟨hcommittee, hframe⟩ := hviews frame hle hlt
    rw [isFirst_iff hdelay hnodup hcommittee haddress, hframe]
  obtain ⟨frame, ⟨⟨hle, hlt⟩, hzero⟩, hunique⟩ :=
    existsUnique_wait_eq_zero (List.length_pos_of_mem haddress) start (members.idxOf address)
  refine ⟨frame, ⟨⟨hle, hlt⟩, (hiff frame hle hlt).mpr hzero⟩, fun other ⟨⟨hle', hlt'⟩, hfirst⟩ => ?_⟩
  exact hunique other ⟨⟨hle', hlt'⟩, (hiff other hle' hlt').mp hfirst⟩

end Turns

/-- The turns of a committee. With no configured delay, as in manual mode, nobody waits. -/
theorem getSlotDelayBeforeDataSubmit_turns {submitDataDelayInSlots : ℤ} (hdelay : 0 < submitDataDelayInSlots)
    {members : List ChecksumAddress} (hnodup : members.Nodup) :
    (∀ view : ChainView, view.IsCommittee members → CollisionFree submitDataDelayInSlots members view ∧
      ∀ address ∈ members, getSlotDelayBeforeDataSubmit 0 (some address) view = .ok 0) ∧
    (∀ view view' : ChainView, view.IsCommittee members → view'.IsCommittee members → view'.frame = view.frame + 1 →
      ∀ address ∈ members, ∀ delay delay',
        getSlotDelayBeforeDataSubmit submitDataDelayInSlots (some address) view = .ok delay →
        getSlotDelayBeforeDataSubmit submitDataDelayInSlots (some address) view' = .ok delay' →
        (IsFirst submitDataDelayInSlots members view address → delay' = members.length * submitDataDelayInSlots) ∧
        (¬IsFirst submitDataDelayInSlots members view address → delay' = delay - submitDataDelayInSlots)) ∧
    (∀ (start : ℤ) (views : ℤ → ChainView), (∀ frame, start ≤ frame → frame < start + members.length →
        (views frame).IsCommittee members ∧ (views frame).frame = frame) →
      ∀ address ∈ members, ∃! frame, (start ≤ frame ∧ frame < start + members.length) ∧
        IsFirst submitDataDelayInSlots members (views frame) address) := by
  refine ⟨fun view hview => ⟨collisionFree hdelay hnodup hview, fun address haddress => ?_⟩,
    fun view view' hview hview' hframe address haddress delay delay' hok hok' =>
      delay_next_frame hdelay hnodup hview hview' hframe haddress hok hok',
    fun start views hviews address haddress => existsUnique_isFirst hdelay hnodup hviews haddress⟩
  rw [getSlotDelayBeforeDataSubmit_eq hview haddress, mul_zero]

/-- Two members; the tenth slot is the first one of the initial epoch. -/
def pairAt (slot : SlotNumber) : ChainView where
  slotNumber := slot
  converter := ⟨ChainConfig.oneSlotEpochs, ⟨10, 1, Nat.one_pos⟩⟩
  members := ["0xA", "0xB"]
  consensusState _ := none
  hasSubmitRole _ := false
  isMainDataSubmitted := false

theorem pairAt_isCommittee (slot : SlotNumber) : (pairAt slot).IsCommittee ["0xA", "0xB"] :=
  ⟨rfl, fun _ _ _ hstate => (by cases hstate), fun _ _ => rfl⟩

/-- The frames before the initial epoch: the two members take turns. -/
theorem getSlotDelayBeforeDataSubmit_turns_pair : CollisionFree 6 ["0xA", "0xB"] (pairAt 3) ∧
    getSlotDelayBeforeDataSubmit 6 (some "0xA") (pairAt 3) = .ok 12 ∧
    getSlotDelayBeforeDataSubmit 6 (some "0xB") (pairAt 3) = .ok 6 ∧
    getSlotDelayBeforeDataSubmit 6 (some "0xA") (pairAt 4) = .ok 6 ∧
    getSlotDelayBeforeDataSubmit 6 (some "0xB") (pairAt 4) = .ok 12 ∧
    ¬IsFirst 6 ["0xA", "0xB"] (pairAt 3) "0xA" ∧ IsFirst 6 ["0xA", "0xB"] (pairAt 4) "0xA" ∧
    ∃! frame, ((-7 : ℤ) ≤ frame ∧ frame < -7 + 2) ∧ IsFirst 6 ["0xA", "0xB"] (pairAt (frame + 10).toNat) "0xA" := by
  obtain ⟨hfree, hnext, honce⟩ :=
    getSlotDelayBeforeDataSubmit_turns (by decide : (0 : ℤ) < 6) (by decide : ["0xA", "0xB"].Nodup)
  have hstep := fun slot (hframe : (pairAt (slot + 1)).frame = (pairAt slot).frame + 1) =>
    hnext (pairAt slot) (pairAt (slot + 1)) (pairAt_isCommittee slot) (pairAt_isCommittee (slot + 1)) hframe "0xA" (by decide)
  refine ⟨(hfree (pairAt 3) (pairAt_isCommittee 3)).1, by decide, by decide, by decide, by decide, fun hfirst => ?_, ?_, ?_⟩
  · exact absurd ((hstep 3 (by decide) 12 6 (by decide) (by decide)).1 hfirst) (by decide)
  · by_contra hnot
    exact absurd ((hstep 4 (by decide) 6 12 (by decide) (by decide)).2 hnot) (by decide)
  · refine honce (-7) (fun frame => pairAt (frame + 10).toNat) (fun frame hle hlt => ⟨pairAt_isCommittee _, ?_⟩) "0xA"
      (by decide)
    have hcases : frame = -7 ∨ frame = -6 := by
      simp only [List.length_cons, List.length_nil] at hlt
      omega
    rcases hcases with rfl | rfl <;> decide

/-- Without a configured delay the two members have the same one. -/
theorem not_collisionFree_manual : ["0xA", "0xB"].Nodup ∧ (pairAt 3).IsCommittee ["0xA", "0xB"] ∧
    ¬CollisionFree 0 ["0xA", "0xB"] (pairAt 3) := by
  refine ⟨by decide, pairAt_isCommittee 3, ?_⟩
  rintro ⟨delay, hok, -, hinj, -⟩
  have hfirst := hok "0xA" (by decide)
  have hsecond := hok "0xB" (by decide)
  have heval : ∀ address ∈ ["0xA", "0xB"], getSlotDelayBeforeDataSubmit 0 (some address) (pairAt 3) = .ok 0 := by decide
  rw [heval "0xA" (by decide)] at hfirst
  rw [heval "0xB" (by decide)] at hsecond
  have hsame := hinj (by decide : "0xA" ∈ ["0xA", "0xB"]) (by decide : "0xB" ∈ ["0xA", "0xB"])
    ((Except.ok.inj hfirst).symm.trans (Except.ok.inj hsecond))
  exact absurd hsame (by decide)

end LidoOracle
