import LidoOracle.Lib.Python
import LidoOracle.Types

/-! From a slot that may have been missed to the latest block up to it. The
search goes forward to a block that exists and takes one step back through its
parent root, so the last finalized slot bounds it; the block it finds does not
depend on that bound. -/

namespace LidoOracle

/-- `HTTPStatus.NOT_FOUND` -/
def NOT_FOUND : ℕ := 404

inductive SlotError where
  | noSlotsAvailable
  | slotNotFinalized (slot : SlotNumber)
  | inconsistentData (slot parentSlot : SlotNumber)
  | notOkResponse (status : ℕ)
  deriving DecidableEq, Repr

abbrev Slots := Py SlotError

inductive StateId where
  | slot (slot : SlotNumber)
  | root (root : BlockRoot)

structure BlockHeader where
  root : BlockRoot
  canonical : Bool
  slot : SlotNumber
  parentRoot : BlockRoot
  finalized : Option Bool

structure BlockDetails where
  slot : SlotNumber
  stateRoot : HexStr
  blockNumber : ℕ
  blockHash : HexStr
  timestamp : ℕ
  deriving DecidableEq

structure BlockStamp where
  stateRoot : HexStr
  slotNumber : SlotNumber
  blockHash : HexStr
  blockNumber : ℕ
  blockTimestamp : ℕ
  deriving DecidableEq

structure ReferenceBlockStamp extends BlockStamp where
  refSlot : SlotNumber
  refEpoch : EpochNumber

/-- What a consensus node answers, or the status of its refusal -/
structure ConsensusClient where
  blockHeader : StateId → Except ℕ BlockHeader
  blockDetails : StateId → Except ℕ BlockDetails
  blockRoot : StateId → Except ℕ BlockRoot

/-- A refusal is raised as `NotOkResponse`. -/
def request {α : Type} : Except ℕ α → Slots α
  | .ok response => .ok response
  | .error status => .error (.raised (.notOkResponse status))

namespace ConsensusClient

variable (cc : ConsensusClient)

def getBlockHeader (id : StateId) : Slots BlockHeader := request (cc.blockHeader id)

def getBlockDetails (id : StateId) : Slots BlockDetails := request (cc.blockDetails id)

def getBlockRoot (id : StateId) : Slots BlockRoot := request (cc.blockRoot id)

def checkBlockHeader (header : BlockHeader) : Slots Unit := do
  if header.finalized = some false then throw (.raised (.slotNotFinalized header.slot))
  if ¬header.canonical then throw (.raised (.slotNotFinalized header.slot))

/-- The first of the slots that is not missed, and whether others were missed before it -/
def findHeader : List SlotNumber → Bool → Slots (Bool × Option BlockHeader)
  | [], slotIsMissing => .ok (slotIsMissing, none)
  | i :: slots, slotIsMissing =>
    match cc.blockHeader (.slot i) with
    | .ok header => .ok (slotIsMissing, some header)
    | .error status =>
      if status ≠ NOT_FOUND then .error (.raised (.notOkResponse status)) else findHeader slots true

def getNonMissedSlotHeader (slot lastFinalizedSlotNumber : SlotNumber) : Slots (Bool × BlockHeader) :=
  if slot > lastFinalizedSlotNumber then .error .valueError
  else do
    let found ← cc.findHeader (List.range' slot (lastFinalizedSlotNumber + 1 - slot)) false
    match found.2 with
    | none => throw (.raised .noSlotsAvailable)
    | some existingHeader =>
      checkBlockHeader existingHeader
      return (found.1, existingHeader)

def getPrevNonMissedSlot (slot lastFinalizedSlotNumber : SlotNumber) : Slots BlockDetails := do
  let (isSlotMissing, existingHeader) ← cc.getNonMissedSlotHeader slot lastFinalizedSlotNumber
  if ¬isSlotMissing then cc.getBlockDetails (.root existingHeader.root)
  else
    let parentHeader ← cc.getBlockHeader (.root existingHeader.parentRoot)
    if parentHeader.slot ≥ slot ∨ (existingHeader.slot : ℤ) - parentHeader.slot < 1 then
      throw (.raised (.inconsistentData slot parentHeader.slot))
    checkBlockHeader parentHeader
    cc.getBlockDetails (.root parentHeader.root)

end ConsensusClient

/-- `eth_utils.add_0x_prefix` -/
def add0xPrefix (value : HexStr) : HexStr :=
  if value.startsWith "0x" || value.startsWith "0X" then value else "0x" ++ value

def buildBlockstamp (slotDetails : BlockDetails) : BlockStamp where
  slotNumber := slotDetails.slot
  stateRoot := slotDetails.stateRoot
  blockNumber := slotDetails.blockNumber
  blockHash := add0xPrefix slotDetails.blockHash
  blockTimestamp := slotDetails.timestamp

def buildReferenceBlockstamp (slotDetails : BlockDetails) (refSlot : SlotNumber) (refEpoch : EpochNumber) :
    ReferenceBlockStamp :=
  { buildBlockstamp slotDetails with refSlot := refSlot, refEpoch := refEpoch }

def getBlockstamp (cc : ConsensusClient) (slot lastFinalizedSlotNumber : SlotNumber) : Slots BlockStamp := do
  let existedSlot ← cc.getPrevNonMissedSlot slot lastFinalizedSlotNumber
  return buildBlockstamp existedSlot

def getReferenceBlockstamp (cc : ConsensusClient) (refSlot lastFinalizedSlotNumber : SlotNumber) (refEpoch : EpochNumber) :
    Slots ReferenceBlockStamp := do
  let existedSlot ← cc.getPrevNonMissedSlot refSlot lastFinalizedSlotNumber
  return buildReferenceBlockstamp existedSlot refSlot refEpoch

/-! The chain behind the node -/

structure Block extends BlockDetails where
  root : BlockRoot
  deriving DecidableEq

/-- The canonical chain: a slot has a block or was missed. -/
structure BlockChain where
  blockAt : SlotNumber → Option Block
  slot_of_blockAt : ∀ {s block}, blockAt s = some block → block.slot = s

namespace BlockChain

variable (chain : BlockChain)

/-- The latest block before a slot -/
structure LatestBefore (slot : SlotNumber) (block : Block) : Prop where
  present : chain.blockAt block.slot = some block
  before : block.slot < slot
  latest : ∀ s < slot, (chain.blockAt s).isSome → s ≤ block.slot

/-- Some slot of a range has a block. -/
def SomeBlock (first last : SlotNumber) : Prop := ∃ s, first ≤ s ∧ s ≤ last ∧ (chain.blockAt s).isSome

end BlockChain

/-- What the node says about the header of a block: it is canonical and finalized, and its parent
root is that of the block before it. The first block has a parent root that leads nowhere. -/
structure ConsensusClient.Describes (cc : ConsensusClient) (chain : BlockChain) (block : Block) (header : BlockHeader) :
    Prop where
  root : header.root = block.root
  slot : header.slot = block.slot
  canonical : header.canonical = true
  finalized : header.finalized ≠ some false
  parent : ∀ parent, chain.LatestBefore block.slot parent → header.parentRoot = parent.root
  first : (∀ s < block.slot, chain.blockAt s = none) → cc.blockHeader (.root header.parentRoot) = .error NOT_FOUND

/-- The node serves the blocks of the chain up to its last finalized slot, and no others there. -/
structure ConsensusClient.Serves (cc : ConsensusClient) (chain : BlockChain) (lastFinalized : SlotNumber) : Prop where
  header : ∀ s ≤ lastFinalized, ∀ block, chain.blockAt s = some block → ∃ header,
    cc.blockHeader (.slot s) = .ok header ∧ cc.blockHeader (.root block.root) = .ok header ∧ cc.Describes chain block header
  missed : ∀ s ≤ lastFinalized, chain.blockAt s = none → cc.blockHeader (.slot s) = .error NOT_FOUND
  details : ∀ s ≤ lastFinalized, ∀ block, chain.blockAt s = some block →
    cc.blockDetails (.root block.root) = .ok block.toBlockDetails
  blockRoot : ∀ s ≤ lastFinalized, ∀ block, chain.blockAt s = some block → cc.blockRoot (.slot s) = .ok block.root

namespace BlockChain

variable {chain : BlockChain} {slot : ℕ} {block block' : Block}

theorem LatestBefore.unique (h : chain.LatestBefore slot block) (h' : chain.LatestBefore slot block') : block = block' := by
  have hle := h.latest block'.slot h'.before (by rw [h'.present]; rfl)
  have hge := h'.latest block.slot h.before (by rw [h.present]; rfl)
  have hpresent := h.present
  rw [Nat.le_antisymm hge hle, h'.present, Option.some.injEq] at hpresent
  exact hpresent.symm

/-- Missed slots do not change what the latest block is. -/
theorem LatestBefore.skip {slot' : ℕ} (h : chain.LatestBefore slot block) (hle : slot ≤ slot')
    (hmissed : ∀ s : ℕ, slot ≤ s → s < slot' → chain.blockAt s = none) : chain.LatestBefore slot' block where
  present := h.present
  before := Nat.lt_of_lt_of_le h.before hle
  latest s hs hsome := by
    rcases Nat.lt_or_ge s slot with hbefore | hafter
    · exact h.latest s hbefore hsome
    · rw [hmissed s hafter hs] at hsome
      cases hsome

theorem latestBefore_succ (h : chain.blockAt slot = some block) : chain.LatestBefore (slot + 1) block := by
  have hslot := chain.slot_of_blockAt h
  refine ⟨hslot ▸ h, hslot ▸ Nat.lt_succ_self _, fun (s : ℕ) hs _ => ?_⟩
  rw [hslot]
  exact Nat.le_of_lt_succ hs

theorem exists_latestBefore (slot : ℕ) :
    (∃ block, chain.LatestBefore slot block) ∨ ∀ s < slot, chain.blockAt s = none := by
  induction slot with
  | zero => exact Or.inr fun s hs => absurd hs (Nat.not_lt_zero s)
  | succ slot ih =>
    cases hblock : chain.blockAt slot with
    | some block => exact Or.inl ⟨block, latestBefore_succ hblock⟩
    | none =>
      have hmissed : ∀ s : ℕ, slot ≤ s → s < slot + 1 → chain.blockAt s = none := fun s hfrom hto => by
        rw [Nat.le_antisymm (Nat.le_of_lt_succ hto) hfrom]
        exact hblock
      rcases ih with ⟨block, hlatest⟩ | hnone
      · exact Or.inl ⟨block, hlatest.skip (Nat.le_succ slot) hmissed⟩
      · refine Or.inr fun s hs => ?_
        rcases Nat.lt_or_ge s slot with hbefore | hafter
        · exact hnone s hbefore
        · exact hmissed s hafter hs

/-- The first block of a range that has one -/
theorem SomeBlock.exists_first {last : ℕ} (h : chain.SomeBlock slot last) :
    ∃ first block, slot ≤ first ∧ first ≤ last ∧ chain.blockAt first = some block ∧
      ∀ s : ℕ, slot ≤ s → s < first → chain.blockAt s = none := by
  classical
  obtain ⟨s, hfrom, hto, hsome⟩ := h
  have hex : ∃ n : ℕ, slot ≤ n ∧ (chain.blockAt n).isSome := ⟨s, hfrom, hsome⟩
  obtain ⟨hfirst, hpresent⟩ := Nat.find_spec hex
  obtain ⟨block, hblock⟩ := Option.isSome_iff_exists.mp hpresent
  refine ⟨Nat.find hex, block, hfirst, (Nat.find_min' hex ⟨hfrom, hsome⟩).trans hto, hblock, fun n hn hlt => ?_⟩
  have hmin := Nat.find_min hex hlt
  rw [not_and] at hmin
  exact Option.not_isSome_iff_eq_none.mp (hmin hn)

end BlockChain

namespace ConsensusClient

variable {cc : ConsensusClient} {chain : BlockChain} {slot lastFinalized : ℕ} {block : Block} {header : BlockHeader}

theorem Describes.checkBlockHeader_eq (h : cc.Describes chain block header) : checkBlockHeader header = .ok () := by
  unfold checkBlockHeader
  rw [if_neg h.finalized, if_neg (not_not.mpr h.canonical)]
  rfl

theorem findHeader_missed (hserves : cc.Serves chain lastFinalized) {slots : List ℕ}
    (hslots : ∀ s ∈ slots, s ≤ lastFinalized ∧ chain.blockAt s = none) (slotIsMissing : Bool) :
    ∃ missing, cc.findHeader slots slotIsMissing = .ok (missing, none) := by
  induction slots generalizing slotIsMissing with
  | nil => exact ⟨slotIsMissing, rfl⟩
  | cons s slots ih =>
    rw [List.forall_mem_cons] at hslots
    rw [findHeader, hserves.missed s hslots.1.1 hslots.1.2]
    exact ih hslots.2 true

theorem findHeader_found {missed slots : List ℕ} {s : ℕ} (hserves : cc.Serves chain lastFinalized)
    (hmissed : ∀ s ∈ missed, s ≤ lastFinalized ∧ chain.blockAt s = none) (hheader : cc.blockHeader (.slot s) = .ok header)
    (slotIsMissing : Bool) : cc.findHeader (missed ++ s :: slots) slotIsMissing =
      .ok (slotIsMissing || !missed.isEmpty, some header) := by
  induction missed generalizing slotIsMissing with
  | nil =>
    rw [List.nil_append, findHeader, hheader]
    simp
  | cons s' missed ih =>
    rw [List.forall_mem_cons] at hmissed
    rw [List.cons_append, findHeader, hserves.missed s' hmissed.1.1 hmissed.1.2]
    exact (ih hmissed.2 true).trans (by simp)

theorem getNonMissedSlotHeader_none (hserves : cc.Serves chain lastFinalized) (hle : slot ≤ lastFinalized)
    (hnone : ¬ chain.SomeBlock slot lastFinalized) :
    cc.getNonMissedSlotHeader slot lastFinalized = .error (.raised .noSlotsAvailable) := by
  have hslots : ∀ s ∈ List.range' slot (lastFinalized + 1 - slot), s ≤ lastFinalized ∧ chain.blockAt s = none := by
    intro s hs
    have hrange := List.mem_range'_1.mp hs
    have hto : s ≤ lastFinalized := by omega
    refine ⟨hto, Option.not_isSome_iff_eq_none.mp fun hsome => hnone ⟨s, hrange.1, hto, hsome⟩⟩
  obtain ⟨missing, hfind⟩ := findHeader_missed hserves hslots false
  unfold getNonMissedSlotHeader
  rw [if_neg (not_lt.mpr hle), hfind]
  rfl

theorem getNonMissedSlotHeader_first {first : ℕ} (hserves : cc.Serves chain lastFinalized) (hfirst : slot ≤ first)
    (hlast : first ≤ lastFinalized) (hblock : chain.blockAt first = some block)
    (hmissed : ∀ s : ℕ, slot ≤ s → s < first → chain.blockAt s = none) :
    ∃ header, cc.Describes chain block header ∧
      cc.getNonMissedSlotHeader slot lastFinalized = .ok (decide (slot < first), header) := by
  obtain ⟨header, hheader, -, hdescribes⟩ := hserves.header first hlast block hblock
  have hsplit : List.range' slot (lastFinalized + 1 - slot) =
      List.range' slot (first - slot) ++ first :: List.range' (first + 1) (lastFinalized - first) := by
    have hcons : first :: List.range' (first + 1) (lastFinalized - first) = List.range' first (lastFinalized - first + 1) := rfl
    have happend := @List.range'_append slot (first - slot) (lastFinalized - first + 1) 1
    rw [Nat.one_mul, Nat.add_sub_cancel' hfirst] at happend
    rw [hcons, happend]
    exact congrArg (List.range' slot) (by omega)
  have hbefore : ∀ s ∈ List.range' slot (first - slot), s ≤ lastFinalized ∧ chain.blockAt s = none := by
    intro s hs
    have hrange := List.mem_range'_1.mp hs
    exact ⟨by omega, hmissed s hrange.1 (by omega)⟩
  refine ⟨header, hdescribes, ?_⟩
  unfold getNonMissedSlotHeader
  rw [if_neg (not_lt.mpr (hfirst.trans hlast)), hsplit, findHeader_found hserves hbefore hheader, Except.ok_bind]
  dsimp only
  rw [hdescribes.checkBlockHeader_eq, Except.ok_bind]
  have hmissing : (false || !(List.range' slot (first - slot)).isEmpty) = decide (slot < first) := by
    rw [Bool.false_or, Bool.eq_iff_iff]
    simp only [Bool.not_eq_true', List.isEmpty_eq_false_iff, decide_eq_true_eq, ne_eq, List.range'_eq_nil_iff]
    omega
  rw [hmissing]
  rfl

/-- Where the range has a block, the search ends at the latest block up to the slot; before the
first block of the chain there is none, and the node refuses. -/
theorem getPrevNonMissedSlot_of_someBlock (hserves : cc.Serves chain lastFinalized)
    (hsome : chain.SomeBlock slot lastFinalized) :
    (∃ block, chain.LatestBefore (slot + 1) block ∧
      cc.getPrevNonMissedSlot slot lastFinalized = .ok block.toBlockDetails) ∨
    (∀ s ≤ slot, chain.blockAt s = none) ∧
      cc.getPrevNonMissedSlot slot lastFinalized = .error (.raised (.notOkResponse NOT_FOUND)) := by
  obtain ⟨first, block, hfirst, hlast, hblock, hmissed⟩ := hsome.exists_first
  obtain ⟨header, hdescribes, hheader⟩ := getNonMissedSlotHeader_first hserves hfirst hlast hblock hmissed
  have hslot := chain.slot_of_blockAt hblock
  unfold getPrevNonMissedSlot
  rw [hheader, Except.ok_bind]
  dsimp only
  rcases Nat.eq_or_lt_of_le hfirst with heq | hlt
  · subst heq
    refine Or.inl ⟨block, BlockChain.latestBefore_succ hblock, ?_⟩
    rw [if_pos (by simp), getBlockDetails, hdescribes.root, hserves.details slot hlast block hblock]
    rfl
  rw [if_neg (by simp [hlt]), getBlockHeader]
  rcases @BlockChain.exists_latestBefore chain slot with ⟨parent, hparent⟩ | hnone
  · refine Or.inl ⟨parent, hparent.skip (Nat.le_succ slot) fun s hfrom hto => hmissed s hfrom (by omega), ?_⟩
    have hbefore := hparent.before
    have hfinal : parent.slot ≤ lastFinalized := hbefore.le.trans (hfirst.trans hlast)
    obtain ⟨parentHeader, -, hparentHeader, hparentDescribes⟩ := hserves.header parent.slot hfinal parent hparent.present
    rw [hdescribes.parent parent (hslot ▸ hparent.skip hfirst hmissed), hparentHeader, request, Except.ok_bind,
      hparentDescribes.slot, hdescribes.slot, hslot]
    have hearlier : ¬(parent.slot ≥ slot ∨ (first : ℤ) - parent.slot < 1) := by
      rintro (h | h)
      · exact absurd hbefore (not_lt.mpr h)
      · have hlt' : (parent.slot : ℤ) < first := Int.ofNat_lt.mpr (Nat.lt_trans hbefore hlt)
        omega
    rw [if_neg hearlier, hparentDescribes.checkBlockHeader_eq]
    simp only [getBlockDetails, hparentDescribes.root, hserves.details parent.slot hfinal parent hparent.present]
    rfl
  · refine Or.inr ⟨fun (s : ℕ) hs => ?_, ?_⟩
    · rcases Nat.eq_or_lt_of_le hs with rfl | hbefore
      · exact hmissed s (le_refl s) hlt
      · exact hnone s hbefore
    · have hfirstBlock : ∀ s < block.slot, chain.blockAt s = none := by
        intro (s : ℕ) hs
        rw [hslot] at hs
        rcases Nat.lt_or_ge s slot with hbefore | hafter
        · exact hnone s hbefore
        · exact hmissed s hafter hs
      rw [hdescribes.first hfirstBlock]
      rfl

theorem getPrevNonMissedSlot_none (hserves : cc.Serves chain lastFinalized) (hle : slot ≤ lastFinalized)
    (hnone : ¬ chain.SomeBlock slot lastFinalized) :
    cc.getPrevNonMissedSlot slot lastFinalized = .error (.raised .noSlotsAvailable) := by
  unfold getPrevNonMissedSlot
  rw [getNonMissedSlotHeader_none hserves hle hnone]
  rfl

/-- A slot resolves to nothing but the latest block up to it. -/
theorem Serves.latest_of_ok (hserves : cc.Serves chain lastFinalized) {details : BlockDetails}
    (h : cc.getPrevNonMissedSlot slot lastFinalized = .ok details) :
    ∃ block, chain.LatestBefore (slot + 1) block ∧ details = block.toBlockDetails := by
  have hle : slot ≤ lastFinalized := by
    by_contra hlt
    unfold getPrevNonMissedSlot getNonMissedSlotHeader at h
    rw [if_pos (not_le.mp hlt)] at h
    cases h
  by_cases hsome : chain.SomeBlock slot lastFinalized
  · rcases getPrevNonMissedSlot_of_someBlock hserves hsome with ⟨block, hlatest, hok⟩ | ⟨-, herror⟩
    · rw [hok, Except.ok.injEq] at h
      exact ⟨block, hlatest, h.symm⟩
    · rw [herror] at h
      cases h
  · rw [getPrevNonMissedSlot_none hserves hle hsome] at h
    cases h

end ConsensusClient

/-! Reads pinned to a slot do not depend on the finalized head they are taken with, nor on the
node that answers. -/

section Agreement

variable {cc cc' : ConsensusClient} {chain : BlockChain} {slot lastFinalized lastFinalized' : ℕ}
  (hserves : cc.Serves chain lastFinalized) (hserves' : cc'.Serves chain lastFinalized')
include hserves hserves'

theorem getPrevNonMissedSlot_agree {details details' : BlockDetails}
    (h : cc.getPrevNonMissedSlot slot lastFinalized = .ok details)
    (h' : cc'.getPrevNonMissedSlot slot lastFinalized' = .ok details') : details = details' := by
  obtain ⟨block, hlatest, rfl⟩ := hserves.latest_of_ok h
  obtain ⟨block', hlatest', rfl⟩ := hserves'.latest_of_ok h'
  rw [hlatest.unique hlatest']

theorem getBlockstamp_agree {stamp stamp' : BlockStamp} (h : getBlockstamp cc slot lastFinalized = .ok stamp)
    (h' : getBlockstamp cc' slot lastFinalized' = .ok stamp') : stamp = stamp' := by
  obtain ⟨details, hdetails, hstamp⟩ := Except.bind_eq_ok.mp h
  obtain ⟨details', hdetails', hstamp'⟩ := Except.bind_eq_ok.mp h'
  rw [Except.pure_eq_ok] at hstamp hstamp'
  rw [← hstamp, ← hstamp', getPrevNonMissedSlot_agree hserves hserves' hdetails hdetails']

theorem getReferenceBlockstamp_agree {refEpoch : EpochNumber} {stamp : BlockStamp} {reference : ReferenceBlockStamp}
    (h : getBlockstamp cc slot lastFinalized = .ok stamp)
    (h' : getReferenceBlockstamp cc' slot lastFinalized' refEpoch = .ok reference) :
    reference = { stamp with refSlot := slot, refEpoch := refEpoch } := by
  obtain ⟨details, hdetails, hstamp⟩ := Except.bind_eq_ok.mp h
  obtain ⟨details', hdetails', hreference⟩ := Except.bind_eq_ok.mp h'
  rw [Except.pure_eq_ok] at hstamp hreference
  rw [← hstamp, ← hreference, getPrevNonMissedSlot_agree hserves hserves' hdetails hdetails']
  rfl

end Agreement

/-- The resolution of a slot: its result, its failures, and the agreement of the blockstamps
taken with different finalized slots -/
theorem getPrevNonMissedSlot_exact (cc : ConsensusClient) (chain : BlockChain) (slot lastFinalized : SlotNumber)
    (hserves : cc.Serves chain lastFinalized) (hle : slot ≤ lastFinalized) :
    (chain.SomeBlock slot lastFinalized → (∃ s ≤ slot, (chain.blockAt s).isSome) →
      ∃ block, chain.LatestBefore (slot + 1) block ∧
        cc.getPrevNonMissedSlot slot lastFinalized = .ok block.toBlockDetails) ∧
    (cc.getPrevNonMissedSlot slot lastFinalized = .error (.raised .noSlotsAvailable) ↔
      ¬ chain.SomeBlock slot lastFinalized) ∧
    (∀ details, cc.getPrevNonMissedSlot slot lastFinalized = .ok details → details.slot ≤ slot) ∧
    (∀ s parentSlot, cc.getPrevNonMissedSlot slot lastFinalized ≠ .error (.raised (.inconsistentData s parentSlot))) ∧
    ∀ (cc' : ConsensusClient) (lastFinalized' : SlotNumber) (refEpoch : EpochNumber), cc'.Serves chain lastFinalized' →
      (∀ stamp stamp', getBlockstamp cc slot lastFinalized = .ok stamp →
        getBlockstamp cc' slot lastFinalized' = .ok stamp' → stamp = stamp') ∧
      (∀ stamp reference, getBlockstamp cc slot lastFinalized = .ok stamp →
        getReferenceBlockstamp cc' slot lastFinalized' refEpoch = .ok reference →
        reference = { stamp with refSlot := slot, refEpoch := refEpoch }) ∧
      (∀ reference reference', getReferenceBlockstamp cc slot lastFinalized refEpoch = .ok reference →
        getReferenceBlockstamp cc' slot lastFinalized' refEpoch = .ok reference' → reference = reference') := by
  refine ⟨fun hsome hfirst => ?_, ⟨fun h hsome => ?_, ConsensusClient.getPrevNonMissedSlot_none hserves hle⟩,
    fun details h => ?_, fun s parentSlot h => ?_, fun cc' lastFinalized' refEpoch hserves' => ⟨?_, ?_, ?_⟩⟩
  · rcases ConsensusClient.getPrevNonMissedSlot_of_someBlock hserves hsome with hblock | ⟨hnone, -⟩
    · exact hblock
    · obtain ⟨s, hs, hpresent⟩ := hfirst
      rw [hnone s hs] at hpresent
      cases hpresent
  · rcases ConsensusClient.getPrevNonMissedSlot_of_someBlock hserves hsome with ⟨block, -, hok⟩ | ⟨-, herror⟩
    · rw [hok] at h
      cases h
    · rw [herror] at h
      cases h
  · obtain ⟨block, hlatest, rfl⟩ := hserves.latest_of_ok h
    exact Nat.le_of_lt_succ hlatest.before
  · by_cases hsome : chain.SomeBlock slot lastFinalized
    · rcases ConsensusClient.getPrevNonMissedSlot_of_someBlock hserves hsome with ⟨block, -, hok⟩ | ⟨-, herror⟩
      · rw [hok] at h
        cases h
      · rw [herror] at h
        cases h
    · rw [ConsensusClient.getPrevNonMissedSlot_none hserves hle hsome] at h
      cases h
  · exact fun stamp stamp' h h' => getBlockstamp_agree hserves hserves' h h'
  · exact fun stamp reference h h' => getReferenceBlockstamp_agree hserves hserves' h h'
  · intro reference reference' h h'
    obtain ⟨details, hdetails, hreference⟩ := Except.bind_eq_ok.mp h
    obtain ⟨details', hdetails', hreference'⟩ := Except.bind_eq_ok.mp h'
    rw [Except.pure_eq_ok] at hreference hreference'
    rw [← hreference, ← hreference', getPrevNonMissedSlot_agree hserves hserves' hdetails hdetails']

def block0 : Block := ⟨⟨0, "0x01", 0, "0x02", 0⟩, "0xaa"⟩

def block16 : Block := ⟨⟨16, "0x03", 1, "0x04", 192⟩, "0xbb"⟩

def block23 : Block := ⟨⟨23, "0x05", 2, "0x06", 276⟩, "0xcc"⟩

/-- Blocks at slots 0, 16 and 23, and missed slots between them -/
def gapChain : BlockChain where
  blockAt s := if s = 0 then some block0 else if s = 16 then some block16 else if s = 23 then some block23 else none
  slot_of_blockAt h := by
    split_ifs at h with h0 h16 h23
    · cases h
      exact h0.symm
    · cases h
      exact h16.symm
    · cases h
      exact h23.symm

def gapClient : ConsensusClient where
  blockHeader
    | .slot s => if s = 0 then .ok ⟨"0xaa", true, 0, "0x00", some true⟩
      else if s = 16 then .ok ⟨"0xbb", true, 16, "0xaa", some true⟩
      else if s = 23 then .ok ⟨"0xcc", true, 23, "0xbb", some true⟩ else .error NOT_FOUND
    | .root r => if r = "0xaa" then .ok ⟨"0xaa", true, 0, "0x00", some true⟩
      else if r = "0xbb" then .ok ⟨"0xbb", true, 16, "0xaa", some true⟩
      else if r = "0xcc" then .ok ⟨"0xcc", true, 23, "0xbb", some true⟩ else .error NOT_FOUND
  blockDetails
    | .root r => if r = "0xaa" then .ok block0.toBlockDetails else if r = "0xbb" then .ok block16.toBlockDetails
      else if r = "0xcc" then .ok block23.toBlockDetails else .error NOT_FOUND
    | .slot _ => .error NOT_FOUND
  blockRoot
    | .slot s => ((gapChain.blockAt s).map Block.root).elim (.error NOT_FOUND) .ok
    | .root _ => .error NOT_FOUND

theorem gapChain_latest16 : gapChain.LatestBefore 16 block0 where
  present := rfl
  before := by decide
  latest := by decide

theorem gapChain_latest23 : gapChain.LatestBefore 23 block16 where
  present := rfl
  before := by decide
  latest := by decide

theorem gapChain_cases {s : ℕ} {block : Block} (h : gapChain.blockAt s = some block) :
    s = 0 ∧ block = block0 ∨ s = 16 ∧ block = block16 ∨ s = 23 ∧ block = block23 := by
  unfold gapChain at h
  dsimp only at h
  split_ifs at h with h0 h16 h23
  · exact Or.inl ⟨h0, (Option.some.inj h).symm⟩
  · exact Or.inr (Or.inl ⟨h16, (Option.some.inj h).symm⟩)
  · exact Or.inr (Or.inr ⟨h23, (Option.some.inj h).symm⟩)

theorem gapClient_serves (lastFinalized : SlotNumber) : gapClient.Serves gapChain lastFinalized where
  header s _ block h := by
    rcases gapChain_cases h with ⟨rfl, rfl⟩ | ⟨rfl, rfl⟩ | ⟨rfl, rfl⟩
    · exact ⟨_, rfl, rfl, rfl, rfl, rfl, by decide, fun parent hparent => absurd hparent.before (Nat.not_lt_zero _),
        fun _ => rfl⟩
    · refine ⟨_, rfl, rfl, rfl, rfl, rfl, by decide, fun parent hparent => ?_,
        fun hnone => absurd (hnone 0 (by decide)) (by decide)⟩
      rw [hparent.unique gapChain_latest16]
      rfl
    · refine ⟨_, rfl, rfl, rfl, rfl, rfl, by decide, fun parent hparent => ?_,
        fun hnone => absurd (hnone 0 (by decide)) (by decide)⟩
      rw [hparent.unique gapChain_latest23]
      rfl
  missed s _ h := by
    unfold gapChain at h
    dsimp only at h
    split_ifs at h with h0 h16 h23
    unfold gapClient
    dsimp only
    rw [if_neg h0, if_neg h16, if_neg h23]
  details s _ block h := by
    rcases gapChain_cases h with ⟨rfl, rfl⟩ | ⟨rfl, rfl⟩ | ⟨rfl, rfl⟩
    · rfl
    · rfl
    · rfl
  blockRoot s _ block h := by
    unfold gapClient
    dsimp only
    rw [h]
    rfl

/-- Slot 19 is missed; the search goes forward to slot 23 and back to slot 16. -/
theorem getPrevNonMissedSlot_exact_gap :
    (gapClient.getPrevNonMissedSlot 19 24 = .error (.raised .noSlotsAvailable) ↔ ¬ gapChain.SomeBlock 19 24) ∧
      gapClient.getPrevNonMissedSlot 19 24 = .ok block16.toBlockDetails :=
  ⟨(getPrevNonMissedSlot_exact gapClient gapChain 19 24 (gapClient_serves 24) (by decide)).2.1, rfl⟩

end LidoOracle
