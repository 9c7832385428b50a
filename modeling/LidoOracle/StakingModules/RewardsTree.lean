import LidoOracle.Lib.Tally
import LidoOracle.StakingModules.ReportRange
import LidoOracle.StakingModules.Strikes

/-! The rewards tree from report to report: every report adds the rewards of
its frames to the leaves of the last tree and publishes the sums. A tree of one
operator gets a leaf without rewards beside it, the stone, which stays until
there are enough operators. -/

namespace LidoOracle

namespace StakingModules

abbrev RewardsTreeLeaf := NodeOperatorId × RewardsShares
abbrev StrikesTreeLeaf := NodeOperatorId × HexBytes × StrikesList

def MAX_OPERATORS_COUNT : NodeOperatorId := UINT64_MAX

inductive ReportError where
  | distribution (e : DistributionError)
  | inconsistentPreviousTree
  | unexpectedRoot
  | noShares
  | noStrikes
  | invalidStrikesTree (strikesCid : Option CID) (strikesTreeRoot : HexBytes)
  | standardMerkleTree
  | ipfs
  deriving DecidableEq, Repr

abbrev Reporting := Py ReportError

/-- A merkle tree: its root and the values it was made from -/
structure Tree (L : Type) where
  root : HexBytes
  values : List L
  deriving DecidableEq

/-- The tree package and the IPFS client, for trees of one kind: making a tree, publishing its encoding,
and decoding what a CID gives back -/
structure TreeServices (L : Type) where
  standardMerkleTree : List L → Reporting (Tree L)
  publish : Tree L → Reporting CID
  fetch : CID → FrameNumber → Reporting (Tree L)

/-- What is relied on: a tree keeps its values in order, a CID is not empty, and it gives back the tree that
was published. -/
structure TreeServices.Faithful {L : Type} (services : TreeServices L) : Prop where
  values_kept : ∀ values tree, services.standardMerkleTree values = .ok tree → tree.values = values
  publish_ne : ∀ tree, services.publish tree ≠ .ok ""
  fetch_publish : ∀ tree cid frame fetched, services.standardMerkleTree tree.values = .ok tree →
    services.publish tree = .ok cid → services.fetch cid frame = .ok fetched → fetched = tree

/-- What one frame distributes, and the shares to distribute at its block -/
structure FrameDistribution where
  totalRewardsToDistribute : RewardsShares
  rewardsMap : Dict NodeOperatorId RewardsShares
  distributedRewards : RewardsShares
  rebateToProtocol : ℤ

structure DistributionResult where
  totalRewards : RewardsShares
  totalRebate : ℤ
  totalRewardsMap : Dict NodeOperatorId RewardsShares
  strikes : Dict StrikesValidator StrikesList

/-- What the contracts hold of the last report -/
structure LastReportContracts where
  rewardsTreeRoot : HexBytes
  rewardsTreeCid : CID
  strikesTreeRoot : HexBytes
  strikesTreeCid : CID

structure LastReport where
  currentFrame : FrameNumber
  rewardsTreeRoot : HexBytes
  strikesTreeRoot : HexBytes
  rewardsTreeCid : Option CID
  strikesTreeCid : Option CID

/-- An empty CID stands for none. -/
def getTreeCid (treeCid : CID) : Option CID := if treeCid = "" then none else some treeCid

namespace LastReport

def load (contracts : LastReportContracts) (currentFrame : FrameNumber) : Reporting LastReport := do
  let rewardsTreeCid := getTreeCid contracts.rewardsTreeCid
  if (rewardsTreeCid == none) != (contracts.rewardsTreeRoot == ZERO_HASH) then
    throw (.raised .inconsistentPreviousTree)
  let strikesTreeCid := getTreeCid contracts.strikesTreeCid
  if (strikesTreeCid == none) != (contracts.strikesTreeRoot == ZERO_HASH) then
    throw (.raised .inconsistentPreviousTree)
  return ⟨currentFrame, contracts.rewardsTreeRoot, contracts.strikesTreeRoot, rewardsTreeCid, strikesTreeCid⟩

/-- The values of the tree behind a CID, which must have the root that was reported -/
def readTree {L : Type} (services : TreeServices L) (currentFrame : FrameNumber) (treeCid : Option CID)
    (treeRoot : HexBytes) : Reporting (List L) :=
  match treeCid with
  | none => return []
  | some cid => do
    if treeRoot = ZERO_HASH then return []
    let tree ← services.fetch cid currentFrame
    if tree.root ≠ treeRoot then throw (.raised .unexpectedRoot)
    return tree.values

def rewards (services : TreeServices RewardsTreeLeaf) (lastReport : LastReport) : Reporting (List RewardsTreeLeaf) :=
  readTree services lastReport.currentFrame lastReport.rewardsTreeCid lastReport.rewardsTreeRoot

def strikes (services : TreeServices StrikesTreeLeaf) (lastReport : LastReport) :
    Reporting (Dict StrikesValidator StrikesList) := do
  let values ← readTree services lastReport.currentFrame lastReport.strikesTreeCid lastReport.strikesTreeRoot
  return Dict.ofList (values.map fun leaf => ((leaf.1, leaf.2.1), leaf.2.2))

end LastReport

def validateDistribution (totalDistributedRewards totalRebate totalRewardsToDistribute : ℤ) : Distributing Unit := do
  if totalDistributedRewards + totalRebate > totalRewardsToDistribute then throw (.raised .distributedAboveTotal)
  if totalRewardsToDistribute ≠ 0 ∧ totalDistributedRewards = 0 ∧ totalRebate = 0 then
    throw (.raised .nothingDistributed)

/-- One frame of the loop, apart from its strikes -/
def DistributionResult.addFrame (result : DistributionResult) (frame : FrameDistribution) :
    Distributing DistributionResult := do
  let totalRewards := result.totalRewards + frame.distributedRewards
  let totalRebate := result.totalRebate + frame.rebateToProtocol
  validateDistribution totalRewards totalRebate frame.totalRewardsToDistribute
  return { result with
    totalRewards := totalRewards
    totalRebate := totalRebate
    totalRewardsMap := result.totalRewardsMap.addAll frame.rewardsMap.entries }

structure Services where
  rewards : TreeServices RewardsTreeLeaf
  strikes : TreeServices StrikesTreeLeaf

/-- What a report is made from, besides the last report -/
structure ReportInput where
  consensusVersion : ℕ
  refSlot : SlotNumber
  currentFrame : FrameNumber
  frames : List FrameDistribution
  /-- what the frames make of the strikes of the last report -/
  processStrikes : Dict StrikesValidator StrikesList → Dict StrikesValidator StrikesList
  logCid : CID

structure ReportData where
  consensusVersion : ℕ
  refSlot : SlotNumber
  treeRoot : HexBytes
  treeCid : CID
  logCid : CID
  distributed : RewardsShares
  rebate : ℤ
  strikesTreeRoot : HexBytes
  strikesTreeCid : CID

section Report

variable (services : Services)

/-- `Distribution.calculate` -/
def calculate (input : ReportInput) (lastReport : LastReport) : Reporting DistributionResult := do
  let lastStrikes ← lastReport.strikes services.strikes
  let result ← Py.lift ReportError.distribution
    (input.frames.foldlM DistributionResult.addFrame ⟨0, 0, Dict.empty, input.processStrikes lastStrikes⟩)
  if result.totalRewards ≠ result.totalRewardsMap.values.sum then
    throw (.raised (.distribution .inconsistentData))
  let lastReportRewards ← lastReport.rewards services.rewards
  return { result with totalRewardsMap := result.totalRewardsMap.addAll lastReportRewards }

/-- Leaves are sorted by operator. -/
def newRewardsTree (values : List RewardsTreeLeaf) : Reporting (Tree RewardsTreeLeaf) :=
  services.rewards.standardMerkleTree (Sorted.sortedBy Prod.fst values)

/-- Leaves are sorted by operator and public key. -/
def newStrikesTree (values : List StrikesTreeLeaf) : Reporting (Tree StrikesTreeLeaf) :=
  services.strikes.standardMerkleTree
    (Sorted.sortedBy (fun leaf => toLex (leaf.1, leaf.2.1.map UInt8.toNat)) values)

/-- The stone next to a single operator; it goes as soon as there are enough leaves. -/
def withStone (shares : Dict NodeOperatorId RewardsShares) : Dict NodeOperatorId RewardsShares :=
  let stone := MAX_OPERATORS_COUNT
  let shares := if shares.keys.length = 1 then shares.set stone 0 else shares
  if shares.keys.length > 2 ∧ stone ∈ shares then shares.erase stone else shares

def makeRewardsTree (shares : Dict NodeOperatorId RewardsShares) : Reporting (Tree RewardsTreeLeaf) := do
  if shares.entries = [] then throw (.raised .noShares)
  newRewardsTree services (withStone shares).entries

def makeStrikesTree (strikes : Dict StrikesValidator StrikesList) : Reporting (Tree StrikesTreeLeaf) := do
  if strikes.entries = [] then throw (.raised .noStrikes)
  newStrikesTree services (strikes.entries.map fun e => (e.1.1, e.1.2, e.2))

/-- The tree of the report, if one is made, with the root and the CID to report -/
def reportRewards (distribution : DistributionResult) (lastReport : LastReport) :
    Reporting (Option (Tree RewardsTreeLeaf) × HexBytes × Option CID) := do
  if distribution.totalRewards = 0 then return (none, lastReport.rewardsTreeRoot, lastReport.rewardsTreeCid)
  let rewardsTree ← makeRewardsTree services distribution.totalRewardsMap
  let rewardsCid ← services.rewards.publish rewardsTree
  return (some rewardsTree, rewardsTree.root, some rewardsCid)

def reportStrikes (distribution : DistributionResult) (lastReport : LastReport) :
    Reporting (HexBytes × Option CID) := do
  if distribution.strikes.entries = [] then return (ZERO_HASH, none)
  let strikesTree ← makeStrikesTree services distribution.strikes
  let strikesCid ← (if strikesTree.root = lastReport.strikesTreeRoot then pure lastReport.strikesTreeCid
    else return some (← services.strikes.publish strikesTree))
  if (strikesCid == lastReport.strikesTreeCid) != (strikesTree.root == lastReport.strikesTreeRoot) then
    throw (.raised (.invalidStrikesTree strikesCid strikesTree.root))
  return (strikesTree.root, strikesCid)

/-- The data of the report, and the tree that was made for it -/
structure BuiltReport where
  data : ReportData
  rewardsTree : Option (Tree RewardsTreeLeaf)

def buildReport (contracts : LastReportContracts) (input : ReportInput) : Reporting BuiltReport := do
  let lastReport ← LastReport.load contracts input.currentFrame
  let distribution ← calculate services input lastReport
  let (rewardsTree, rewardsTreeRoot, rewardsCid) ← reportRewards services distribution lastReport
  let (strikesTreeRoot, strikesCid) ← reportStrikes services distribution lastReport
  return {
    data := {
      consensusVersion := input.consensusVersion
      refSlot := input.refSlot
      treeRoot := rewardsTreeRoot
      treeCid := rewardsCid.getD ""
      logCid := input.logCid
      distributed := distribution.totalRewards
      rebate := distribution.totalRebate
      strikesTreeRoot := strikesTreeRoot
      strikesTreeCid := strikesCid.getD "" }
    rewardsTree := rewardsTree }

end Report

/-! Chains of reports, and what their trees have to say -/

def ReportInput.rewardsOf (input : ReportInput) (noId : NodeOperatorId) : RewardsShares :=
  (input.frames.map fun frame => frame.rewardsMap.totalAt noId).sum

/-- Operators of the module have ids below the count of operators. -/
def ReportInput.OfOperators (input : ReportInput) : Prop :=
  ∀ frame ∈ input.frames, ∀ noId ∈ frame.rewardsMap, noId < MAX_OPERATORS_COUNT

/-- A report of a chain, with what it was made from -/
structure ChainReport where
  input : ReportInput
  report : BuiltReport

def initialContracts : LastReportContracts := ⟨ZERO_HASH, "", ZERO_HASH, ""⟩

/-- The contracts take over what was reported. -/
def ReportData.accepted (data : ReportData) : LastReportContracts :=
  ⟨data.treeRoot, data.treeCid, data.strikesTreeRoot, data.strikesTreeCid⟩

inductive ReportChain (services : Services) : List ChainReport → LastReportContracts → Prop where
  | nil : ReportChain services [] initialContracts
  | snoc {reports : List ChainReport} {contracts : LastReportContracts} {input : ReportInput} {report : BuiltReport}
      (hchain : ReportChain services reports contracts) (hreport : buildReport services contracts input = .ok report) :
      ReportChain services (reports ++ [⟨input, report⟩]) report.data.accepted

/-- The rewards of an operator over all reports -/
def rewardsOver (reports : List ChainReport) (noId : NodeOperatorId) : RewardsShares :=
  (reports.map fun r => r.input.rewardsOf noId).sum

def HadLeaf (reports : List ChainReport) (noId : NodeOperatorId) : Prop :=
  ∃ r ∈ reports, ∃ tree, r.report.rewardsTree = some tree ∧ noId ∈ tree.values.map Prod.fst

/-- Every leaf but the stone belongs to an operator. -/
def realOperators (leaves : List RewardsTreeLeaf) : List NodeOperatorId :=
  (leaves.map Prod.fst).filter (· ≠ MAX_OPERATORS_COUNT)

/-- A tree from which everyone can claim what the reports gave -/
structure Claimable (reports : List ChainReport) (leaves : List RewardsTreeLeaf) : Prop where
  two_le_length : 2 ≤ leaves.length
  sorted : leaves.Pairwise fun leaf leaf' => leaf.1 < leaf'.1
  operator : ∀ noId ≠ MAX_OPERATORS_COUNT, HadLeaf reports noId → (noId, rewardsOver reports noId) ∈ leaves
  stone : (MAX_OPERATORS_COUNT, 0) ∈ leaves ↔ (realOperators leaves).length = 1
  real : ∀ leaf ∈ leaves, leaf.1 < MAX_OPERATORS_COUNT ∨ leaf = (MAX_OPERATORS_COUNT, 0)

/-! One report -/

section Distribution

variable {result result' : DistributionResult}

theorem addFrame_eq_ok {frame : FrameDistribution} (h : result.addFrame frame = .ok result') :
    result'.totalRewardsMap = result.totalRewardsMap.addAll frame.rewardsMap.entries := by
  unfold DistributionResult.addFrame at h
  obtain ⟨-, -, h⟩ := Except.bind_eq_ok.mp h
  cases h
  rfl

/-- The map after some frames holds their operators and sums up their rewards. -/
theorem foldlM_addFrame {frames : List FrameDistribution} (h : frames.foldlM DistributionResult.addFrame result = .ok result')
    (hempty : result.totalRewardsMap = Dict.empty) (noId : NodeOperatorId) :
    (noId ∈ result'.totalRewardsMap ↔ ∃ frame ∈ frames, noId ∈ frame.rewardsMap) ∧
      result'.totalRewardsMap.totalAt noId = (frames.map fun frame => frame.rewardsMap.totalAt noId).sum := by
  refine ExceptRun.foldlM_invariant (fun done (r : DistributionResult) =>
    (noId ∈ r.totalRewardsMap ↔ ∃ frame ∈ done, noId ∈ frame.rewardsMap) ∧
      r.totalRewardsMap.totalAt noId = (done.map fun frame => frame.rewardsMap.totalAt noId).sum) ?_ ?_ h
  · intro done frame r r' hr hstep
    rw [addFrame_eq_ok hstep]
    constructor
    · rw [Dict.mem_addAll, hr.1]
      simp only [List.mem_append, List.mem_singleton, or_and_right, exists_or, exists_eq_left]
      rfl
    · rw [Dict.totalAt_addAll, hr.2, Dict.amountAt_entries, List.map_append, List.sum_append, List.map_singleton,
        List.sum_singleton]
  · rw [hempty]
    constructor
    · exact ⟨fun h => absurd h List.not_mem_nil, fun h => absurd h (by simp)⟩
    · rfl

end Distribution

section Calculate

variable {services : Services} {input : ReportInput} {lastReport : LastReport} {distribution : DistributionResult}

/-- What a distribution leaves for every operator: its rewards on top of its leaf in the last tree. -/
theorem calculate_eq_ok (h : calculate services input lastReport = .ok distribution) :
    ∃ leaves, lastReport.rewards services.rewards = .ok leaves ∧
      (∀ noId, (noId ∈ distribution.totalRewardsMap ↔
          (∃ frame ∈ input.frames, noId ∈ frame.rewardsMap) ∨ noId ∈ leaves.map Prod.fst) ∧
        distribution.totalRewardsMap.totalAt noId = input.rewardsOf noId + Dict.amountAt leaves noId) ∧
      (distribution.totalRewards = 0 ↔ ∀ noId, input.rewardsOf noId = 0) := by
  unfold calculate at h
  obtain ⟨lastStrikes, -, h⟩ := Except.bind_eq_ok.mp h
  obtain ⟨result, hresult, h⟩ := Except.bind_eq_ok.mp h
  obtain ⟨hsum, h⟩ := Except.guard_eq_ok.mp h
  obtain ⟨leaves, hleaves, h⟩ := Except.bind_eq_ok.mp h
  cases h
  rw [Py.lift_eq_ok] at hresult
  have hframes := foldlM_addFrame hresult rfl
  refine ⟨leaves, hleaves, fun noId => ⟨?_, ?_⟩, ?_⟩
  · rw [Dict.mem_addAll, (hframes noId).1]
  · rw [Dict.totalAt_addAll, (hframes noId).2]
    rfl
  · rw [not_not.mp hsum, Dict.sum_values_eq_zero_iff]
    exact forall_congr' fun noId => by rw [(hframes noId).2]; rfl

end Calculate

section Stone

variable {shares : Dict NodeOperatorId RewardsShares}

theorem length_keys (shares : Dict NodeOperatorId RewardsShares) :
    shares.keys.length = (shares.keys.filter (· ≠ MAX_OPERATORS_COUNT)).length +
      if MAX_OPERATORS_COUNT ∈ shares then 1 else 0 := by
  have hfilter : shares.keys.filter (· ≠ MAX_OPERATORS_COUNT) = shares.keys.erase MAX_OPERATORS_COUNT := by
    rw [shares.keys_nodup.erase_eq_filter]
    refine List.filter_congr fun noId _ => ?_
    simp [bne, BEq.beq]
  rw [hfilter]
  split_ifs with hstone
  · rw [List.length_erase_of_mem hstone]
    have hpos : 0 < shares.keys.length := List.length_pos_of_mem hstone
    omega
  · rw [List.erase_of_not_mem hstone]
    rfl

/-- What happens to the stone, by the number of operators -/
theorem withStone_cases (hreal : ∃ noId ≠ MAX_OPERATORS_COUNT, noId ∈ shares) :
    ((shares.keys.filter (· ≠ MAX_OPERATORS_COUNT)).length = 1 ∧ MAX_OPERATORS_COUNT ∉ shares ∧
        withStone shares = shares.set MAX_OPERATORS_COUNT 0) ∨
      ((shares.keys.filter (· ≠ MAX_OPERATORS_COUNT)).length = 1 ∧ MAX_OPERATORS_COUNT ∈ shares ∧
        withStone shares = shares) ∨
      (2 ≤ (shares.keys.filter (· ≠ MAX_OPERATORS_COUNT)).length ∧
        withStone shares = shares.erase MAX_OPERATORS_COUNT) := by
  have hlength := length_keys shares
  have hpos : 0 < (shares.keys.filter (· ≠ MAX_OPERATORS_COUNT)).length := by
    obtain ⟨noId, hne, hmem⟩ := hreal
    exact List.length_pos_of_mem (List.mem_filter.mpr ⟨hmem, decide_eq_true hne⟩)
  by_cases hone : shares.keys.length = 1
  · have hstone : MAX_OPERATORS_COUNT ∉ shares := by
      intro hstone
      rw [if_pos hstone] at hlength
      omega
    rw [if_neg hstone] at hlength
    refine Or.inl ⟨by omega, hstone, ?_⟩
    have hset : (shares.set MAX_OPERATORS_COUNT 0).keys.length = 2 := by
      rw [Dict.keys_set_of_not_mem hstone, List.length_append, hone]
      rfl
    unfold withStone
    dsimp only
    rw [if_pos hone, hset, if_neg fun h => absurd h.1 (lt_irrefl 2)]
  · have hsame : withStone shares =
        if shares.keys.length > 2 ∧ MAX_OPERATORS_COUNT ∈ shares then shares.erase MAX_OPERATORS_COUNT else shares := by
      unfold withStone
      dsimp only
      rw [if_neg hone]
    by_cases hstone : MAX_OPERATORS_COUNT ∈ shares
    · rw [if_pos hstone] at hlength
      by_cases htwo : shares.keys.length > 2
      · exact Or.inr (Or.inr ⟨by omega, by rw [hsame, if_pos ⟨htwo, hstone⟩]⟩)
      · exact Or.inr (Or.inl ⟨by omega, hstone, by rw [hsame, if_neg fun h => htwo h.1]⟩)
    · rw [if_neg hstone] at hlength
      refine Or.inr (Or.inr ⟨by omega, ?_⟩)
      rw [hsame, if_neg fun h => hstone h.2, Dict.erase_of_not_mem hstone]

/-- The leaves of a map with some operator in it and no rewards on the stone -/
theorem withStone_spec (hreal : ∃ noId ≠ MAX_OPERATORS_COUNT, noId ∈ shares)
    (hzero : shares.totalAt MAX_OPERATORS_COUNT = 0) :
    2 ≤ (withStone shares).keys.length ∧
      (∀ noId ≠ MAX_OPERATORS_COUNT, noId ∈ withStone shares ↔ noId ∈ shares) ∧
      (∀ noId, (withStone shares).totalAt noId = shares.totalAt noId) ∧
      (MAX_OPERATORS_COUNT ∈ withStone shares ↔
        ((withStone shares).keys.filter (· ≠ MAX_OPERATORS_COUNT)).length = 1) := by
  rcases withStone_cases hreal with ⟨hone, hstone, heq⟩ | ⟨hone, hstone, heq⟩ | ⟨htwo, heq⟩
  · have hkeys := Dict.keys_set_of_not_mem hstone 0
    rw [heq]
    refine ⟨?_, fun noId hne => ?_, fun noId => ?_, ?_⟩
    · rw [hkeys, List.length_append, length_keys, hone, if_neg hstone]
      rfl
    · rw [Dict.mem_set]
      exact or_iff_right hne
    · rw [Dict.totalAt_set]
      split_ifs with hkey
      · rw [hkey, hzero]
      · rfl
    · refine iff_of_true (Dict.mem_set.mpr (Or.inl rfl)) ?_
      rw [hkeys, List.filter_append, List.length_append, hone]
      simp
  · rw [heq]
    refine ⟨?_, fun noId _ => Iff.rfl, fun noId => rfl, iff_of_true hstone hone⟩
    rw [length_keys, hone, if_pos hstone]
  · have hkeys : (shares.erase MAX_OPERATORS_COUNT).keys.filter (· ≠ MAX_OPERATORS_COUNT) =
        shares.keys.filter (· ≠ MAX_OPERATORS_COUNT) := by
      rw [Dict.keys_erase, List.Nodup.erase_eq_filter shares.keys_nodup, List.filter_filter]
      refine List.filter_congr fun noId _ => ?_
      simp
    have hmem : ∀ noId, noId ∈ shares.erase MAX_OPERATORS_COUNT ↔ noId ≠ MAX_OPERATORS_COUNT ∧ noId ∈ shares := by
      intro noId
      rw [← Dict.mem_keys, Dict.keys_erase, shares.keys_nodup.mem_erase_iff, Dict.mem_keys]
    rw [heq]
    refine ⟨?_, fun noId hne => ?_, fun noId => ?_, ?_⟩
    · rw [length_keys, hkeys]
      omega
    · rw [hmem]
      exact and_iff_right hne
    · rw [Dict.totalAt_erase]
      split_ifs with hkey
      · rw [hkey, hzero]
      · rfl
    · rw [hkeys]
      exact iff_of_false (fun h => ((hmem _).mp h).1 rfl) (by omega)

end Stone

section Tree

variable {services : Services} {shares : Dict NodeOperatorId RewardsShares} {tree : Tree RewardsTreeLeaf}

/-- A tree holds the entries of the map, operators ascending, and can be made again from its values. -/
theorem makeRewardsTree_eq_ok (hfaithful : services.rewards.Faithful) (h : makeRewardsTree services shares = .ok tree) :
    services.rewards.standardMerkleTree tree.values = .ok tree ∧ tree.values.Perm (withStone shares).entries ∧
      tree.values.Pairwise fun leaf leaf' => leaf.1 < leaf'.1 := by
  unfold makeRewardsTree at h
  obtain ⟨-, h⟩ := Except.guard_eq_ok.mp h
  have hvalues : tree.values = Sorted.sortedBy Prod.fst (withStone shares).entries :=
    hfaithful.values_kept _ _ h
  rw [hvalues]
  exact ⟨h, Sorted.perm_sortedBy, Sorted.pairwise_lt_sortedBy (withStone shares).nodupKeys⟩

end Tree

section LastReport

variable {services : Services} {contracts : LastReportContracts} {currentFrame : FrameNumber} {lastReport : LastReport}

theorem getTreeCid_eq_some {treeCid cid : CID} : getTreeCid treeCid = some cid ↔ treeCid ≠ "" ∧ treeCid = cid := by
  unfold getTreeCid
  split_ifs with h
  · simp [h]
  · simp [h]

theorem getTreeCid_getD (treeCid : CID) : (getTreeCid treeCid).getD "" = treeCid := by
  unfold getTreeCid
  split_ifs with h
  · exact h.symm
  · rfl

theorem load_eq_ok (h : LastReport.load contracts currentFrame = .ok lastReport) :
    lastReport.rewardsTreeRoot = contracts.rewardsTreeRoot ∧
      lastReport.rewardsTreeCid = getTreeCid contracts.rewardsTreeCid ∧
      (getTreeCid contracts.rewardsTreeCid = none ↔ contracts.rewardsTreeRoot = ZERO_HASH) := by
  unfold LastReport.load at h
  obtain ⟨hrewards, h⟩ := Except.guard_eq_ok.mp h
  obtain ⟨-, h⟩ := Except.guard_eq_ok.mp h
  cases h
  refine ⟨rfl, rfl, ?_⟩
  rw [Bool.not_eq_true, bne_eq_false_iff_eq, Bool.eq_iff_iff, beq_iff_eq, beq_iff_eq] at hrewards
  exact hrewards

/-- The contracts stand at a published tree with these leaves, or at no tree. -/
def Carried (services : Services) (contracts : LastReportContracts) (leaves : List RewardsTreeLeaf) : Prop :=
  (contracts.rewardsTreeCid = "" ∧ leaves = []) ∨
    ∃ tree, services.rewards.standardMerkleTree tree.values = .ok tree ∧
      services.rewards.publish tree = .ok contracts.rewardsTreeCid ∧
      contracts.rewardsTreeRoot = tree.root ∧ tree.values = leaves

/-- What the next report reads is what was published. -/
theorem rewards_of_carried {leaves read : List RewardsTreeLeaf} (hfaithful : services.rewards.Faithful)
    (hcarried : Carried services contracts leaves) (hload : LastReport.load contracts currentFrame = .ok lastReport)
    (h : lastReport.rewards services.rewards = .ok read) : read = leaves := by
  obtain ⟨hroot, hcid, hnone⟩ := load_eq_ok hload
  unfold LastReport.rewards LastReport.readTree at h
  rw [hroot, hcid] at h
  rcases hcarried with ⟨hempty, hleaves⟩ | ⟨tree, htree, hpublish, hrootEq, hleaves⟩
  · rw [hempty] at h
    cases h
    exact hleaves.symm
  · have hne : contracts.rewardsTreeCid ≠ "" := fun hempty => hfaithful.publish_ne tree (hempty ▸ hpublish)
    rw [getTreeCid_eq_some.mpr ⟨hne, rfl⟩] at h hnone
    have hzero : contracts.rewardsTreeRoot ≠ ZERO_HASH := fun hzero => absurd (hnone.mpr hzero) (Option.some_ne_none _)
    dsimp only at h
    rw [if_neg hzero] at h
    obtain ⟨fetched, hfetch, h⟩ := Except.bind_eq_ok.mp h
    obtain ⟨-, h⟩ := Except.guard_eq_ok.mp h
    cases h
    rw [hfaithful.fetch_publish _ _ _ _ htree hpublish hfetch, hleaves]

end LastReport

section Build

variable {services : Services} {contracts : LastReportContracts} {input : ReportInput} {report : BuiltReport}

/-- A report either publishes a tree or carries the last root and CID on. -/
theorem buildReport_eq_ok (h : buildReport services contracts input = .ok report) :
    ∃ lastReport distribution, LastReport.load contracts input.currentFrame = .ok lastReport ∧
      calculate services input lastReport = .ok distribution ∧ report.data.distributed = distribution.totalRewards ∧
      ((distribution.totalRewards = 0 ∧ report.rewardsTree = none ∧
          report.data.treeRoot = contracts.rewardsTreeRoot ∧ report.data.treeCid = contracts.rewardsTreeCid) ∨
        (distribution.totalRewards ≠ 0 ∧ ∃ tree, makeRewardsTree services distribution.totalRewardsMap = .ok tree ∧
          report.rewardsTree = some tree ∧ report.data.treeRoot = tree.root ∧
          services.rewards.publish tree = .ok report.data.treeCid)) := by
  unfold buildReport at h
  obtain ⟨lastReport, hload, h⟩ := Except.bind_eq_ok.mp h
  obtain ⟨distribution, hcalculate, h⟩ := Except.bind_eq_ok.mp h
  obtain ⟨rewards, hrewards, h⟩ := Except.bind_eq_ok.mp h
  obtain ⟨strikes, -, h⟩ := Except.bind_eq_ok.mp h
  cases h
  refine ⟨lastReport, distribution, hload, hcalculate, rfl, ?_⟩
  obtain ⟨hroot, hcid, -⟩ := load_eq_ok hload
  unfold reportRewards at hrewards
  by_cases hnothing : distribution.totalRewards = 0
  · rw [if_pos hnothing] at hrewards
    cases hrewards
    refine Or.inl ⟨hnothing, rfl, hroot, ?_⟩
    dsimp only
    rw [hcid, getTreeCid_getD]
  · rw [if_neg hnothing] at hrewards
    obtain ⟨tree, htree, hrewards⟩ := Except.bind_eq_ok.mp hrewards
    obtain ⟨cid, hpublish, hrewards⟩ := Except.bind_eq_ok.mp hrewards
    cases hrewards
    exact Or.inr ⟨hnothing, tree, htree, rfl, rfl, hpublish⟩

end Build

/-! Over the chain -/

section Chain

variable {services : Services} {reports : List ChainReport} {contracts : LastReportContracts} {input : ReportInput}
  {report : BuiltReport} {leaves : List RewardsTreeLeaf}

/-- The leaves are the operators that ever had one, with what the reports gave them so far. -/
structure Accounted (reports : List ChainReport) (leaves : List RewardsTreeLeaf) : Prop where
  nodup : (leaves.map Prod.fst).Nodup
  hadLeaf : ∀ noId ≠ MAX_OPERATORS_COUNT, HadLeaf reports noId ↔ noId ∈ leaves.map Prod.fst
  amount : ∀ noId ≠ MAX_OPERATORS_COUNT, Dict.amountAt leaves noId = rewardsOver reports noId
  stone : Dict.amountAt leaves MAX_OPERATORS_COUNT = 0
  le : ∀ noId ∈ leaves.map Prod.fst, noId ≤ MAX_OPERATORS_COUNT

theorem accounted_nil : Accounted [] [] where
  nodup := List.nodup_nil
  hadLeaf _ _ := by simp [HadLeaf]
  amount _ _ := rfl
  stone := rfl
  le _ h := absurd h List.not_mem_nil

theorem rewardsOver_append (noId : NodeOperatorId) :
    rewardsOver (reports ++ [⟨input, report⟩]) noId = rewardsOver reports noId + input.rewardsOf noId := by
  rw [rewardsOver, List.map_append, List.sum_append, List.map_singleton, List.sum_singleton]
  rfl

theorem hadLeaf_append (noId : NodeOperatorId) :
    HadLeaf (reports ++ [⟨input, report⟩]) noId ↔
      HadLeaf reports noId ∨ ∃ tree, report.rewardsTree = some tree ∧ noId ∈ tree.values.map Prod.fst := by
  simp only [HadLeaf, List.mem_append, List.mem_singleton, or_and_right, exists_or, exists_eq_left]

theorem rewardsOf_stone (hids : input.OfOperators) : input.rewardsOf MAX_OPERATORS_COUNT = 0 := by
  refine List.sum_eq_zero fun x hx => ?_
  obtain ⟨frame, hframe, rfl⟩ := List.mem_map.mp hx
  exact Dict.totalAt_of_not_mem fun h => lt_irrefl _ (hids frame hframe _ h)

/-- A report without rewards leaves the accounts as they are. -/
theorem Accounted.carry (h : Accounted reports leaves) (hnothing : ∀ noId, input.rewardsOf noId = 0)
    (hnone : report.rewardsTree = none) : Accounted (reports ++ [⟨input, report⟩]) leaves where
  nodup := h.nodup
  hadLeaf noId hne := by
    rw [hadLeaf_append, hnone, ← h.hadLeaf noId hne]
    simp
  amount noId hne := by
    rw [rewardsOver_append, hnothing, add_zero, h.amount noId hne]
  stone := h.stone
  le := h.le

/-- A new tree accounts for the rewards of its report, and everyone can claim from it. -/
theorem Accounted.publish {shares : Dict NodeOperatorId RewardsShares} {tree : Tree RewardsTreeLeaf}
    (h : Accounted reports leaves) (hfaithful : services.rewards.Faithful) (hids : input.OfOperators)
    (hshares : ∀ noId, (noId ∈ shares ↔
        (∃ frame ∈ input.frames, noId ∈ frame.rewardsMap) ∨ noId ∈ leaves.map Prod.fst) ∧
      shares.totalAt noId = input.rewardsOf noId + Dict.amountAt leaves noId)
    (hsome : ∃ noId, input.rewardsOf noId ≠ 0) (htree : makeRewardsTree services shares = .ok tree)
    (hreport : report.rewardsTree = some tree) :
    Accounted (reports ++ [⟨input, report⟩]) tree.values ∧ Claimable (reports ++ [⟨input, report⟩]) tree.values := by
  obtain ⟨-, hperm, hsorted⟩ := makeRewardsTree_eq_ok hfaithful htree
  have hstoneZero : shares.totalAt MAX_OPERATORS_COUNT = 0 := by
    rw [(hshares _).2, rewardsOf_stone hids, h.stone]
  have hreal : ∃ noId ≠ MAX_OPERATORS_COUNT, noId ∈ shares := by
    obtain ⟨noId, hrewards⟩ := hsome
    refine ⟨noId, fun heq => hrewards (heq ▸ rewardsOf_stone hids), ?_⟩
    by_contra hmem
    have hzero := Dict.totalAt_of_not_mem hmem
    rw [(hshares noId).2] at hzero
    exact hrewards (Nat.eq_zero_of_add_eq_zero_right hzero)
  obtain ⟨htwo, hoperators, htotals, hstone⟩ := withStone_spec hreal hstoneZero
  have hkeys : (tree.values.map Prod.fst).Perm (withStone shares).keys := hperm.map _
  have hmem : ∀ noId, noId ∈ tree.values.map Prod.fst ↔ noId ∈ withStone shares := fun noId => hkeys.mem_iff
  have hamount : ∀ noId, Dict.amountAt tree.values noId = input.rewardsOf noId + Dict.amountAt leaves noId := by
    intro noId
    rw [Dict.amountAt_perm hperm, Dict.amountAt_entries, htotals, (hshares noId).2]
  have hlt : ∀ noId ≠ MAX_OPERATORS_COUNT, noId ∈ tree.values.map Prod.fst → noId < MAX_OPERATORS_COUNT := by
    intro noId hne hleaf
    rcases (hshares noId).1.mp ((hoperators noId hne).mp ((hmem noId).mp hleaf)) with ⟨frame, hframe, hin⟩ | hold
    · exact hids frame hframe noId hin
    · exact lt_of_le_of_ne (h.le noId hold) hne
  have hzero : Dict.amountAt tree.values MAX_OPERATORS_COUNT = 0 := by
    rw [hamount, rewardsOf_stone hids, h.stone]
  have haccounted : Accounted (reports ++ [⟨input, report⟩]) tree.values := by
    refine ⟨hkeys.nodup_iff.mpr (withStone shares).keys_nodup, fun noId hne => ?_, fun noId hne => ?_, hzero,
      fun noId hleaf => ?_⟩
    · rw [hadLeaf_append, hreport, h.hadLeaf noId hne]
      constructor
      · rintro (hold | ⟨tree', htree', hleaf⟩)
        · exact (hmem noId).mpr ((hoperators noId hne).mpr ((hshares noId).1.mpr (Or.inr hold)))
        · cases htree'
          exact hleaf
      · exact fun hleaf => Or.inr ⟨tree, rfl, hleaf⟩
    · rw [hamount, rewardsOver_append, h.amount noId hne, add_comm]
    · by_cases hne : noId = MAX_OPERATORS_COUNT
      · exact hne.le
      · exact (hlt noId hne hleaf).le
  have hown : ∀ leaf ∈ tree.values, leaf.2 = Dict.amountAt tree.values leaf.1 :=
    fun leaf hleaf => (Dict.amountAt_of_nodup haccounted.nodup hleaf).symm
  have hleafOf : ∀ noId ∈ tree.values.map Prod.fst, (noId, Dict.amountAt tree.values noId) ∈ tree.values := by
    intro noId hin
    obtain ⟨leaf, hleaf, rfl⟩ := List.mem_map.mp hin
    rw [← hown leaf hleaf]
    exact hleaf
  refine ⟨haccounted, ?_, hsorted, fun noId hne hleaf => ?_, ?_, fun leaf hleaf => ?_⟩
  · rw [hperm.length_eq, ← List.length_map (f := Prod.fst)]
    exact htwo
  · rw [← haccounted.amount noId hne]
    exact hleafOf noId ((haccounted.hadLeaf noId hne).mp hleaf)
  · rw [realOperators, (hkeys.filter _).length_eq, ← hstone, ← hmem]
    constructor
    · exact fun hin => List.mem_map_of_mem hin
    · intro hin
      rw [← hzero]
      exact hleafOf _ hin
  · by_cases hne : leaf.1 = MAX_OPERATORS_COUNT
    · refine Or.inr (Prod.ext hne ?_)
      rw [hown leaf hleaf, hne, hzero]
    · exact Or.inl (hlt leaf.1 hne (List.mem_map_of_mem hleaf))

/-- One more report -/
theorem buildReport_accounted (hfaithful : services.rewards.Faithful) (hcarried : Carried services contracts leaves)
    (haccounted : Accounted reports leaves) (hids : input.OfOperators)
    (h : buildReport services contracts input = .ok report) :
    (∃ leaves', Carried services report.data.accepted leaves' ∧
      Accounted (reports ++ [⟨input, report⟩]) leaves') ∧
    (∀ tree, report.rewardsTree = some tree → Claimable (reports ++ [⟨input, report⟩]) tree.values ∧
      services.rewards.standardMerkleTree tree.values = .ok tree ∧ report.data.treeRoot = tree.root ∧
      services.rewards.publish tree = .ok report.data.treeCid) ∧
    (report.rewardsTree = none ↔ report.data.distributed = 0) ∧
    (report.data.distributed = 0 → report.data.treeRoot = contracts.rewardsTreeRoot ∧
      report.data.treeCid = contracts.rewardsTreeCid) := by
  obtain ⟨lastReport, distribution, hload, hcalculate, hdistributed, hcases⟩ := buildReport_eq_ok h
  obtain ⟨read, hread, hshares, hzero⟩ := calculate_eq_ok hcalculate
  have hreadEq := rewards_of_carried hfaithful hcarried hload hread
  subst hreadEq
  rw [hdistributed]
  rcases hcases with ⟨hnothing, hnone, hroot, hcid⟩ | ⟨hsomething, tree, htree, hreport, hroot, hpublish⟩
  · refine ⟨⟨read, ?_, haccounted.carry (hzero.mp hnothing) hnone⟩, ?_, iff_of_true hnone hnothing,
      fun _ => ⟨hroot, hcid⟩⟩
    · unfold Carried ReportData.accepted
      dsimp only
      rw [hroot, hcid]
      exact hcarried
    · intro tree hsome
      rw [hnone] at hsome
      cases hsome
  · have hsome : ∃ noId, input.rewardsOf noId ≠ 0 := not_forall.mp fun hall => hsomething (hzero.mpr hall)
    obtain ⟨hnew, hclaimable⟩ := haccounted.publish hfaithful hids hshares hsome htree hreport
    have hmade := (makeRewardsTree_eq_ok hfaithful htree).1
    refine ⟨⟨tree.values, Or.inr ⟨tree, hmade, hpublish, hroot, rfl⟩, hnew⟩, ?_,
      iff_of_false (by rw [hreport]; exact Option.some_ne_none _) hsomething, fun hnothing => absurd hnothing hsomething⟩
    intro tree' htree'
    rw [hreport] at htree'
    cases htree'
    exact ⟨hclaimable, hmade, hroot, hpublish⟩

theorem reportChain_accounted (hfaithful : services.rewards.Faithful) (h : ReportChain services reports contracts)
    (hids : ∀ r ∈ reports, r.input.OfOperators) :
    ∃ leaves, Carried services contracts leaves ∧ Accounted reports leaves := by
  induction h with
  | nil => exact ⟨[], Or.inl ⟨rfl, rfl⟩, accounted_nil⟩
  | snoc hchain hreport ih =>
    obtain ⟨leaves, hcarried, haccounted⟩ := ih fun r hr => hids r (List.mem_append_left _ hr)
    have hinput := hids _ (List.mem_append_right _ (List.mem_singleton_self _))
    exact (buildReport_accounted hfaithful hcarried haccounted hinput hreport).1

/-- After any chain of reports, the next one publishes a tree from which everyone can claim what the reports
gave; a report that distributes nothing makes no tree and keeps the root and the CID. -/
theorem reportChain_claimable (hfaithful : services.rewards.Faithful) (hchain : ReportChain services reports contracts)
    (hreport : buildReport services contracts input = .ok report)
    (hids : ∀ r ∈ reports ++ [⟨input, report⟩], r.input.OfOperators) :
    (∀ tree, report.rewardsTree = some tree → Claimable (reports ++ [⟨input, report⟩]) tree.values ∧
      services.rewards.standardMerkleTree tree.values = .ok tree ∧ report.data.treeRoot = tree.root ∧
      services.rewards.publish tree = .ok report.data.treeCid) ∧
    (report.rewardsTree = none ↔ report.data.distributed = 0) ∧
    (report.data.distributed = 0 → report.data.treeRoot = contracts.rewardsTreeRoot ∧
      report.data.treeCid = contracts.rewardsTreeCid) := by
  obtain ⟨leaves, hcarried, haccounted⟩ :=
    reportChain_accounted hfaithful hchain fun r hr => hids r (List.mem_append_left _ hr)
  have hinput := hids _ (List.mem_append_right _ (List.mem_singleton_self _))
  exact (buildReport_accounted hfaithful hcarried haccounted hinput hreport).2

/-- Two trees: one operator with the stone, and two operators without it -/
def sampleTrees : List (Tree RewardsTreeLeaf × CID) :=
  [(⟨[1], [(3, 7), (MAX_OPERATORS_COUNT, 0)]⟩, "QmOne"), (⟨[2], [(3, 7), (5, 4)]⟩, "QmTwo")]

def sampleServices : Services where
  rewards := {
    standardMerkleTree := fun values =>
      match sampleTrees.find? fun t => t.1.values = values with
      | some t => .ok t.1
      | none => .error (.raised .standardMerkleTree)
    publish := fun tree =>
      match sampleTrees.find? fun t => t.1 = tree with
      | some t => .ok t.2
      | none => .error (.raised .ipfs)
    fetch := fun cid _ =>
      match sampleTrees.find? fun t => t.2 = cid with
      | some t => .ok t.1
      | none => .error (.raised .ipfs) }
  strikes := {
    standardMerkleTree := fun _ => .error (.raised .standardMerkleTree)
    publish := fun _ => .error (.raised .ipfs)
    fetch := fun _ _ => .error (.raised .ipfs) }

theorem sampleServices_faithful : sampleServices.rewards.Faithful where
  values_kept values tree h := by
    unfold sampleServices at h
    dsimp only at h
    split at h
    · rename_i t ht
      cases h
      simpa using List.find?_some ht
    · cases h
  publish_ne tree h := by
    unfold sampleServices at h
    dsimp only at h
    split at h
    · rename_i t ht
      have hne : ∀ t ∈ sampleTrees, t.2 ≠ "" := by decide
      exact hne t (List.mem_of_find?_eq_some ht) (Except.ok.inj h)
    · cases h
  fetch_publish tree cid frame fetched _ hpublish hfetch := by
    unfold sampleServices at hpublish hfetch
    dsimp only at hpublish hfetch
    split at hpublish
    · rename_i t ht
      cases hpublish
      split at hfetch
      · rename_i t' ht'
        cases hfetch
        have hcid : t'.2 = t.2 := by simpa using List.find?_some ht'
        have htree : t.1 = tree := by simpa using List.find?_some ht
        have hinj : ∀ t ∈ sampleTrees, ∀ t' ∈ sampleTrees, t'.2 = t.2 → t' = t := by decide
        rw [hinj t (List.mem_of_find?_eq_some ht) t' (List.mem_of_find?_eq_some ht') hcid, htree]
      · cases hfetch
    · cases hpublish

/-- A report with one frame, in which one operator is rewarded -/
def sampleInput (noId : NodeOperatorId) (shares : RewardsShares) : ReportInput where
  consensusVersion := 3
  refSlot := 100
  currentFrame := 1
  frames := [⟨shares, Dict.ofList [(noId, shares)], shares, 0⟩]
  processStrikes := id
  logCid := "QmLog"

theorem sampleInput_ofOperators {noId : NodeOperatorId} (h : noId < MAX_OPERATORS_COUNT) (shares : RewardsShares) :
    (sampleInput noId shares).OfOperators := by
  intro frame hframe noId' hin
  rw [List.mem_singleton.mp hframe] at hin
  rw [List.mem_singleton.mp hin]
  exact h

def sampleReport (shares : RewardsShares) (tree : Tree RewardsTreeLeaf) (cid : CID) : BuiltReport where
  data := ⟨3, 100, tree.root, cid, "QmLog", shares, 0, ZERO_HASH, ""⟩
  rewardsTree := some tree

theorem reportChain_claimable_sample :
    Claimable [⟨sampleInput 3 7, sampleReport 7 ⟨[1], [(3, 7), (MAX_OPERATORS_COUNT, 0)]⟩ "QmOne"⟩,
      ⟨sampleInput 5 4, sampleReport 4 ⟨[2], [(3, 7), (5, 4)]⟩ "QmTwo"⟩] [(3, 7), (5, 4)] := by
  have hchain : ReportChain sampleServices
      ([] ++ [⟨sampleInput 3 7, sampleReport 7 ⟨[1], [(3, 7), (MAX_OPERATORS_COUNT, 0)]⟩ "QmOne"⟩])
      (sampleReport 7 ⟨[1], [(3, 7), (MAX_OPERATORS_COUNT, 0)]⟩ "QmOne").data.accepted :=
    ReportChain.snoc ReportChain.nil rfl
  have hreport : buildReport sampleServices
      (sampleReport 7 ⟨[1], [(3, 7), (MAX_OPERATORS_COUNT, 0)]⟩ "QmOne").data.accepted (sampleInput 5 4) =
      .ok (sampleReport 4 ⟨[2], [(3, 7), (5, 4)]⟩ "QmTwo") := rfl
  refine ((reportChain_claimable sampleServices_faithful hchain hreport fun r hr => ?_).1 _ rfl).1
  rcases List.mem_pair.mp hr with rfl | rfl
  · exact sampleInput_ofOperators (by decide) 7
  · exact sampleInput_ofOperators (by decide) 4

end Chain

end StakingModules

end LidoOracle
