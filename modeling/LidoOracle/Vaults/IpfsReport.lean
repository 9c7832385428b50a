import LidoOracle.Consensus.Web3Converter
import LidoOracle.Lib.Decimal
import LidoOracle.Lib.Json
import LidoOracle.Vaults.Types

/-! The report on staking vaults as it is published and as it is read back.
The leaves of its tree are positional tuples whose numbers are written as text,
the fees behind a leaf stand beside the tree under names in camel case. -/

namespace LidoOracle

namespace StakingVaultsService

/-- Vault address, total value, fee, liability shares, maximal liability shares, slashing reserve -/
abbrev VaultTreeNode := ChecksumAddress × ℤ × ℤ × Shares × Shares × ℤ

abbrev VaultTotalValueMap := Dict ChecksumAddress ℤ
abbrev VaultReserveMap := Dict ChecksumAddress ℤ

structure VaultFee where
  infraFee : ℤ
  liquidityFee : ℤ
  reservationFee : ℤ
  prevFee : ℤ
  deriving DecidableEq

def VaultFee.total (fee : VaultFee) : ℤ := fee.prevFee + fee.infraFee + fee.liquidityFee + fee.reservationFee

abbrev VaultFeeMap := Dict ChecksumAddress VaultFee

inductive PublishError where
  | notInTotalValues (vaultAddress : ChecksumAddress)
  | notInVaultsFees (vaultAddress : ChecksumAddress)
  | standardMerkleTree
  deriving DecidableEq, Repr

abbrev Publishing := Py PublishError

def buildTreeNode (vaultsTotalValues : VaultTotalValueMap) (vaultsFees : VaultFeeMap)
    (vaultsSlashingReserve : VaultReserveMap) (vault : ChecksumAddress × VaultInfo) : Publishing VaultTreeNode := do
  if vault.1 ∉ vaultsTotalValues then throw (.raised (.notInTotalValues vault.1))
  if vault.1 ∉ vaultsFees then throw (.raised (.notInVaultsFees vault.1))
  let totalValue ← Py.getItem vaultsTotalValues vault.1
  let fee ← Py.getItem vaultsFees vault.1
  return (vault.1, totalValue, fee.total, vault.2.liabilityShares, vault.2.maxLiabilityShares,
    (vaultsSlashingReserve.get? vault.1).getD 0)

def buildTreeData (vaults : VaultsMap) (vaultsTotalValues : VaultTotalValueMap) (vaultsFees : VaultFeeMap)
    (vaultsSlashingReserve : VaultReserveMap) : Publishing (List VaultTreeNode) :=
  vaults.entries.mapM (buildTreeNode vaultsTotalValues vaultsFees vaultsSlashingReserve)

/-- What a tree gives away in a dump, apart from its values -/
structure TreeDump where
  format : String
  leafEncoding : List String
  tree : List (List UInt8)

/-- A tree, with its values and their places in it -/
structure MerkleTree where
  root : List UInt8
  values : List (VaultTreeNode × ℕ)
  dump : TreeDump

/-- The tree package: the name of its format, and the making of a tree from leaves under an encoding -/
structure TreePackage where
  FORMAT : String
  standardMerkleTree : List VaultTreeNode → List String → Publishing MerkleTree

/-- A tree keeps its values in order, and a dump has the format and the nodes, the root first. -/
structure TreePackage.Lawful (package : TreePackage) : Prop where
  values_kept : ∀ data encoding tree, package.standardMerkleTree data encoding = .ok tree →
    tree.values.map Prod.fst = data
  format_eq : ∀ data encoding tree, package.standardMerkleTree data encoding = .ok tree →
    tree.dump.format = package.FORMAT
  root_first : ∀ data encoding tree, package.standardMerkleTree data encoding = .ok tree →
    ∃ nodes, tree.dump.tree = tree.root :: nodes

/-- Trees with one root have the same leaves. -/
def TreePackage.RootInjective (package : TreePackage) : Prop :=
  ∀ data data' encoding tree tree', package.standardMerkleTree data encoding = .ok tree →
    package.standardMerkleTree data' encoding = .ok tree' → tree.root = tree'.root → data = data'

def leafEncoding : List String := ["address", "uint256", "uint256", "uint256", "uint256", "uint256"]

def getMerkleTree (package : TreePackage) (data : List VaultTreeNode) : Publishing MerkleTree :=
  package.standardMerkleTree data leafEncoding

inductive VaultTreeValueKey where
  | vaultAddress
  | totalValue
  | fee
  | liabilityShares
  | maxLiabilityShares
  | slashingReserve
  deriving DecidableEq

def VaultTreeValueKey.value : VaultTreeValueKey → String
  | .vaultAddress => "vaultAddress"
  | .totalValue => "totalValueWei"
  | .fee => "fee"
  | .liabilityShares => "liabilityShares"
  | .maxLiabilityShares => "maxLiabilityShares"
  | .slashingReserve => "slashingReserve"

inductive VaultTreeValueIndex where
  | vaultAddress
  | totalValueWei
  | fee
  | liabilityShares
  | maxLiabilityShares
  | slashingReserve
  deriving DecidableEq

def VaultTreeValueIndex.value : VaultTreeValueIndex → ℕ
  | .vaultAddress => 0
  | .totalValueWei => 1
  | .fee => 2
  | .liabilityShares => 3
  | .maxLiabilityShares => 4
  | .slashingReserve => 5

structure MerkleValue where
  vaultAddress : ChecksumAddress
  totalValueWei : ℤ
  fee : ℤ
  liabilityShares : ℤ
  maxLiabilityShares : ℤ
  slashingReserve : ℤ
  deriving DecidableEq

def MerkleValue.leafIndexToData : Dict VaultTreeValueKey VaultTreeValueIndex :=
  Dict.ofList [(.vaultAddress, .vaultAddress), (.totalValue, .totalValueWei), (.fee, .fee),
    (.liabilityShares, .liabilityShares), (.maxLiabilityShares, .maxLiabilityShares),
    (.slashingReserve, .slashingReserve)]

def MerkleValue.getTreeValueInd {χ : Type} (key : VaultTreeValueKey) : Py χ ℕ := do
  return (← Py.getItem leafIndexToData key).value

structure ExtraValue where
  inOutDelta : String
  prevFee : String
  infraFee : String
  liquidityFee : String
  reservationFee : String
  deriving DecidableEq

/-- `word.capitalize()` -/
def capitalize : List Char → List Char
  | [] => []
  | c :: word => c.toUpper :: word.map Char.toLower

def snakeToCamel (s : String) : String :=
  match s.toList.splitOn '_' with
  | [] => ""
  | part :: parts => String.ofList (part ++ (parts.map capitalize).flatten)

/-- `asdict`: the names of the fields, with their values -/
def ExtraValue.asdict (extra : ExtraValue) : List (String × String) :=
  [("in_out_delta", extra.inOutDelta), ("prev_fee", extra.prevFee), ("infra_fee", extra.infraFee),
    ("liquidity_fee", extra.liquidityFee), ("reservation_fee", extra.reservationFee)]

def ExtraValue.toCamelDict (extra : ExtraValue) : Dict String String :=
  Dict.ofList (extra.asdict.map fun e => (snakeToCamel e.1, e.2))

/-- The block a report is made for -/
structure ReportBlock where
  slotNumber : SlotNumber
  refSlot : SlotNumber
  blockHash : HexStr
  blockNumber : ℕ

/-- `f"0x{o.hex()}"` -/
def treeEncoder (o : List UInt8) : String := String.ofList ('0' :: 'x' :: Py.toHex o)

def stringifyValue (item : VaultTreeNode × ℕ) : Json :=
  let (vaultAddress, totalValue, fee, liabilityShares, maxLiabilityShares, slashingReserve) := item.1
  .dict [("value", .list (.str vaultAddress ::
      [totalValue, fee, liabilityShares, maxLiabilityShares, slashingReserve].map fun x => .str (Py.strOfInt x))),
    ("treeIndex", .int item.2)]

def stringifyValues (data : List (VaultTreeNode × ℕ)) : List Json := data.map stringifyValue

def extraOf (vaultInfo : VaultInfo) (fee : VaultFee) : ExtraValue where
  inOutDelta := Py.strOfInt vaultInfo.inOutDelta
  prevFee := Py.strOfInt fee.prevFee
  infraFee := Py.strOfInt fee.infraFee
  liquidityFee := Py.strOfInt fee.liquidityFee
  reservationFee := Py.strOfInt fee.reservationFee

def extraValueOf (vaultsFeeMap : VaultFeeMap) (vault : ChecksumAddress × VaultInfo) :
    Publishing (ChecksumAddress × Json) := do
  let fee ← Py.getItem vaultsFeeMap vault.1
  return (vault.1, .dict ((extraOf vault.2 fee).toCamelDict.entries.map fun e => (e.1, .str e.2)))

/-- The values of the dump are replaced by their text, so that they are not written out here a first time.
Bytes are already encoded. -/
def getDumpedTree (tree : MerkleTree) (vaults : VaultsMap) (bs : ReportBlock) (prevTreeCid : String)
    (chainConfig : ChainConfig) (vaultsFeeMap : VaultFeeMap) : Publishing (Dict String Json) := do
  let values := stringifyValues tree.values
  let extraValues ← vaults.entries.mapM (extraValueOf vaultsFeeMap)
  let output := Dict.ofList [
    ("format", .str tree.dump.format),
    ("leafEncoding", .list (tree.dump.leafEncoding.map .str)),
    ("tree", .list (tree.dump.tree.map fun node => .str (treeEncoder node))),
    ("values", .list []),
    ("refSlot", .int bs.refSlot),
    ("blockHash", .str bs.blockHash),
    ("blockNumber", .int bs.blockNumber),
    ("timestamp", .int (chainConfig.genesisTime + bs.slotNumber * chainConfig.secondsPerSlot)),
    ("extraValues", .dict extraValues),
    ("prevTreeCID", .str prevTreeCid),
    ("leafIndexToData", .dict (MerkleValue.leafIndexToData.entries.map fun e => (e.1.value, .int e.2.value)))]
  return output.set "values" (.list values)

inductive ParseError where
  | jsonDecodeError
  | typeError
  | invalidFormat
  deriving DecidableEq, Repr

abbrev Parsing := Py ParseError

structure StakingVaultIpfsReport where
  format : String
  leafEncoding : List String
  tree : List String
  values : List MerkleValue
  refSlot : ℤ
  blockNumber : ℤ
  blockHash : String
  timestamp : ℤ
  prevTreeCid : String
  extraValues : Dict ChecksumAddress ExtraValue

/-! Reading: `data[key]`, `data[index]` and `int(data)` on what a text holds. A field that is kept as it stands must
have the type of the record. -/

def item (data : Json) (key : String) : Parsing Json :=
  match data with
  | .dict entries =>
    match entries.find? fun e => e.1 = key with
    | some e => .ok e.2
    | none => .error .keyError
  | _ => .error (.raised .typeError)

def listItem (data : Json) (index : ℕ) : Parsing Json :=
  match data with
  | .list items => Py.listItem items index
  | _ => .error (.raised .typeError)

def asStr : Json → Parsing String
  | .str s => .ok s
  | _ => .error (.raised .typeError)

def asInt : Json → Parsing ℤ
  | .int n => .ok n
  | _ => .error (.raised .typeError)

def asList : Json → Parsing (List Json)
  | .list items => .ok items
  | _ => .error (.raised .typeError)

def asDict : Json → Parsing (List (String × Json))
  | .dict entries => .ok entries
  | _ => .error (.raised .typeError)

/-- `int(data)` -/
def toInt : Json → Parsing ℤ
  | .str s => Py.intOfStr s
  | .int n => .ok n
  | .bool b => .ok b.toInt
  | _ => .error (.raised .typeError)

/-- `data.get(key, {})` -/
def itemOrEmpty (data : Json) (key : String) : Parsing Json :=
  match data with
  | .dict entries =>
    match entries.find? fun e => e.1 = key with
    | some e => .ok e.2
    | none => .ok (.dict [])
  | _ => .error (.raised .typeError)

def parseValue (entry : Json) : Parsing MerkleValue := do
  let vaultAddressIndex ← MerkleValue.getTreeValueInd .vaultAddress
  let totalValueIndex ← MerkleValue.getTreeValueInd .totalValue
  let feeIndex ← MerkleValue.getTreeValueInd .fee
  let liabilitySharesIndex ← MerkleValue.getTreeValueInd .liabilityShares
  let maxLiabilitySharesIndex ← MerkleValue.getTreeValueInd .maxLiabilityShares
  let slashingReserveIndex ← MerkleValue.getTreeValueInd .slashingReserve
  let value ← item entry "value"
  return {
    vaultAddress := ← asStr (← listItem value vaultAddressIndex)
    totalValueWei := ← toInt (← listItem value totalValueIndex)
    fee := ← toInt (← listItem value feeIndex)
    liabilityShares := ← toInt (← listItem value liabilitySharesIndex)
    maxLiabilityShares := ← toInt (← listItem value maxLiabilitySharesIndex)
    slashingReserve := ← toInt (← listItem value slashingReserveIndex) }

def parseExtraValue (e : String × Json) : Parsing (ChecksumAddress × ExtraValue) := do
  return (e.1, {
    inOutDelta := ← asStr (← item e.2 "inOutDelta")
    prevFee := ← asStr (← item e.2 "prevFee")
    infraFee := ← asStr (← item e.2 "infraFee")
    liquidityFee := ← asStr (← item e.2 "liquidityFee")
    reservationFee := ← asStr (← item e.2 "reservationFee") })

def parseMerkleTreeData (package : TreePackage) (text : Json.Text) (rawBytes : List UInt8) :
    Parsing StakingVaultIpfsReport := do
  let data ← (match text.loads rawBytes with
    | some data => pure data
    | none => throw (.raised .jsonDecodeError))
  let format ← asStr (← item data "format")
  if format ≠ package.FORMAT then throw (.raised .invalidFormat)
  let values ← (← asList (← item data "values")).mapM parseValue
  let extraValues ← (← asDict (← itemOrEmpty data "extraValues")).mapM parseExtraValue
  return {
    format := format
    leafEncoding := ← (← asList (← item data "leafEncoding")).mapM asStr
    tree := ← (← asList (← item data "tree")).mapM asStr
    values := values
    refSlot := ← asInt (← item data "refSlot")
    blockHash := ← asStr (← item data "blockHash")
    blockNumber := ← asInt (← item data "blockNumber")
    timestamp := ← asInt (← item data "timestamp")
    prevTreeCid := ← asStr (← item data "prevTreeCID")
    extraValues := Dict.ofList extraValues }

def MerkleValue.node (vault : MerkleValue) : VaultTreeNode :=
  (vault.vaultAddress, vault.totalValueWei, vault.fee, vault.liabilityShares, vault.maxLiabilityShares,
    vault.slashingReserve)

def isTreeRootValid (package : TreePackage) (expectedTreeRoot : String) (merkleTree : StakingVaultIpfsReport) :
    Publishing Bool := do
  let treeData := merkleTree.values.map MerkleValue.node
  let rebuildMerkleTree ← getMerkleTree package treeData
  let rootHex := treeEncoder rebuildMerkleTree.root
  let first ← Py.listItem merkleTree.tree 0
  return first == rootHex && rootHex == expectedTreeRoot

/-! Reading back what was written, one piece at a time -/

theorem getTreeValueInd_eq {χ : Type} (key : VaultTreeValueKey) :
    (MerkleValue.getTreeValueInd key : Py χ ℕ) = .ok (match key with
      | .vaultAddress => 0
      | .totalValue => 1
      | .fee => 2
      | .liabilityShares => 3
      | .maxLiabilityShares => 4
      | .slashingReserve => 5) := by
  cases key <;> rfl

theorem toCamelDict_entries (extra : ExtraValue) : extra.toCamelDict.entries =
    [("inOutDelta", extra.inOutDelta), ("prevFee", extra.prevFee), ("infraFee", extra.infraFee),
      ("liquidityFee", extra.liquidityFee), ("reservationFee", extra.reservationFee)] := by
  have hnames : extra.asdict.map (fun e => (snakeToCamel e.1, e.2)) =
      [("inOutDelta", extra.inOutDelta), ("prevFee", extra.prevFee), ("infraFee", extra.infraFee),
        ("liquidityFee", extra.liquidityFee), ("reservationFee", extra.reservationFee)] := by
    have hinOutDelta : snakeToCamel "in_out_delta" = "inOutDelta" := by decide
    have hprevFee : snakeToCamel "prev_fee" = "prevFee" := by decide
    have hinfraFee : snakeToCamel "infra_fee" = "infraFee" := by decide
    have hliquidityFee : snakeToCamel "liquidity_fee" = "liquidityFee" := by decide
    have hreservationFee : snakeToCamel "reservation_fee" = "reservationFee" := by decide
    simp only [ExtraValue.asdict, List.map_cons, List.map_nil, hinOutDelta, hprevFee, hinfraFee, hliquidityFee,
      hreservationFee]
  rw [ExtraValue.toCamelDict, hnames]
  exact Dict.entries_ofList (by simp only [List.map_cons, List.map_nil]; decide)

theorem parseExtraValue_toCamelDict (vault : ChecksumAddress) (extra : ExtraValue) :
    parseExtraValue (vault, .dict (extra.toCamelDict.entries.map fun e => (e.1, .str e.2))) = .ok (vault, extra) := by
  rw [toCamelDict_entries]
  rfl

def valueOf (node : VaultTreeNode) : MerkleValue where
  vaultAddress := node.1
  totalValueWei := node.2.1
  fee := node.2.2.1
  liabilityShares := node.2.2.2.1
  maxLiabilityShares := node.2.2.2.2.1
  slashingReserve := node.2.2.2.2.2

theorem parseValue_stringify (item : VaultTreeNode × ℕ) : parseValue (stringifyValue item) = .ok (valueOf item.1) := by
  obtain ⟨⟨vaultAddress, totalValue, fee, liabilityShares, maxLiabilityShares, slashingReserve⟩, treeIndex⟩ := item
  have hint : ∀ n : ℤ, toInt (.str (Py.strOfInt n)) = .ok n := fun n => Py.intOfStr_strOfInt n
  unfold parseValue stringifyValue
  simp only [getTreeValueInd_eq, Except.ok_bind]
  have hvalue : StakingVaultsService.item (.dict [("value", .list (.str vaultAddress ::
      [totalValue, fee, liabilityShares, maxLiabilityShares, slashingReserve].map fun x => .str (Py.strOfInt x))),
    ("treeIndex", .int treeIndex)]) "value" = .ok (.list (.str vaultAddress ::
      [totalValue, fee, liabilityShares, maxLiabilityShares, slashingReserve].map fun x => .str (Py.strOfInt x))) := rfl
  rw [hvalue]
  simp only [Except.ok_bind, listItem, List.map_cons, List.map_nil, Py.listItem, hint, asStr, List.getElem?_cons_zero, List.getElem?_cons_succ]
  rfl

section Report

variable {vaults : VaultsMap} {vaultsTotalValues : VaultTotalValueMap} {vaultsFees : VaultFeeMap}
  {vaultsSlashingReserve : VaultReserveMap}

/-- The leaf of a vault, from the total value and the fee that the maps have for it -/
def leafOf (vaultsTotalValues : VaultTotalValueMap) (vaultsFees : VaultFeeMap)
    (vaultsSlashingReserve : VaultReserveMap) (vault : ChecksumAddress × VaultInfo) : VaultTreeNode :=
  (vault.1, (vaultsTotalValues.get? vault.1).getD 0, ((vaultsFees.get? vault.1).getD ⟨0, 0, 0, 0⟩).total,
    vault.2.liabilityShares, vault.2.maxLiabilityShares, (vaultsSlashingReserve.get? vault.1).getD 0)

theorem buildTreeNode_eq_ok (vault : ChecksumAddress × VaultInfo) (node : VaultTreeNode) :
    buildTreeNode vaultsTotalValues vaultsFees vaultsSlashingReserve vault = .ok node ↔
      (vault.1 ∈ vaultsTotalValues ∧ vault.1 ∈ vaultsFees) ∧
        node = leafOf vaultsTotalValues vaultsFees vaultsSlashingReserve vault := by
  unfold buildTreeNode leafOf
  rw [Except.guard_eq_ok, not_not, Except.guard_eq_ok, not_not, and_assoc]
  refine and_congr_right fun htotal => and_congr_right fun hfee => ?_
  obtain ⟨totalValue, htotalValue⟩ := Dict.mem_iff_exists_get?.mp htotal
  obtain ⟨fee, hfeeValue⟩ := Dict.mem_iff_exists_get?.mp hfee
  rw [Py.getItem_eq_ok.mpr htotalValue, Py.getItem_eq_ok.mpr hfeeValue, htotalValue, hfeeValue]
  exact Except.pure_eq_ok.trans eq_comm

/-- The data of a tree are the leaves of the vaults, in order. -/
theorem buildTreeData_eq_ok {data : List VaultTreeNode} :
    buildTreeData vaults vaultsTotalValues vaultsFees vaultsSlashingReserve = .ok data ↔
      (∀ vault ∈ vaults, vault ∈ vaultsTotalValues ∧ vault ∈ vaultsFees) ∧
        data = vaults.entries.map (leafOf vaultsTotalValues vaultsFees vaultsSlashingReserve) := by
  rw [buildTreeData, ExceptRun.mapM_eq_ok_iff buildTreeNode_eq_ok]
  refine and_congr_left fun _ => ?_
  exact (@List.forall_mem_map _ _ Prod.fst vaults.entries
    (fun vault => vault ∈ vaultsTotalValues ∧ vault ∈ vaultsFees)).symm

/-- The entries of the document -/
def documentOf (tree : MerkleTree) (extraValues : List (ChecksumAddress × Json)) (bs : ReportBlock)
    (prevTreeCid : String) (timestamp : ℤ) : List (String × Json) :=
  [("format", .str tree.dump.format),
    ("leafEncoding", .list (tree.dump.leafEncoding.map .str)),
    ("tree", .list (tree.dump.tree.map fun node => .str (treeEncoder node))),
    ("values", .list (stringifyValues tree.values)),
    ("refSlot", .int bs.refSlot),
    ("blockHash", .str bs.blockHash),
    ("blockNumber", .int bs.blockNumber),
    ("timestamp", .int timestamp),
    ("extraValues", .dict extraValues),
    ("prevTreeCID", .str prevTreeCid),
    ("leafIndexToData", .dict (MerkleValue.leafIndexToData.entries.map fun e => (e.1.value, .int e.2.value)))]

def extraEntry (vaultsFees : VaultFeeMap) (vault : ChecksumAddress × VaultInfo) : ChecksumAddress × ExtraValue :=
  (vault.1, extraOf vault.2 ((vaultsFees.get? vault.1).getD ⟨0, 0, 0, 0⟩))

def extraJson (e : ChecksumAddress × ExtraValue) : ChecksumAddress × Json :=
  (e.1, .dict (e.2.toCamelDict.entries.map fun x => (x.1, .str x.2)))

variable {tree : MerkleTree} {bs : ReportBlock} {prevTreeCid : String} {chainConfig : ChainConfig}

theorem getDumpedTree_ok (hfees : ∀ vault ∈ vaults, vault ∈ vaultsFees) :
    ∃ dumped, getDumpedTree tree vaults bs prevTreeCid chainConfig vaultsFees = .ok dumped ∧
      dumped.entries = documentOf tree ((vaults.entries.map (extraEntry vaultsFees)).map extraJson) bs prevTreeCid
        (chainConfig.genesisTime + bs.slotNumber * chainConfig.secondsPerSlot) := by
  have hextra : vaults.entries.mapM (extraValueOf vaultsFees) =
      .ok ((vaults.entries.map (extraEntry vaultsFees)).map extraJson) := by
    rw [List.map_map]
    refine ExceptRun.mapM_of_ok fun vault hvault => ?_
    obtain ⟨fee, hfee⟩ := Dict.mem_iff_exists_get?.mp (hfees vault.1 (List.mem_map_of_mem hvault))
    unfold extraValueOf extraEntry
    rw [Py.getItem_eq_ok.mpr hfee, Function.comp_apply, hfee]
    rfl
  unfold getDumpedTree
  rw [hextra, Except.ok_bind]
  refine ⟨_, rfl, ?_⟩
  have hkey : ∀ es : List (String × Json), ((es.map Prod.fst).Nodup) → "values" ∈ es.map Prod.fst →
      ∀ v, ((Dict.ofList es).set "values" v).entries = es.map fun e => (e.1, if e.1 = "values" then v else e.2) := by
    intro es hnodup hmem v
    rw [Dict.set_of_mem (Dict.mem_ofList.mpr hmem)]
    exact congrArg (List.map fun e : String × Json => (e.1, if e.1 = "values" then v else e.2)) (Dict.entries_ofList hnodup)
  rw [hkey _ (by simp only [List.map_cons, List.map_nil]; decide) (by simp only [List.map_cons, List.map_nil]; decide)]
  rfl

theorem mapM_map_of_ok {α β γ : Type} {f : β → Parsing γ} {w : α → β} {g : α → γ} (h : ∀ a, f (w a) = .ok (g a))
    (l : List α) : (l.map w).mapM f = .ok (l.map g) := by
  rw [List.mapM_map]
  exact ExceptRun.mapM_of_ok fun a _ => h a

/-- What a document reads back as -/
def reportOf (tree : MerkleTree) (extraValues : List (ChecksumAddress × ExtraValue)) (bs : ReportBlock)
    (prevTreeCid : String) (timestamp : ℤ) : StakingVaultIpfsReport where
  format := tree.dump.format
  leafEncoding := tree.dump.leafEncoding
  tree := tree.dump.tree.map treeEncoder
  values := tree.values.map fun item => valueOf item.1
  refSlot := bs.refSlot
  blockNumber := bs.blockNumber
  blockHash := bs.blockHash
  timestamp := timestamp
  prevTreeCid := prevTreeCid
  extraValues := Dict.ofList extraValues

theorem parse_document {package : TreePackage} {text : Json.Text} {raw : List UInt8}
    {extraValues : List (ChecksumAddress × ExtraValue)} {timestamp : ℤ}
    (hloads : text.loads raw = some (.dict (documentOf tree (extraValues.map extraJson) bs prevTreeCid timestamp)))
    (hformat : tree.dump.format = package.FORMAT) :
    parseMerkleTreeData package text raw = .ok (reportOf tree extraValues bs prevTreeCid timestamp) := by
  have hstr : ∀ x, asStr (.str x) = .ok x := fun _ => rfl
  have hencoding : (tree.dump.leafEncoding.map Json.str).mapM asStr = .ok tree.dump.leafEncoding := by
    rw [mapM_map_of_ok hstr, List.map_id']
  have htree : (tree.dump.tree.map fun node => Json.str (treeEncoder node)).mapM asStr =
      .ok (tree.dump.tree.map treeEncoder) := mapM_map_of_ok (fun node => hstr (treeEncoder node)) _
  have hvalues : (stringifyValues tree.values).mapM parseValue = .ok (tree.values.map fun item => valueOf item.1) :=
    mapM_map_of_ok parseValue_stringify _
  have hextra : (extraValues.map extraJson).mapM parseExtraValue = .ok extraValues := by
    have heach : ∀ e, parseExtraValue (extraJson e) = .ok e := fun e => parseExtraValue_toCamelDict e.1 e.2
    rw [mapM_map_of_ok heach, List.map_id']
  have hitem : ∀ key v, (documentOf tree (extraValues.map extraJson) bs prevTreeCid timestamp).find?
      (fun e => e.1 = key) = some (key, v) →
      item (.dict (documentOf tree (extraValues.map extraJson) bs prevTreeCid timestamp)) key = .ok v := by
    intro key v hfind
    rw [item, hfind]
  have hitemOrEmpty : itemOrEmpty (.dict (documentOf tree (extraValues.map extraJson) bs prevTreeCid timestamp))
      "extraValues" = .ok (.dict (extraValues.map extraJson)) := rfl
  unfold parseMerkleTreeData
  rw [hloads]
  dsimp only
  rw [pure_bind, hitem "format" _ rfl, hitem "values" _ rfl, hitem "leafEncoding" _ rfl, hitem "tree" _ rfl,
    hitem "refSlot" _ rfl, hitem "blockHash" _ rfl, hitem "blockNumber" _ rfl, hitem "timestamp" _ rfl,
    hitem "prevTreeCID" _ rfl, hitemOrEmpty]
  simp only [Except.ok_bind, asStr, asInt, asList, asDict, if_neg (not_not.mpr hformat), hencoding, htree, hvalues, hextra]
  rfl

theorem wellFormed_stringifyValue (item : VaultTreeNode × ℕ) : (stringifyValue item).WellFormed := by
  refine .dict (by simp only [List.map_cons, List.map_nil]; decide) ?_
  rw [List.forall_mem_cons, List.forall_mem_cons]
  refine ⟨.list ?_, .int _, fun _ h => absurd h List.not_mem_nil⟩
  refine List.forall_mem_cons.mpr ⟨.str _, List.forall_mem_map.mpr fun _ _ => .str _⟩

theorem wellFormed_strings (strings : Dict String String) :
    (Json.dict (strings.entries.map fun e => (e.1, .str e.2))).WellFormed := by
  refine .dict ?_ (List.forall_mem_map.mpr fun _ _ => .str _)
  rw [List.map_map]
  exact strings.nodupKeys

/-- The document has every key once, so its text stands for it. -/
theorem wellFormed_document {extraValues : List (ChecksumAddress × ExtraValue)} {timestamp : ℤ}
    (hextra : (extraValues.map Prod.fst).Nodup) :
    (Json.dict (documentOf tree (extraValues.map extraJson) bs prevTreeCid timestamp)).WellFormed := by
  refine .dict (by unfold documentOf; simp only [List.map_cons, List.map_nil]; decide) ?_
  have hvalues : (Json.dict (extraValues.map extraJson)).WellFormed := by
    refine .dict ?_ (List.forall_mem_map.mpr fun e _ => wellFormed_strings e.2.toCamelDict)
    rw [List.map_map]
    exact hextra
  have hindex : (Json.dict (MerkleValue.leafIndexToData.entries.map fun e => (e.1.value, .int e.2.value))).WellFormed := by
    refine .dict ?_ (List.forall_mem_map.mpr fun _ _ => .int _)
    rw [List.map_map]
    decide
  unfold documentOf
  simp only [List.forall_mem_cons]
  exact ⟨.str _, Json.wellFormed_map (fun _ => .str _) _, Json.wellFormed_map (fun _ => .str _) _,
    Json.wellFormed_map wellFormed_stringifyValue _, .int _, .str _, .int _, .int _, hvalues, .str _, hindex,
    fun _ h => absurd h List.not_mem_nil⟩

/-- The text of the extra values is that of the fees and of the in-out delta of the vault. -/
structure ExtraValue.Holds (extra : ExtraValue) (vaultInfo : VaultInfo) (fee : VaultFee) : Prop where
  inOutDelta : (Py.intOfStr extra.inOutDelta : Parsing ℤ) = .ok vaultInfo.inOutDelta
  prevFee : (Py.intOfStr extra.prevFee : Parsing ℤ) = .ok fee.prevFee
  infraFee : (Py.intOfStr extra.infraFee : Parsing ℤ) = .ok fee.infraFee
  liquidityFee : (Py.intOfStr extra.liquidityFee : Parsing ℤ) = .ok fee.liquidityFee
  reservationFee : (Py.intOfStr extra.reservationFee : Parsing ℤ) = .ok fee.reservationFee

theorem extraOf_holds (vaultInfo : VaultInfo) (fee : VaultFee) : (extraOf vaultInfo fee).Holds vaultInfo fee where
  inOutDelta := Py.intOfStr_strOfInt _
  prevFee := Py.intOfStr_strOfInt _
  infraFee := Py.intOfStr_strOfInt _
  liquidityFee := Py.intOfStr_strOfInt _
  reservationFee := Py.intOfStr_strOfInt _

/-- A report says of every vault, in order, what the maps said. -/
structure ReadsBack (vaults : VaultsMap) (vaultsTotalValues : VaultTotalValueMap) (vaultsFees : VaultFeeMap)
    (vaultsSlashingReserve : VaultReserveMap) (report : StakingVaultIpfsReport) : Prop where
  order : report.values.map MerkleValue.vaultAddress = vaults.keys
  extraOrder : report.extraValues.keys = vaults.keys
  leaf : ∀ value ∈ report.values, ∃ vaultInfo totalValue fee extra,
    vaults.get? value.vaultAddress = some vaultInfo ∧ vaultsTotalValues.get? value.vaultAddress = some totalValue ∧
    vaultsFees.get? value.vaultAddress = some fee ∧ report.extraValues.get? value.vaultAddress = some extra ∧
    value.totalValueWei = totalValue ∧ value.fee = fee.total ∧ value.liabilityShares = vaultInfo.liabilityShares ∧
    value.maxLiabilityShares = vaultInfo.maxLiabilityShares ∧
    value.slashingReserve = (vaultsSlashingReserve.get? value.vaultAddress).getD 0 ∧ extra.Holds vaultInfo fee ∧
    fee.prevFee + fee.infraFee + fee.liquidityFee + fee.reservationFee = value.fee

theorem reportOf_readsBack {timestamp : ℤ}
    (hvaults : ∀ vault ∈ vaults, vault ∈ vaultsTotalValues ∧ vault ∈ vaultsFees)
    (hvalues : tree.values.map Prod.fst = vaults.entries.map (leafOf vaultsTotalValues vaultsFees vaultsSlashingReserve)) :
    ReadsBack vaults vaultsTotalValues vaultsFees vaultsSlashingReserve
      (reportOf tree (vaults.entries.map (extraEntry vaultsFees)) bs prevTreeCid timestamp) := by
  have hkeys : (vaults.entries.map (extraEntry vaultsFees)).map Prod.fst = vaults.keys := List.map_map
  have hnodup : ((vaults.entries.map (extraEntry vaultsFees)).map Prod.fst).Nodup := by
    rw [hkeys]
    exact vaults.keys_nodup
  have hreport : (tree.values.map fun item => valueOf item.1) =
      vaults.entries.map fun vault => valueOf (leafOf vaultsTotalValues vaultsFees vaultsSlashingReserve vault) := by
    have hmap := congrArg (List.map valueOf) hvalues
    rw [List.map_map, List.map_map] at hmap
    exact hmap
  refine ⟨?_, ?_, ?_⟩
  · rw [reportOf, hreport, List.map_map]
    rfl
  · rw [reportOf, Dict.keys, Dict.entries_ofList hnodup, hkeys]
  · rw [reportOf, hreport]
    intro value hvalue
    obtain ⟨vault, hvault, rfl⟩ := List.mem_map.mp hvalue
    obtain ⟨htotal, hfee⟩ := hvaults vault.1 (List.mem_map_of_mem hvault)
    obtain ⟨totalValue, htotalValue⟩ := Dict.mem_iff_exists_get?.mp htotal
    obtain ⟨fee, hfeeValue⟩ := Dict.mem_iff_exists_get?.mp hfee
    have hextra : (Dict.ofList (vaults.entries.map (extraEntry vaultsFees))).get? vault.1 =
        some (extraOf vault.2 fee) := by
      rw [Dict.get?_eq_some_iff, Dict.entries_ofList hnodup]
      refine List.mem_map.mpr ⟨vault, hvault, ?_⟩
      rw [extraEntry, hfeeValue]
      rfl
    refine ⟨vault.2, totalValue, fee, extraOf vault.2 fee, Dict.get?_eq_some_iff.mpr hvault, htotalValue, hfeeValue,
      hextra, ?_, ?_, rfl, rfl, rfl, extraOf_holds vault.2 fee, ?_⟩
    · rw [valueOf, leafOf, htotalValue]
      rfl
    · rw [valueOf, leafOf, hfeeValue]
      rfl
    · rw [valueOf, leafOf, hfeeValue]
      rfl

end Report

/-! The root -/

section Root

variable {package : TreePackage} {report : StakingVaultIpfsReport} {expectedTreeRoot : String}

theorem treeEncoder_injective {root root' : List UInt8} (h : treeEncoder root = treeEncoder root') : root = root' := by
  have hchars := congrArg String.toList h
  rw [treeEncoder, treeEncoder, String.toList_ofList, String.toList_ofList] at hchars
  exact Py.toHex_injective (List.cons.inj (List.cons.inj hchars).2).2

theorem node_injective {value value' : MerkleValue} (h : value.node = value'.node) : value = value' := by
  have hvalue : valueOf value.node = valueOf value'.node := congrArg valueOf h
  exact hvalue

/-- A report is accepted when the root is expected and stands first in its tree. -/
theorem isTreeRootValid_ok {rebuilt : MerkleTree} {first : String} {nodes : List String}
    (hrebuilt : getMerkleTree package (report.values.map MerkleValue.node) = .ok rebuilt)
    (hfirst : report.tree = first :: nodes) :
    isTreeRootValid package expectedTreeRoot report =
      .ok (first == treeEncoder rebuilt.root && treeEncoder rebuilt.root == expectedTreeRoot) := by
  unfold isTreeRootValid
  dsimp only
  rw [hrebuilt, Except.ok_bind, hfirst]
  rfl

theorem of_isTreeRootValid (h : isTreeRootValid package expectedTreeRoot report = .ok true) :
    ∃ rebuilt, getMerkleTree package (report.values.map MerkleValue.node) = .ok rebuilt ∧
      treeEncoder rebuilt.root = expectedTreeRoot := by
  unfold isTreeRootValid at h
  obtain ⟨rebuilt, hrebuilt, h⟩ := Except.bind_eq_ok.mp h
  obtain ⟨first, -, h⟩ := Except.bind_eq_ok.mp h
  rw [Except.pure_eq_ok, Bool.and_eq_true, beq_iff_eq, beq_iff_eq] at h
  exact ⟨rebuilt, hrebuilt, h.2⟩

/-- Other leaves do not have the root. -/
theorem isTreeRootValid_altered {data : List VaultTreeNode} {tree : MerkleTree} (hinjective : package.RootInjective)
    (htree : getMerkleTree package data = .ok tree) (haltered : report.values.map MerkleValue.node ≠ data) :
    isTreeRootValid package (treeEncoder tree.root) report ≠ .ok true ∧
      ∀ rebuilt, getMerkleTree package (report.values.map MerkleValue.node) = .ok rebuilt → report.tree ≠ [] →
        isTreeRootValid package (treeEncoder tree.root) report = .ok false := by
  have hroot : ∀ rebuilt, getMerkleTree package (report.values.map MerkleValue.node) = .ok rebuilt →
      treeEncoder rebuilt.root ≠ treeEncoder tree.root := fun rebuilt hrebuilt heq =>
    haltered (hinjective _ _ _ _ _ hrebuilt htree (treeEncoder_injective heq))
  refine ⟨fun h => ?_, fun rebuilt hrebuilt hne => ?_⟩
  · obtain ⟨rebuilt, hrebuilt, heq⟩ := of_isTreeRootValid h
    exact hroot rebuilt hrebuilt heq
  · obtain ⟨first, nodes, hfirst⟩ := List.exists_cons_of_ne_nil hne
    rw [isTreeRootValid_ok hrebuilt hfirst, beq_eq_false_iff_ne.mpr (hroot rebuilt hrebuilt), Bool.and_false]

end Root

/-! Publishing and reading -/

section Published

variable {package : TreePackage} {text : Json.Text} {vaults : VaultsMap} {vaultsTotalValues : VaultTotalValueMap}
  {vaultsFees : VaultFeeMap} {vaultsSlashingReserve : VaultReserveMap} {data : List VaultTreeNode} {tree : MerkleTree}

/-- The published text of a tree reads back as a report that says the same, and only leaves that are unaltered
are accepted for its root. -/
theorem parseMerkleTreeData_published (hpackage : package.Lawful) (hinjective : package.RootInjective)
    (htext : text.RoundTrip) (hdata : buildTreeData vaults vaultsTotalValues vaultsFees vaultsSlashingReserve = .ok data)
    (htree : getMerkleTree package data = .ok tree) (bs : ReportBlock) (prevTreeCid : String) (chainConfig : ChainConfig) :
    ∃ dumped, getDumpedTree tree vaults bs prevTreeCid chainConfig vaultsFees = .ok dumped ∧
      ∀ raw, text.dumps (.dict dumped.entries) = some raw →
        ∃ report, parseMerkleTreeData package text raw = .ok report ∧
          ReadsBack vaults vaultsTotalValues vaultsFees vaultsSlashingReserve report ∧
          isTreeRootValid package (treeEncoder tree.root) report = .ok true ∧
          ∀ altered, altered.values ≠ report.values →
            isTreeRootValid package (treeEncoder tree.root) altered ≠ .ok true ∧
            ∀ rebuilt, getMerkleTree package (altered.values.map MerkleValue.node) = .ok rebuilt → altered.tree ≠ [] →
              isTreeRootValid package (treeEncoder tree.root) altered = .ok false := by
  obtain ⟨hvaults, hleaves⟩ := buildTreeData_eq_ok.mp hdata
  have hvalues : tree.values.map Prod.fst = data := hpackage.values_kept _ _ _ htree
  obtain ⟨nodes, hroot⟩ := hpackage.root_first _ _ _ htree
  have hfees : ∀ vault ∈ vaults, vault ∈ vaultsFees := fun vault hvault => (hvaults vault hvault).2
  obtain ⟨dumped, hdumped, hentries⟩ :=
    @getDumpedTree_ok vaults vaultsFees tree bs prevTreeCid chainConfig hfees
  have hnodup : ((vaults.entries.map (extraEntry vaultsFees)).map Prod.fst).Nodup := by
    rw [List.map_map]
    exact vaults.keys_nodup
  refine ⟨dumped, hdumped, fun raw hraw => ?_⟩
  rw [hentries] at hraw
  have hloads := htext _ raw (wellFormed_document hnodup) hraw
  have hnodes : (reportOf tree (vaults.entries.map (extraEntry vaultsFees)) bs prevTreeCid
      (chainConfig.genesisTime + bs.slotNumber * chainConfig.secondsPerSlot)).values.map MerkleValue.node = data := by
    rw [reportOf, List.map_map, ← hvalues]
    rfl
  refine ⟨_, parse_document hloads (hpackage.format_eq _ _ _ htree),
    reportOf_readsBack hvaults (hvalues.trans hleaves), ?_, fun altered haltered => ?_⟩
  · rw [isTreeRootValid_ok (hnodes ▸ htree) (congrArg (List.map treeEncoder) hroot), beq_self_eq_true, Bool.and_self]
  · refine isTreeRootValid_altered hinjective htree fun heq => haltered ?_
    exact List.map_injective_iff.mpr (fun _ _ => node_injective) (heq.trans hnodes.symm)

/-- One vault with fees -/
def sampleVault : VaultInfo where
  vault := "0xA1"
  aggregatedBalance := 0
  inOutDelta := -7
  withdrawalCredentials := "0x02"
  liabilityShares := 30
  maxLiabilityShares := 40
  mintableStEth := 0
  shareLimit := 0
  reserveRatioBp := 0
  forcedRebalanceThresholdBp := 0
  infraFeeBp := 0
  liquidityFeeBp := 0
  reservationFeeBp := 0
  pendingDisconnect := false

def sampleVaults : VaultsMap :=
  Dict.ofList [("0xA1", sampleVault),
    ("0xB2", { sampleVault with vault := "0xB2", inOutDelta := 9, liabilityShares := 0, maxLiabilityShares := 0 })]

def sampleFees : VaultFeeMap := Dict.ofList [("0xB2", ⟨5, 0, 0, 0⟩), ("0xA1", ⟨1, 2, 3, 4⟩)]

def sampleTree : MerkleTree where
  root := [171, 205]
  values := [(("0xA1", 100, 10, 30, 40, 5), 1), (("0xB2", 64, 5, 0, 0, 0), 2)]
  dump := ⟨"standard-v1", leafEncoding, [[171, 205], [1], [2]]⟩

/-- The tree of the two vaults when the first one is worth more -/
def richerTree : MerkleTree where
  root := [171, 206]
  values := [(("0xA1", 101, 10, 30, 40, 5), 1), (("0xB2", 64, 5, 0, 0, 0), 2)]
  dump := ⟨"standard-v1", leafEncoding, [[171, 206], [3], [2]]⟩

def samplePackage : TreePackage where
  FORMAT := "standard-v1"
  standardMerkleTree := fun data _ =>
    if data = sampleTree.values.map Prod.fst then .ok sampleTree
    else if data = richerTree.values.map Prod.fst then .ok richerTree else .error (.raised .standardMerkleTree)

theorem of_samplePackage {data : List VaultTreeNode} {encoding : List String} {tree : MerkleTree}
    (h : samplePackage.standardMerkleTree data encoding = .ok tree) :
    data = tree.values.map Prod.fst ∧ (tree = sampleTree ∨ tree = richerTree) := by
  unfold samplePackage at h
  dsimp only at h
  split_ifs at h with hsample hricher
  · cases h
    exact ⟨hsample, .inl rfl⟩
  · cases h
    exact ⟨hricher, .inr rfl⟩

theorem samplePackage_lawful : samplePackage.Lawful where
  values_kept _ _ _ h := (of_samplePackage h).1.symm
  format_eq _ _ _ h := by
    rcases (of_samplePackage h).2 with rfl | rfl
    · rfl
    · rfl
  root_first _ _ _ h := by
    rcases (of_samplePackage h).2 with rfl | rfl
    · exact ⟨_, rfl⟩
    · exact ⟨_, rfl⟩

theorem samplePackage_rootInjective : samplePackage.RootInjective := by
  intro data data' encoding tree tree' h h' hroot
  have hsame : tree = tree' := by
    rcases (of_samplePackage h).2 with rfl | rfl <;> rcases (of_samplePackage h').2 with rfl | rfl <;>
      first | rfl | exact absurd hroot (by decide)
  rw [(of_samplePackage h).1, (of_samplePackage h').1, hsame]

def sampleExtra : List (ChecksumAddress × ExtraValue) :=
  [("0xA1", ⟨"-7", "4", "1", "2", "3"⟩), ("0xB2", ⟨"9", "0", "5", "0", "0"⟩)]

def sampleDocument : Json :=
  .dict (documentOf sampleTree (sampleExtra.map extraJson) ⟨100, 99, "0xBB", 50⟩ "QmPrev" 1200)

def sampleRaw : List UInt8 := Py.encodeAscii (
  "\x7b\"format\": \"standard-v1\", " ++
  "\"leafEncoding\": [\"address\", \"uint256\", \"uint256\", \"uint256\", \"uint256\", \"uint256\"], " ++
  "\"tree\": [\"0xabcd\", \"0x01\", \"0x02\"], " ++
  "\"values\": [\x7b\"value\": [\"0xA1\", \"100\", \"10\", \"30\", \"40\", \"5\"], \"treeIndex\": 1\x7d, " ++
  "\x7b\"value\": [\"0xB2\", \"64\", \"5\", \"0\", \"0\", \"0\"], \"treeIndex\": 2\x7d], " ++
  "\"refSlot\": 99, \"blockHash\": \"0xBB\", \"blockNumber\": 50, \"timestamp\": 1200, \"extraValues\": \x7b" ++
  "\"0xA1\": \x7b\"inOutDelta\": \"-7\", \"prevFee\": \"4\", \"infraFee\": \"1\", " ++
  "\"liquidityFee\": \"2\", \"reservationFee\": \"3\"\x7d, " ++
  "\"0xB2\": \x7b\"inOutDelta\": \"9\", \"prevFee\": \"0\", \"infraFee\": \"5\", " ++
  "\"liquidityFee\": \"0\", \"reservationFee\": \"0\"\x7d\x7d, \"prevTreeCID\": \"QmPrev\", " ++
  "\"leafIndexToData\": \x7b\"vaultAddress\": 0, \"totalValueWei\": 1, \"fee\": 2, \"liabilityShares\": 3, " ++
  "\"maxLiabilityShares\": 4, \"slashingReserve\": 5\x7d\x7d")

/-- Text for this document only -/
def sampleText : Json.Text where
  dumps := fun j => if j = sampleDocument then some sampleRaw else none
  loads := fun raw => if raw = sampleRaw then some sampleDocument else none

theorem sampleText_roundTrip : sampleText.RoundTrip := by
  intro j raw _ h
  unfold sampleText at h ⊢
  dsimp only at h ⊢
  split_ifs at h with hj
  rw [← Option.some.inj h, if_pos rfl, hj]

/-- The report reads back, and does not pass with another value of the first vault. -/
theorem parseMerkleTreeData_published_sample :
    ∃ dumped, getDumpedTree sampleTree sampleVaults ⟨100, 99, "0xBB", 50⟩ "QmPrev" ⟨32, 12, 0, by decide, by decide⟩
        sampleFees = .ok dumped ∧ sampleText.dumps (.dict dumped.entries) = some sampleRaw ∧
      ∃ report, parseMerkleTreeData samplePackage sampleText sampleRaw = .ok report ∧
        ReadsBack sampleVaults (Dict.ofList [("0xA1", 100), ("0xB2", 64)]) sampleFees (Dict.ofList [("0xA1", 5)]) report ∧
        isTreeRootValid samplePackage "0xabcd" report = .ok true ∧
        isTreeRootValid samplePackage "0xabcd"
          { report with values := richerTree.values.map fun item => valueOf item.1 } = .ok false := by
  have hdata : buildTreeData sampleVaults (Dict.ofList [("0xA1", 100), ("0xB2", 64)]) sampleFees
      (Dict.ofList [("0xA1", 5)]) = .ok (sampleTree.values.map Prod.fst) := rfl
  have htree : getMerkleTree samplePackage (sampleTree.values.map Prod.fst) = .ok sampleTree := rfl
  obtain ⟨dumped, hdumped, hread⟩ := parseMerkleTreeData_published samplePackage_lawful samplePackage_rootInjective
    sampleText_roundTrip hdata htree ⟨100, 99, "0xBB", 50⟩ "QmPrev" ⟨32, 12, 0, by decide, by decide⟩
  have hextra : sampleVaults.entries.map (extraEntry sampleFees) = sampleExtra := by decide
  have hdocument : Json.dict dumped.entries = sampleDocument := by
    obtain ⟨dumped', hdumped', hentries⟩ := @getDumpedTree_ok sampleVaults sampleFees sampleTree
      ⟨100, 99, "0xBB", 50⟩ "QmPrev" ⟨32, 12, 0, by decide, by decide⟩ (by decide)
    rw [Except.ok.inj (hdumped.symm.trans hdumped'), hentries, hextra]
    rfl
  have hraw : sampleText.dumps (.dict dumped.entries) = some sampleRaw := if_pos hdocument
  obtain ⟨report, hreport, hreads, hvalid, haltered⟩ := hread _ hraw
  refine ⟨dumped, hdumped, hraw, report, hreport, hreads, hvalid, (haltered _ fun heq => ?_).2 richerTree rfl ?_⟩
  · have hricher : valueOf ("0xA1", 101, 10, 30, 40, 5) ∈ report.values := heq ▸ List.mem_cons_self
    obtain ⟨-, totalValue, -, -, -, htotal, -, -, hvalue, -⟩ := hreads.leaf _ hricher
    rw [← hvalue] at htotal
    exact absurd htotal (by decide)
  · unfold isTreeRootValid at hvalid
    obtain ⟨_, _, hvalid⟩ := Except.bind_eq_ok.mp hvalid
    obtain ⟨_, hfirst, _⟩ := Except.bind_eq_ok.mp hvalid
    exact List.ne_nil_of_mem (List.mem_of_getElem? (Py.listItem_eq_ok.mp hfirst))

end Published

end StakingVaultsService

end LidoOracle
