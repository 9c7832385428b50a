import LidoOracle.Lib.Bytes
import LidoOracle.Lib.Itertools
import LidoOracle.Types

/-! The third phase of the accounting report. Exited counts are grouped by
module, batched into items, batched again into transactions, and the
transactions are chained from the last to the first by their hashes.

    | 32 bytes |  3 bytes  | 2 bytes  |   X bytes   |
    | nextHash | itemIndex | itemType | itemPayload |

    | 3 bytes  |   8 bytes    |  nodeOpsCount * 8 bytes  |  nodeOpsCount * 16 bytes  |
    | moduleId | nodeOpsCount |      nodeOperatorIds     |           value           | -/

namespace LidoOracle

namespace ExtraDataService

inductive ItemType where
  | exitedValidators
  deriving DecidableEq

def ItemType.value : ItemType → ℕ
  | .exitedValidators => 2

inductive FormatList where
  | empty
  | nonEmpty
  deriving DecidableEq

def FormatList.value : FormatList → ℕ
  | .empty => 0
  | .nonEmpty => 1

def ITEM_INDEX : ℕ := 3
def ITEM_TYPE : ℕ := 2
def MODULE_ID : ℕ := 3
def NODE_OPS_COUNT : ℕ := 8
def NODE_OPERATOR_ID : ℕ := 8
def NODE_OPERATOR_VALUE : ℕ := 16

structure ItemPayload where
  moduleId : StakingModuleId
  nodeOperatorIds : List NodeOperatorId
  value : List ℕ
  deriving DecidableEq

structure ExtraData where
  extraDataList : List (List UInt8)
  dataHash : List UInt8
  format : ℕ
  itemsCount : ℕ

/-- The encoder raises no exception of its own. -/
abbrev Collect := Py Empty

abbrev ExitedValidators := Dict NodeOperatorGlobalIndex ℕ

def sortedOperators (validators : ExitedValidators) : List (NodeOperatorGlobalIndex × ℕ) :=
  Sorted.sortedBy (fun e => toLex e.1) validators.entries

def payloadOf (moduleId : StakingModuleId) (nosInBatch : List (NodeOperatorGlobalIndex × ℕ)) :
    ItemPayload where
  moduleId := moduleId
  nodeOperatorIds := nosInBatch.map (·.1.2)
  value := nosInBatch.map (·.2)

def buildValidatorsPayloads (validators : ExitedValidators) (maxNoInPayloadCount : ℕ) :
    Collect (List ItemPayload) :=
  (Itertools.groupby (fun e => e.1.1) (sortedOperators validators)).foldlM (fun payloads group => do
    let batches ← Itertools.batched group.2 maxNoInPayloadCount
    return payloads ++ batches.map (payloadOf group.1)) []

def toBytesAll (len : ℕ) (ns : List ℕ) : Collect (List UInt8) := do
  let parts ← ns.mapM (Py.toBytes len)
  return parts.flatten

def encodeItem (index : ℕ) (itemType : ItemType) (payload : ItemPayload) : Collect (List UInt8) := do
  let indexBytes ← Py.toBytes ITEM_INDEX index
  let typeBytes ← Py.toBytes ITEM_TYPE itemType.value
  let moduleBytes ← Py.toBytes MODULE_ID payload.moduleId
  let countBytes ← Py.toBytes NODE_OPS_COUNT payload.nodeOperatorIds.length
  let idsBytes ← toBytesAll NODE_OPERATOR_ID payload.nodeOperatorIds
  let valueBytes ← toBytesAll NODE_OPERATOR_VALUE payload.value
  return indexBytes ++ typeBytes ++ moduleBytes ++ countBytes ++ idsBytes ++ valueBytes

def appendItem (acc : ℕ × List UInt8) (item : ItemType × ItemPayload) : Collect (ℕ × List UInt8) := do
  let bytes ← encodeItem acc.1 item.1 item.2
  return (acc.1 + 1, acc.2 ++ bytes)

/-- One transaction: the index runs on, the items are appended. -/
def encodeBatch (index : ℕ) (payloadBatch : List (ItemType × ItemPayload)) :
    Collect (ℕ × List UInt8) :=
  payloadBatch.foldlM appendItem (index, [])

def appendTransaction (acc : ℕ × List (List UInt8)) (payloadBatch : List (ItemType × ItemPayload)) :
    Collect (ℕ × List (List UInt8)) := do
  let tx ← encodeBatch acc.1 payloadBatch
  return (tx.1, acc.2 ++ [tx.2])

def buildExtraTransactionsData (exitedPayloads : List ItemPayload) (maxItemsCountPerTx : ℕ) :
    Collect (ℕ × List (List UInt8)) := do
  let allPayloads := exitedPayloads.map fun payload => (ItemType.exitedValidators, payload)
  let payloadBatches ← Itertools.batched allPayloads maxItemsCountPerTx
  payloadBatches.foldlM appendTransaction (0, [])

/-- Each transaction holds the hash of the next one; the last one holds zeros. -/
def addHashesToTransactions (keccak : List UInt8 → List UInt8) (txsData : List (List UInt8)) :
    List UInt8 × List (List UInt8) :=
  let (nextHash, txsWithHashes) := txsData.reverse.foldl (fun (nextHash, txsWithHashes) tx =>
    let fullTxData := nextHash ++ tx
    (keccak fullTxData, txsWithHashes ++ [fullTxData])) (ZERO_HASH, [])
  (nextHash, txsWithHashes.reverse)

def collect (keccak : List UInt8 → List UInt8) (exitedValidators : ExitedValidators)
    (maxItemsCountPerTx maxNoInPayloadCount : ℕ) : Collect ExtraData := do
  let exitedPayloads ← buildValidatorsPayloads exitedValidators maxNoInPayloadCount
  let (itemsCount, txs) ← buildExtraTransactionsData exitedPayloads maxItemsCountPerTx
  let (firstHash, hashedTxs) := addHashesToTransactions keccak txs
  let format := if itemsCount ≠ 0 then FormatList.nonEmpty.value else FormatList.empty.value
  return { extraDataList := hashedTxs, dataHash := firstHash, format, itemsCount }

/-! The reader's side, from the documented layout -/

structure Item where
  index : ℕ
  itemType : ℕ
  moduleId : ℕ
  nodeOperatorIds : List ℕ
  value : List ℕ
  deriving DecidableEq

/-- What an item says: the count reported for each of its operators -/
def Item.pairs (item : Item) : List ((ℕ × ℕ) × ℕ) :=
  (item.nodeOperatorIds.zip item.value).map fun p => ((item.moduleId, p.1), p.2)

/-- `count` numbers of `len` bytes each -/
def parseNumbers (len count : ℕ) (bytes : List UInt8) : List ℕ :=
  (Bytes.cut len (bytes.take (len * count))).map BigEndian.fromBytes

/-- One item, and what follows it; an item that is cut short is refused. -/
def parseItem (bytes : List UInt8) : Option (Item × List UInt8) :=
  let count := BigEndian.fromBytes ((bytes.drop 8).take 8)
  if bytes.length < 16 + 24 * count then none
  else some (
    { index := BigEndian.fromBytes (bytes.take 3),
      itemType := BigEndian.fromBytes ((bytes.drop 3).take 2),
      moduleId := BigEndian.fromBytes ((bytes.drop 5).take 3),
      nodeOperatorIds := parseNumbers 8 count (bytes.drop 16),
      value := parseNumbers 16 count (bytes.drop (16 + 8 * count)) },
    bytes.drop (16 + 24 * count))

/-- All items of a body; every item takes at least 16 bytes, which bounds the passes. -/
def parseItemsAux : ℕ → List UInt8 → Option (List Item)
  | _, [] => some []
  | 0, _ :: _ => none
  | passes + 1, b :: bytes => do
    let (item, rest) ← parseItem (b :: bytes)
    let items ← parseItemsAux passes rest
    some (item :: items)

def parseItems (bytes : List UInt8) : Option (List Item) := parseItemsAux bytes.length bytes

/-- The transactions form a chain of references that starts at a hash and ends in zeros. -/
def Chained (keccak : List UInt8 → List UInt8) : List UInt8 → List (List UInt8) → Prop
  | hash, [] => hash = ZERO_HASH
  | hash, tx :: txs => keccak tx = hash ∧ Chained keccak (tx.take 32) txs

end ExtraDataService

end LidoOracle
