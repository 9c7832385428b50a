import LidoOracle.StakingModules.RewardsTree

/-! The trees of the staking modules as they are published and as they are read
back. An encoder writes what JSON does not know, bytes and strikes lists, as text
and lists. A decoder has the name of a key to go by, and calls its hook for every
object of the document, however deep. -/

namespace LidoOracle

namespace StakingModules

/-- What a dump is made of, and what a decoder makes. A float stays the text it is written as. -/
inductive Obj where
  | null
  | bool (b : Bool)
  | int (n : ℤ)
  | float (text : String)
  | str (s : String)
  | bytes (b : HexBytes)
  | strikesList (data : List Obj)
  | list (items : List Obj)
  | tuple (items : List Obj)
  | dict (entries : List (String × Obj))

/-- What JSON has itself, with no key twice -/
inductive Obj.Plain : Obj → Prop where
  | null : Plain .null
  | bool (b : Bool) : Plain (.bool b)
  | int (n : ℤ) : Plain (.int n)
  | float (text : String) : Plain (.float text)
  | str (s : String) : Plain (.str s)
  | list {items : List Obj} (hitems : ∀ o ∈ items, Plain o) : Plain (.list items)
  | dict {entries : List (String × Obj)} (hkeys : (entries.map Prod.fst).Nodup)
      (hvalues : ∀ e ∈ entries, Plain e.2) : Plain (.dict entries)

/-- `isinstance(o, int)`, which a bool is, too -/
def Obj.isInt : Obj → Bool
  | .int _ => true
  | .bool _ => true
  | _ => false

inductive CodecError where
  | typeError
  | standardMerkleTree
  deriving DecidableEq, Repr

abbrev Coding := Py CodecError

/-- The text of a plain object -/
structure JsonText where
  dumps : Obj → Coding (List UInt8)
  loads : List UInt8 → Coding Obj

/-- Text that was written for a plain object reads back as that object. -/
def JsonText.RoundTrip (text : JsonText) : Prop :=
  ∀ o raw, o.Plain → text.dumps o = .ok raw → text.loads raw = .ok o

/-- Whether `default` knows strikes lists; what it does not know is left to the base class, which raises. -/
structure JSONEncoder where
  strikesLists : Bool

def TreeJSONEncoder : JSONEncoder := ⟨false⟩

def StrikesTreeJSONEncoder : JSONEncoder := ⟨true⟩

mutual

/-- The plain object that an encoder writes, with sorted keys -/
def JSONEncoder.write (encoder : JSONEncoder) : Obj → Coding Obj
  | .bytes b => .ok (.str (HexBytes.to0xHex b))
  | .strikesList data =>
    if encoder.strikesLists then do
      let items ← encoder.writeItems data
      .ok (.list items)
    else .error (.raised .typeError)
  | .list items => do
    let items ← encoder.writeItems items
    .ok (.list items)
  | .tuple items => do
    let items ← encoder.writeItems items
    .ok (.list items)
  | .dict entries => do
    let entries ← encoder.writeEntries entries
    .ok (.dict (Sorted.sortedBy Prod.fst entries))
  | o => .ok o

def JSONEncoder.writeItems (encoder : JSONEncoder) : List Obj → Coding (List Obj)
  | [] => .ok []
  | o :: items => do
    let o ← encoder.write o
    let items ← encoder.writeItems items
    .ok (o :: items)

def JSONEncoder.writeEntries (encoder : JSONEncoder) : List (String × Obj) → Coding (List (String × Obj))
  | [] => .ok []
  | (key, o) :: entries => do
    let o ← encoder.write o
    let entries ← encoder.writeEntries entries
    .ok ((key, o) :: entries)

end

/-- What a decoder makes of an object under a key -/
abbrev TryDecodeValue := String → Obj → Coding Obj

/-- The hook for the pairs of one object; of two pairs with one key the last counts. -/
def objectPairsHook (tryDecodeValue : TryDecodeValue) (items : List (String × Obj)) : Coding Obj := do
  let items ← items.mapM fun e => do
    let obj ← tryDecodeValue e.1 e.2
    return (e.1, obj)
  return .dict (Dict.ofList items).entries

mutual

/-- `json.loads` with the hook, which sees an object after those inside it -/
def load (tryDecodeValue : TryDecodeValue) : Obj → Coding Obj
  | .list items => do
    let items ← loadItems tryDecodeValue items
    .ok (.list items)
  | .dict entries => do
    let entries ← loadEntries tryDecodeValue entries
    objectPairsHook tryDecodeValue entries
  | o => .ok o

def loadItems (tryDecodeValue : TryDecodeValue) : List Obj → Coding (List Obj)
  | [] => .ok []
  | o :: items => do
    let o ← load tryDecodeValue o
    let items ← loadItems tryDecodeValue items
    .ok (o :: items)

def loadEntries (tryDecodeValue : TryDecodeValue) : List (String × Obj) → Coding (List (String × Obj))
  | [] => .ok []
  | (key, o) :: entries => do
    let o ← load tryDecodeValue o
    let entries ← loadEntries tryDecodeValue entries
    .ok ((key, o) :: entries)

end

def RewardsTreeJSONDecoder.tryDecodeValue (key : String) (obj : Obj) : Coding Obj :=
  if key ≠ "value" then .ok obj
  else match obj with
    | .list [noId, shares] =>
      if !noId.isInt then .error .valueError
      else if !shares.isInt then .error .valueError
      else .ok (.tuple [noId, shares])
    | _ => .error .valueError

def StrikesTreeJSONDecoder.tryDecodeValue (key : String) (obj : Obj) : Coding Obj :=
  if key ≠ "value" then .ok obj
  else match obj with
    | .list [noId, pubkey, strikes] =>
      if !noId.isInt then .error .valueError
      else match pubkey, strikes with
        | .str pubkey, .list strikes =>
          if ¬ "0x".toList <+: pubkey.toList then .error .valueError
          else do
            let pubkey ← hexStrToBytes pubkey
            return .tuple [noId, .bytes pubkey, .strikesList strikes]
        | _, _ => .error .valueError
    | _ => .error .valueError

/-- `Dump[LeafType]`: the leaves with their indices in the tree, and the nodes of the tree -/
structure Dump (L : Type) where
  format : String
  leafEncoding : List String
  tree : List HexBytes
  values : List (L × ℕ)

section Dump

variable {L : Type}

def Dump.object (dump : Dump L) (node : HexBytes → Obj) (value : L × ℕ → Obj) : Obj :=
  .dict [("format", .str dump.format), ("leafEncoding", .list (dump.leafEncoding.map .str)),
    ("tree", .list (dump.tree.map node)), ("values", .list (dump.values.map value))]

def Dump.toObj (leafObj : L → Obj) (dump : Dump L) : Obj :=
  dump.object .bytes fun v => .dict [("value", leafObj v.1), ("treeIndex", .int v.2)]

/-- The dump after its text was read: the nodes have stayed text, the leaves are what they were. -/
def Dump.readBack (leafObj : L → Obj) (dump : Dump L) : Obj :=
  dump.object (fun node => .str node.to0xHex) fun v => .dict [("treeIndex", .int v.2), ("value", leafObj v.1)]

/-- The tree package -/
structure MerklePackage (L : Type) where
  standardMerkleTree : List L → List String → Reporting (Tree L)
  dump : Tree L → Dump L
  load : Obj → Coding (Tree L)

/-- What a class of trees sets for its leaves -/
structure TreeClass (L : Type) where
  encoder : JSONEncoder
  tryDecodeValue : TryDecodeValue
  leafEncoding : List String
  leafObj : L → Obj

/-- A tree keeps its leaves in order, and its dump loads back after its nodes and leaves went through text. -/
structure MerklePackage.Inverse (package : MerklePackage L) (leafObj : L → Obj) : Prop where
  values_kept : ∀ values encoding tree, package.standardMerkleTree values encoding = .ok tree → tree.values = values
  load_dump : ∀ values encoding tree, package.standardMerkleTree values encoding = .ok tree →
    package.load ((package.dump tree).readBack leafObj) = .ok tree

variable (cls : TreeClass L) (text : JsonText) (package : MerklePackage L)

def TreeClass.encode (tree : Tree L) : Coding (List UInt8) := do
  let document ← cls.encoder.write ((package.dump tree).toObj cls.leafObj)
  text.dumps document

/-- Whatever goes wrong, it is a `ValueError`. -/
def TreeClass.decode (content : List UInt8) : Coding (Tree L) :=
  let restored : Coding (Tree L) := do
    let document ← text.loads content
    let dump ← load cls.tryDecodeValue document
    package.load dump
  match restored with
  | .ok tree => .ok tree
  | .error _ => .error .valueError

/-- The IPFS client, for contents -/
structure IpfsClient where
  publish : List UInt8 → Reporting CID
  fetch : CID → FrameNumber → Reporting (List UInt8)

variable (ipfs : IpfsClient)

/-- Publishing the encoding of a tree, and decoding what a CID gives back -/
def TreeClass.services : TreeServices L where
  standardMerkleTree values := package.standardMerkleTree values cls.leafEncoding
  publish tree := do
    let content ← Py.lift (fun _ => ReportError.standardMerkleTree) (cls.encode text package tree)
    ipfs.publish content
  fetch cid frame := do
    let content ← ipfs.fetch cid frame
    Py.lift (fun _ => ReportError.standardMerkleTree) (cls.decode text package content)

end Dump

def RewardsTree : TreeClass RewardsTreeLeaf where
  encoder := TreeJSONEncoder
  tryDecodeValue := RewardsTreeJSONDecoder.tryDecodeValue
  leafEncoding := ["uint256", "uint256"]
  leafObj leaf := .tuple [.int leaf.1, .int leaf.2]

def StrikesTree : TreeClass StrikesTreeLeaf where
  encoder := StrikesTreeJSONEncoder
  tryDecodeValue := StrikesTreeJSONDecoder.tryDecodeValue
  leafEncoding := ["uint256", "bytes", "uint256[]"]
  leafObj leaf := .tuple [.int leaf.1, .bytes leaf.2.1, .strikesList (leaf.2.2.map fun (s : ℕ) => .int s)]

/-! Writing and reading, item by item and entry by entry -/

section Walk

variable {α : Type} {encoder : JSONEncoder} {tryDecodeValue : TryDecodeValue}

theorem writeItems_map {f g : α → Obj} {items : List α} (h : ∀ a ∈ items, encoder.write (f a) = .ok (g a)) :
    encoder.writeItems (items.map f) = .ok (items.map g) := by
  induction items with
  | nil => rfl
  | cons a items ih =>
    rw [List.forall_mem_cons] at h
    rw [List.map_cons, JSONEncoder.writeItems, h.1, Except.ok_bind, ih h.2, Except.ok_bind, List.map_cons]

theorem loadItems_map {f g : α → Obj} {items : List α} (h : ∀ a ∈ items, load tryDecodeValue (f a) = .ok (g a)) :
    loadItems tryDecodeValue (items.map f) = .ok (items.map g) := by
  induction items with
  | nil => rfl
  | cons a items ih =>
    rw [List.forall_mem_cons] at h
    rw [List.map_cons, loadItems, h.1, Except.ok_bind, ih h.2, Except.ok_bind, List.map_cons]

/-- A decoder looks at the values under one key. -/
def OnlyValues (tryDecodeValue : TryDecodeValue) : Prop :=
  ∀ key obj, key ≠ "value" → tryDecodeValue key obj = .ok obj

/-- The hook leaves an object alone that has other keys. -/
theorem objectPairsHook_other (h : OnlyValues tryDecodeValue) {items : List (String × Obj)}
    (hkeys : (items.map Prod.fst).Nodup) (hvalue : "value" ∉ items.map Prod.fst) :
    objectPairsHook tryDecodeValue items = .ok (.dict items) := by
  have hsame : ∀ e ∈ items, (tryDecodeValue e.1 e.2 >>= fun obj => return (e.1, obj)) = .ok (id e) := by
    intro e he
    have hne : e.1 ≠ "value" := fun heq => hvalue (heq ▸ List.mem_map_of_mem he)
    rw [h e.1 e.2 hne]
    rfl
  rw [objectPairsHook, ExceptRun.mapM_of_ok hsame, List.map_id, Except.ok_bind, Dict.entries_ofList hkeys]
  rfl

end Walk

/-! A dump under an encoder and under a decoder -/

section Dump

variable {L : Type} {dump : Dump L} {encoder : JSONEncoder} {tryDecodeValue : TryDecodeValue}
  {node node' : HexBytes → Obj} {value value' : L × ℕ → Obj}

theorem write_list_map {α : Type} {f g : α → Obj} (h : ∀ a, encoder.write (f a) = .ok (g a)) (items : List α) :
    encoder.write (.list (items.map f)) = .ok (.list (items.map g)) := by
  rw [JSONEncoder.write, writeItems_map fun a _ => h a, Except.ok_bind]

theorem load_list_map {α : Type} {f g : α → Obj} (h : ∀ a, load tryDecodeValue (f a) = .ok (g a)) (items : List α) :
    load tryDecodeValue (.list (items.map f)) = .ok (.list (items.map g)) := by
  rw [load, loadItems_map fun a _ => h a, Except.ok_bind]

theorem write_object (hnode : ∀ n, encoder.write (node n) = .ok (node' n))
    (hvalue : ∀ v, encoder.write (value v) = .ok (value' v)) :
    encoder.write (dump.object node value) = .ok (dump.object node' value') := by
  have hencoding : encoder.write (.list (dump.leafEncoding.map .str)) = .ok (.list (dump.leafEncoding.map .str)) :=
    write_list_map (fun _ => rfl) _
  have hentries : encoder.writeEntries [("format", .str dump.format), ("leafEncoding", .list (dump.leafEncoding.map .str)),
      ("tree", .list (dump.tree.map node)), ("values", .list (dump.values.map value))] =
      .ok [("format", .str dump.format), ("leafEncoding", .list (dump.leafEncoding.map .str)),
        ("tree", .list (dump.tree.map node')), ("values", .list (dump.values.map value'))] := by
    simp only [JSONEncoder.writeEntries, hencoding, write_list_map hnode, write_list_map hvalue, Except.ok_bind]
    rfl
  rw [Dump.object, JSONEncoder.write, hentries, Except.ok_bind, Sorted.sortedBy_eq_self]
  · rfl
  · have hsorted : ["format", "leafEncoding", "tree", "values"].Pairwise (· ≤ ·) := by decide +kernel
    exact List.pairwise_map.mp hsorted

theorem load_object (hother : OnlyValues tryDecodeValue) (hnode : ∀ n, load tryDecodeValue (node n) = .ok (node' n))
    (hvalue : ∀ v, load tryDecodeValue (value v) = .ok (value' v)) :
    load tryDecodeValue (dump.object node value) = .ok (dump.object node' value') := by
  have hencoding : load tryDecodeValue (.list (dump.leafEncoding.map .str)) = .ok (.list (dump.leafEncoding.map .str)) :=
    load_list_map (fun _ => rfl) _
  have hentries : loadEntries tryDecodeValue [("format", .str dump.format),
      ("leafEncoding", .list (dump.leafEncoding.map .str)), ("tree", .list (dump.tree.map node)),
      ("values", .list (dump.values.map value))] =
      .ok [("format", .str dump.format), ("leafEncoding", .list (dump.leafEncoding.map .str)),
        ("tree", .list (dump.tree.map node')), ("values", .list (dump.values.map value'))] := by
    simp only [loadEntries, hencoding, load_list_map hnode, load_list_map hvalue, Except.ok_bind]
    rfl
  have hkeys : ["format", "leafEncoding", "tree", "values"].Nodup := by decide
  have hvalue : "value" ∉ ["format", "leafEncoding", "tree", "values"] := by decide
  rw [Dump.object, load, hentries, Except.ok_bind]
  exact objectPairsHook_other hother hkeys hvalue

/-- What a class of trees must see to: a leaf is written as plain items, which its decoder takes for the leaf. -/
structure TreeClass.Lawful (cls : TreeClass L) : Prop where
  onlyValues : OnlyValues cls.tryDecodeValue
  leaf : ∀ leaf, ∃ items, cls.encoder.write (cls.leafObj leaf) = .ok (.list items) ∧ (Obj.list items).Plain ∧
    loadItems cls.tryDecodeValue items = .ok items ∧
    cls.tryDecodeValue "value" (.list items) = .ok (cls.leafObj leaf)

variable {cls : TreeClass L} {text : JsonText} {package : MerklePackage L} {tree : Tree L}

theorem plain_object (hnode : ∀ n, (node n).Plain) (hvalue : ∀ v, (value v).Plain) :
    (dump.object node value).Plain := by
  have hkeys : ["format", "leafEncoding", "tree", "values"].Nodup := by decide
  refine .dict hkeys ?_
  simp only [List.forall_mem_cons]
  refine ⟨.str _, .list ?_, .list ?_, .list ?_, fun _ h => absurd h List.not_mem_nil⟩
  · exact List.forall_mem_map.mpr fun _ _ => .str _
  · exact List.forall_mem_map.mpr fun n _ => hnode n
  · exact List.forall_mem_map.mpr fun v _ => hvalue v

/-- A value of a dump, with what stands for its leaf -/
theorem sortedBy_value (leaf index : Obj) :
    Sorted.sortedBy Prod.fst [("value", leaf), ("treeIndex", index)] = [("treeIndex", index), ("value", leaf)] := by
  have hkeys : ([("value", leaf), ("treeIndex", index)].map Prod.fst).Nodup := by simp
  have hsorted : ["treeIndex", "value"].Pairwise (· ≤ ·) := by decide +kernel
  rw [Sorted.sortedBy_eq_of_perm hkeys (List.Perm.swap _ _ _)]
  exact Sorted.sortedBy_eq_self (List.pairwise_map.mp hsorted)

theorem write_value {leaf : Obj} {items : List Obj} (h : encoder.write leaf = .ok (.list items)) (index : ℤ) :
    encoder.write (.dict [("value", leaf), ("treeIndex", .int index)]) =
      .ok (.dict [("treeIndex", .int index), ("value", .list items)]) := by
  have hentries : encoder.writeEntries [("value", leaf), ("treeIndex", .int index)] =
      .ok [("value", .list items), ("treeIndex", .int index)] := by
    simp only [JSONEncoder.writeEntries, JSONEncoder.write, h, Except.ok_bind]
  rw [JSONEncoder.write, hentries, Except.ok_bind, sortedBy_value]

theorem load_value (hother : OnlyValues tryDecodeValue) {items : List Obj} {leaf : Obj}
    (hload : loadItems tryDecodeValue items = .ok items)
    (hdecode : tryDecodeValue "value" (.list items) = .ok leaf) (index : ℤ) :
    load tryDecodeValue (.dict [("treeIndex", .int index), ("value", .list items)]) =
      .ok (.dict [("treeIndex", .int index), ("value", leaf)]) := by
  have hentries : loadEntries tryDecodeValue [("treeIndex", .int index), ("value", .list items)] =
      .ok [("treeIndex", .int index), ("value", .list items)] := by
    simp only [loadEntries, load, hload, Except.ok_bind]
  have hkeys : ["treeIndex", "value"].Nodup := by decide
  rw [load, hentries, Except.ok_bind, objectPairsHook, List.mapM_cons, List.mapM_cons, List.mapM_nil,
    hother "treeIndex" _ (by decide), hdecode]
  exact congrArg (fun entries => Except.ok (Obj.dict entries)) (Dict.entries_ofList hkeys)

/-- The document of a dump: plain, and read back as the dump it was written for. -/
theorem TreeClass.Lawful.document (h : cls.Lawful) (dump : Dump L) :
    ∃ document, cls.encoder.write (dump.toObj cls.leafObj) = .ok document ∧ document.Plain ∧
      load cls.tryDecodeValue document = .ok (dump.readBack cls.leafObj) := by
  choose items hwrite hplain hload hdecode using h.leaf
  let value : L × ℕ → Obj := fun v => .dict [("treeIndex", .int v.2), ("value", .list (items v.1))]
  have hwriteValue : ∀ v : L × ℕ, cls.encoder.write (.dict [("value", cls.leafObj v.1), ("treeIndex", .int v.2)]) =
      .ok (value v) := fun v => write_value (hwrite v.1) _
  have hloadValue : ∀ v : L × ℕ, load cls.tryDecodeValue (value v) =
      .ok (.dict [("treeIndex", .int v.2), ("value", cls.leafObj v.1)]) :=
    fun v => load_value h.onlyValues (hload v.1) (hdecode v.1) _
  have hplainValue : ∀ v, (value v).Plain := by
    intro v
    have hkeys : ["treeIndex", "value"].Nodup := by decide
    refine .dict hkeys ?_
    simp only [List.forall_mem_cons]
    exact ⟨.int _, hplain v.1, fun _ h => absurd h List.not_mem_nil⟩
  exact ⟨dump.object (fun node => .str node.to0xHex) value, write_object (fun _ => rfl) hwriteValue,
    plain_object (fun _ => .str _) hplainValue, load_object h.onlyValues (fun _ => rfl) hloadValue⟩

/-- The encoder never raises, and what reads the encoding of a tree gets the tree. -/
theorem TreeClass.Lawful.decode_encode (h : cls.Lawful) (htext : text.RoundTrip)
    (hpackage : package.Inverse cls.leafObj) {values : List L} {encoding : List String}
    (htree : package.standardMerkleTree values encoding = .ok tree) :
    (∃ document, document.Plain ∧ cls.encode text package tree = text.dumps document) ∧
      ∀ content, cls.encode text package tree = .ok content → cls.decode text package content = .ok tree := by
  obtain ⟨document, hwrite, hplain, hload⟩ := h.document (package.dump tree)
  have hencode : cls.encode text package tree = text.dumps document := by
    rw [TreeClass.encode, hwrite, Except.ok_bind]
  refine ⟨⟨document, hplain, hencode⟩, fun content hcontent => ?_⟩
  have hread := htext document content hplain (hencode.symm.trans hcontent)
  simp only [TreeClass.decode, hread, hload, hpackage.load_dump _ _ _ htree, Except.ok_bind]

/-! What is not read back -/

/-- What stands under the key of a leaf, anywhere in a document -/
inductive LeafOf (leaf : Obj) : Obj → Prop where
  | value {entries : List (String × Obj)} (h : ("value", leaf) ∈ entries) : LeafOf leaf (.dict entries)
  | item {items : List Obj} {o : Obj} (ho : o ∈ items) (h : LeafOf leaf o) : LeafOf leaf (.list items)
  | entry {entries : List (String × Obj)} {e : String × Obj} (he : e ∈ entries) (h : LeafOf leaf e.2) :
      LeafOf leaf (.dict entries)

theorem loadItems_ok {items loaded : List Obj} (h : loadItems tryDecodeValue items = .ok loaded) :
    loaded.length = items.length ∧ ∀ o ∈ items, ∃ o' ∈ loaded, load tryDecodeValue o = .ok o' := by
  induction items generalizing loaded with
  | nil =>
    cases h
    exact ⟨rfl, fun o ho => absurd ho List.not_mem_nil⟩
  | cons o items ih =>
    obtain ⟨o', ho', h⟩ := Except.bind_eq_ok.mp h
    obtain ⟨rest, hrest, h⟩ := Except.bind_eq_ok.mp h
    cases h
    obtain ⟨hlen, hmem⟩ := ih hrest
    refine ⟨congrArg (· + 1) hlen, List.forall_mem_cons.mpr ⟨⟨o', List.mem_cons_self, ho'⟩, fun x hx => ?_⟩⟩
    obtain ⟨x', hx', hload⟩ := hmem x hx
    exact ⟨x', List.mem_cons_of_mem _ hx', hload⟩

theorem loadEntries_ok {entries loaded : List (String × Obj)} (h : loadEntries tryDecodeValue entries = .ok loaded) :
    ∀ e ∈ entries, ∃ o, (e.1, o) ∈ loaded ∧ load tryDecodeValue e.2 = .ok o := by
  induction entries generalizing loaded with
  | nil => exact fun e he => absurd he List.not_mem_nil
  | cons e entries ih =>
    obtain ⟨o, ho, h⟩ := Except.bind_eq_ok.mp h
    obtain ⟨rest, hrest, h⟩ := Except.bind_eq_ok.mp h
    cases h
    refine List.forall_mem_cons.mpr ⟨⟨o, List.mem_cons_self, ho⟩, fun x hx => ?_⟩
    obtain ⟨o', hmem, hload⟩ := ih hrest x hx
    exact ⟨o', List.mem_cons_of_mem _ hmem, hload⟩

theorem objectPairsHook_ok {items : List (String × Obj)} {o : Obj} (h : objectPairsHook tryDecodeValue items = .ok o) :
    ∀ e ∈ items, ∃ obj, tryDecodeValue e.1 e.2 = .ok obj := by
  intro e he
  obtain ⟨decoded, hdecoded, -⟩ := Except.bind_eq_ok.mp h
  obtain ⟨pair, hpair⟩ := ExceptRun.mapM_ok_of_mem hdecoded he
  obtain ⟨obj, hobj, -⟩ := Except.bind_eq_ok.mp hpair
  exact ⟨obj, hobj⟩

/-- Where a document is read, its decoder has taken every leaf in it. -/
theorem LeafOf.decoded {leaf document o : Obj} (h : LeafOf leaf document)
    (hload : load tryDecodeValue document = .ok o) :
    ∃ leaf' obj, load tryDecodeValue leaf = .ok leaf' ∧ tryDecodeValue "value" leaf' = .ok obj := by
  induction h generalizing o with
  | value hmem =>
    obtain ⟨entries, hentries, hhook⟩ := Except.bind_eq_ok.mp hload
    obtain ⟨leaf', hleaf', hloadLeaf⟩ := loadEntries_ok hentries _ hmem
    obtain ⟨obj, hobj⟩ := objectPairsHook_ok hhook _ hleaf'
    exact ⟨leaf', obj, hloadLeaf, hobj⟩
  | item ho _ ih =>
    obtain ⟨items, hitems, -⟩ := Except.bind_eq_ok.mp hload
    obtain ⟨o', -, hload'⟩ := (loadItems_ok hitems).2 _ ho
    exact ih hload'
  | entry he _ ih =>
    obtain ⟨entries, hentries, -⟩ := Except.bind_eq_ok.mp hload
    obtain ⟨o', -, hload'⟩ := loadEntries_ok hentries _ he
    exact ih hload'

/-- A decoder takes only lists of one length. -/
def Arity (tryDecodeValue : TryDecodeValue) (arity : ℕ) : Prop :=
  ∀ o obj, tryDecodeValue "value" o = .ok obj → ∃ items, o = .list items ∧ items.length = arity

theorem load_list_length {o : Obj} {items : List Obj} (h : load tryDecodeValue o = .ok (.list items)) :
    ∃ items', o = .list items' ∧ items'.length = items.length := by
  cases o with
  | list items' =>
    obtain ⟨loaded, hloaded, h⟩ := Except.bind_eq_ok.mp h
    cases h
    exact ⟨items', rfl, (loadItems_ok hloaded).1.symm⟩
  | dict entries =>
    obtain ⟨loaded, -, hhook⟩ := Except.bind_eq_ok.mp h
    obtain ⟨decoded, -, h⟩ := Except.bind_eq_ok.mp hhook
    cases h
  | _ => cases h

/-- A document with a leaf that is no list of the right length is refused. -/
theorem TreeClass.decode_of_arity {arity : ℕ} (harity : Arity cls.tryDecodeValue arity) {content : List UInt8}
    {document leaf : Obj} (hread : text.loads content = .ok document) (hleaf : LeafOf leaf document)
    (hbad : ¬ ∃ items, leaf = .list items ∧ items.length = arity) :
    cls.decode text package content = .error .valueError := by
  have hfail : ∀ o, load cls.tryDecodeValue document ≠ .ok o := by
    intro o hload
    obtain ⟨leaf', obj, hload', hobj⟩ := hleaf.decoded hload
    obtain ⟨items, rfl, hlen⟩ := harity _ _ hobj
    obtain ⟨items', hitems', hlen'⟩ := load_list_length hload'
    exact hbad ⟨items', hitems', hlen'.trans hlen⟩
  rw [TreeClass.decode, hread, Except.ok_bind]
  cases hload : load cls.tryDecodeValue document with
  | ok o => exact absurd hload (hfail o)
  | error e => rfl

end Dump

/-! The two classes -/

theorem tryDecodeValue_rewards (noId shares : ℤ) :
    RewardsTreeJSONDecoder.tryDecodeValue "value" (.list [.int noId, .int shares]) =
      .ok (.tuple [.int noId, .int shares]) := rfl

theorem rewardsTree_lawful : RewardsTree.Lawful where
  onlyValues key obj hkey := if_pos hkey
  leaf leaf := by
    refine ⟨[.int leaf.1, .int leaf.2], rfl, .list ?_, rfl, tryDecodeValue_rewards _ _⟩
    simp only [List.forall_mem_cons]
    exact ⟨.int _, .int _, fun _ h => absurd h List.not_mem_nil⟩

theorem rewardsTree_arity : Arity RewardsTree.tryDecodeValue 2 := by
  intro o obj h
  have hdecode : RewardsTreeJSONDecoder.tryDecodeValue "value" o = .ok obj := h
  unfold RewardsTreeJSONDecoder.tryDecodeValue at hdecode
  rw [if_neg (not_not.mpr rfl)] at hdecode
  split at hdecode
  · exact ⟨_, rfl, rfl⟩
  · cases hdecode

theorem tryDecodeValue_strikes (noId : ℤ) (pubkey : HexBytes) (strikes : List Obj) :
    StrikesTreeJSONDecoder.tryDecodeValue "value" (.list [.int noId, .str pubkey.to0xHex, .list strikes]) =
      .ok (.tuple [.int noId, .bytes pubkey, .strikesList strikes]) := by
  rw [StrikesTreeJSONDecoder.tryDecodeValue, if_neg (not_not.mpr rfl)]
  dsimp only [Obj.isInt]
  rw [if_neg (not_not.mpr (prefix_to0xHex pubkey)), hexStrToBytes_to0xHex]
  rfl

theorem write_strikesLeaf (leaf : StrikesTreeLeaf) : StrikesTreeJSONEncoder.write (StrikesTree.leafObj leaf) =
    .ok (.list [.int leaf.1, .str leaf.2.1.to0xHex, .list (leaf.2.2.map fun (s : ℕ) => .int s)]) := by
  let items : List Obj := leaf.2.2.map fun (s : ℕ) => .int s
  have hwrite : StrikesTreeJSONEncoder.writeItems items = .ok items := writeItems_map fun _ _ => rfl
  have hstrikes : StrikesTreeJSONEncoder.write (.strikesList items) = .ok (.list items) := by
    rw [JSONEncoder.write, hwrite]
    rfl
  have hleaf : StrikesTreeJSONEncoder.writeItems [.int leaf.1, .bytes leaf.2.1, .strikesList items] =
      .ok [.int leaf.1, .str leaf.2.1.to0xHex, .list items] := by
    rw [JSONEncoder.writeItems, JSONEncoder.writeItems, JSONEncoder.writeItems, hstrikes]
    rfl
  exact congrArg (fun written => written >>= fun items => Except.ok (Obj.list items)) hleaf

theorem strikesTree_lawful : StrikesTree.Lawful where
  onlyValues key obj hkey := if_pos hkey
  leaf leaf := by
    have hwrite := write_strikesLeaf leaf
    obtain ⟨noId, pubkey, strikes⟩ := leaf
    let items : List Obj := strikes.map fun (s : ℕ) => .int s
    have hload : loadItems StrikesTreeJSONDecoder.tryDecodeValue items = .ok items := loadItems_map fun _ _ => rfl
    have hplain : (Obj.list items).Plain := .list (List.forall_mem_map.mpr fun _ _ => .int _)
    refine ⟨[.int noId, .str pubkey.to0xHex, .list items], hwrite, .list ?_, ?_, tryDecodeValue_strikes _ _ _⟩
    · simp only [List.forall_mem_cons]
      exact ⟨.int _, .str _, hplain, fun _ h => absurd h List.not_mem_nil⟩
    · simp only [StrikesTree, load, loadItems, hload, Except.ok_bind]

theorem strikesTree_arity : Arity StrikesTree.tryDecodeValue 3 := by
  intro o obj h
  have hdecode : StrikesTreeJSONDecoder.tryDecodeValue "value" o = .ok obj := h
  unfold StrikesTreeJSONDecoder.tryDecodeValue at hdecode
  rw [if_neg (not_not.mpr rfl)] at hdecode
  split at hdecode
  · exact ⟨_, rfl, rfl⟩
  · cases hdecode

/-! From a map through its tree and back -/

section Publication

variable {L : Type}

/-- What a report holds of a tree: its root, and a CID that gives its encoding back -/
def TreeClass.Reported (cls : TreeClass L) (text : JsonText) (package : MerklePackage L) (ipfs : IpfsClient)
    (tree : Tree L) (frame : FrameNumber) (treeCid : Option CID) (treeRoot : HexBytes) : Prop :=
  tree.root ≠ ZERO_HASH ∧ treeRoot = tree.root ∧ ∃ cid content, treeCid = some cid ∧
    cls.encode text package tree = .ok content ∧ ipfs.fetch cid frame = .ok content

/-- A tree that was published is the tree that is read: its encoding is written, decodes to it, and gives the
next report its leaves. -/
structure TreeClass.Survives (cls : TreeClass L) (text : JsonText) (package : MerklePackage L) (ipfs : IpfsClient)
    (tree : Tree L) : Prop where
  document : ∃ document, document.Plain ∧ cls.encode text package tree = text.dumps document
  decode_encode : ∀ content, cls.encode text package tree = .ok content →
    cls.decode text package content = .ok tree
  readTree : ∀ frame treeCid treeRoot, cls.Reported text package ipfs tree frame treeCid treeRoot →
    LastReport.readTree (cls.services text package ipfs) frame treeCid treeRoot = .ok tree.values

variable {cls : TreeClass L} {text : JsonText} {package : MerklePackage L} {tree : Tree L}

theorem TreeClass.Lawful.survives (h : cls.Lawful) (htext : text.RoundTrip) (hpackage : package.Inverse cls.leafObj)
    (ipfs : IpfsClient) {values : List L} {encoding : List String}
    (htree : package.standardMerkleTree values encoding = .ok tree) : cls.Survives text package ipfs tree := by
  obtain ⟨hdocument, hdecode⟩ := h.decode_encode htext hpackage htree
  refine ⟨hdocument, hdecode, fun frame treeCid treeRoot hreported => ?_⟩
  obtain ⟨hroot, rfl, cid, content, rfl, hcontent, hfetch⟩ := hreported
  have hservice : (cls.services text package ipfs).fetch cid frame = .ok tree := by
    simp only [TreeClass.services, hfetch, Except.ok_bind, hdecode content hcontent]
    rfl
  rw [LastReport.readTree, if_neg hroot, hservice, Except.ok_bind, if_neg (not_not.mpr rfl)]
  rfl

/-- With an IPFS client that gives back what it was given, trees are read as they were published. -/
theorem TreeClass.Lawful.services_faithful (h : cls.Lawful) (htext : text.RoundTrip)
    (hpackage : package.Inverse cls.leafObj) {ipfs : IpfsClient} (hne : ∀ content, ipfs.publish content ≠ .ok "")
    (hipfs : ∀ content cid frame content', ipfs.publish content = .ok cid → ipfs.fetch cid frame = .ok content' →
      content' = content) : (cls.services text package ipfs).Faithful where
  values_kept values tree htree := hpackage.values_kept values _ tree htree
  publish_ne tree hpublish := by
    obtain ⟨content, -, hpublish⟩ := Except.bind_eq_ok.mp hpublish
    exact hne content hpublish
  fetch_publish tree cid frame fetched htree hpublish hfetch := by
    obtain ⟨content, hencode, hpublish⟩ := Except.bind_eq_ok.mp hpublish
    obtain ⟨content', hcontent', hdecode⟩ := Except.bind_eq_ok.mp hfetch
    rw [hipfs content cid frame content' hpublish hcontent', Py.lift_eq_ok,
      (h.decode_encode htext hpackage htree).2 content (Py.lift_eq_ok.mp hencode)] at hdecode
    exact (Except.ok.inj hdecode).symm

end Publication

/-- The key under which a frame counts the strikes of a validator -/
def strikesKey {χ : Type} (noId : NodeOperatorId) (validator : Validator) : Py χ StrikesValidator := do
  let pubkey ← hexStrToBytes validator.validator.pubkey
  return (noId, pubkey)

section Trees

variable {services : Services}

/-- The leaves of a rewards map, in whatever order, make one tree. -/
theorem newRewardsTree_perm {shares shares' : Dict NodeOperatorId RewardsShares}
    (h : shares.entries.Perm shares'.entries) :
    newRewardsTree services shares.entries = newRewardsTree services shares'.entries := by
  rw [newRewardsTree, newRewardsTree, Sorted.sortedBy_eq_of_perm shares.nodupKeys h]

/-- The leaves of a strikes map -/
def strikesLeaves (strikes : Dict StrikesValidator StrikesList) : List StrikesTreeLeaf :=
  strikes.entries.map fun e => (e.1.1, e.1.2, e.2)

theorem strikesLeaves_keys (strikes : Dict StrikesValidator StrikesList) :
    ((strikesLeaves strikes).map fun leaf => toLex (leaf.1, leaf.2.1.map UInt8.toNat)).Nodup := by
  have hinj : Function.Injective fun key : StrikesValidator => toLex (key.1, key.2.map UInt8.toNat) := by
    intro key key' h
    obtain ⟨hid, hpubkey⟩ := Prod.mk.inj (toLex.injective h)
    exact Prod.ext hid (List.map_injective_iff.mpr (fun _ _ => UInt8.toNat_inj.mp) hpubkey)
  have hkeys := strikes.nodupKeys.map hinj
  rw [List.map_map] at hkeys
  rw [strikesLeaves, List.map_map]
  exact hkeys

theorem newStrikesTree_perm {strikes strikes' : Dict StrikesValidator StrikesList}
    (h : strikes.entries.Perm strikes'.entries) :
    newStrikesTree services (strikesLeaves strikes) = newStrikesTree services (strikesLeaves strikes') := by
  have hleaves : (strikesLeaves strikes).Perm (strikesLeaves strikes') := h.map _
  rw [newStrikesTree, newStrikesTree, Sorted.sortedBy_eq_of_perm (strikesLeaves_keys strikes) hleaves]

/-- The leaves of the tree of a strikes map give the map back. -/
theorem strikes_of_values {strikes : Dict StrikesValidator StrikesList} {values : List StrikesTreeLeaf}
    (h : values.Perm (strikesLeaves strikes)) :
    (Dict.ofList (values.map fun leaf => ((leaf.1, leaf.2.1), leaf.2.2))).entries.Perm strikes.entries := by
  refine Dict.entries_ofList_perm ?_
  have hmap := h.map fun leaf : StrikesTreeLeaf => ((leaf.1, leaf.2.1), leaf.2.2)
  rw [strikesLeaves, List.map_map] at hmap
  exact hmap.trans (List.Perm.of_eq (List.map_id _))

end Trees

/-- The services of a report over text, a tree package for each kind of leaf, and IPFS -/
def textServices (text : JsonText) (rewards : MerklePackage RewardsTreeLeaf) (strikes : MerklePackage StrikesTreeLeaf)
    (ipfs : IpfsClient) : Services where
  rewards := RewardsTree.services text rewards ipfs
  strikes := StrikesTree.services text strikes ipfs

section Survival

variable (text : JsonText) (rewardsPackage : MerklePackage RewardsTreeLeaf)
  (strikesPackage : MerklePackage StrikesTreeLeaf) (ipfs : IpfsClient)

/-- The leaves of the rewards tree, as they are published and as the next report reads them, are the map. -/
structure RewardsSurvive (shares : Dict NodeOperatorId RewardsShares) (tree : Tree RewardsTreeLeaf) : Prop where
  survives : RewardsTree.Survives text rewardsPackage ipfs tree
  values : (Dict.ofList tree.values).entries.Perm shares.entries
  lastReport : ∀ lastReport : LastReport, RewardsTree.Reported text rewardsPackage ipfs tree
      lastReport.currentFrame lastReport.rewardsTreeCid lastReport.rewardsTreeRoot →
    ∃ leaves, lastReport.rewards (textServices text rewardsPackage strikesPackage ipfs).rewards = .ok leaves ∧
      (Dict.ofList leaves).entries.Perm shares.entries

/-- The same for strikes, which the next frame finds under the keys of its validators. -/
structure StrikesSurvive (strikes : Dict StrikesValidator StrikesList) (tree : Tree StrikesTreeLeaf) : Prop where
  survives : StrikesTree.Survives text strikesPackage ipfs tree
  values : (Dict.ofList (tree.values.map fun leaf => ((leaf.1, leaf.2.1), leaf.2.2))).entries.Perm strikes.entries
  lastReport : ∀ lastReport : LastReport, StrikesTree.Reported text strikesPackage ipfs tree
      lastReport.currentFrame lastReport.strikesTreeCid lastReport.strikesTreeRoot →
    ∃ read, lastReport.strikes (textServices text rewardsPackage strikesPackage ipfs).strikes = .ok read ∧
      read.entries.Perm strikes.entries ∧
      ∀ noId validator key, (strikesKey noId validator : Coding StrikesValidator) = .ok key →
        read.get? key = strikes.get? key

variable {text rewardsPackage strikesPackage ipfs}

theorem rewardsSurvive (htext : text.RoundTrip) (hrewards : rewardsPackage.Inverse RewardsTree.leafObj)
    {shares : Dict NodeOperatorId RewardsShares} {tree : Tree RewardsTreeLeaf}
    (htree : newRewardsTree (textServices text rewardsPackage strikesPackage ipfs) shares.entries = .ok tree) :
    RewardsSurvive text rewardsPackage strikesPackage ipfs shares tree := by
  have hsurvives := rewardsTree_lawful.survives htext hrewards ipfs htree
  have hperm : tree.values.Perm shares.entries := by
    rw [hrewards.values_kept _ _ _ htree]
    exact Sorted.perm_sortedBy
  exact ⟨hsurvives, Dict.entries_ofList_perm hperm, fun lastReport hreported =>
    ⟨tree.values, hsurvives.readTree _ _ _ hreported, Dict.entries_ofList_perm hperm⟩⟩

theorem strikesSurvive (htext : text.RoundTrip) (hstrikes : strikesPackage.Inverse StrikesTree.leafObj)
    {strikes : Dict StrikesValidator StrikesList} {tree : Tree StrikesTreeLeaf}
    (htree : newStrikesTree (textServices text rewardsPackage strikesPackage ipfs) (strikesLeaves strikes) = .ok tree) :
    StrikesSurvive text rewardsPackage strikesPackage ipfs strikes tree := by
  have hsurvives := strikesTree_lawful.survives htext hstrikes ipfs htree
  have hperm : tree.values.Perm (strikesLeaves strikes) := by
    rw [hstrikes.values_kept _ _ _ htree]
    exact Sorted.perm_sortedBy
  have hread := strikes_of_values hperm
  refine ⟨hsurvives, hread, fun lastReport hreported => ⟨_, ?_, hread, fun _ _ key _ => Dict.get?_eq_of_perm hread key⟩⟩
  have hvalues := hsurvives.readTree _ _ _ hreported
  rw [LastReport.strikes]
  exact congrArg (fun values => values >>= fun values =>
    Except.ok (Dict.ofList (values.map fun leaf : StrikesTreeLeaf => ((leaf.1, leaf.2.1), leaf.2.2)))) hvalues

end Survival

/-- Rewards and strikes come back from their trees as they went in, the trees do not see the order of the maps,
and a leaf of the wrong arity is refused. -/
theorem trees_survive_publication (text : JsonText) (rewardsPackage : MerklePackage RewardsTreeLeaf)
    (strikesPackage : MerklePackage StrikesTreeLeaf) (ipfs : IpfsClient) (htext : text.RoundTrip)
    (hrewards : rewardsPackage.Inverse RewardsTree.leafObj) (hstrikes : strikesPackage.Inverse StrikesTree.leafObj) :
    (∀ (shares : Dict NodeOperatorId RewardsShares) tree,
      newRewardsTree (textServices text rewardsPackage strikesPackage ipfs) shares.entries = .ok tree →
      RewardsSurvive text rewardsPackage strikesPackage ipfs shares tree) ∧
    (∀ (strikes : Dict StrikesValidator StrikesList) tree,
      newStrikesTree (textServices text rewardsPackage strikesPackage ipfs) (strikesLeaves strikes) = .ok tree →
      StrikesSurvive text rewardsPackage strikesPackage ipfs strikes tree) ∧
    (∀ shares shares' : Dict NodeOperatorId RewardsShares, shares.entries.Perm shares'.entries →
      newRewardsTree (textServices text rewardsPackage strikesPackage ipfs) shares.entries =
        newRewardsTree (textServices text rewardsPackage strikesPackage ipfs) shares'.entries) ∧
    (∀ strikes strikes' : Dict StrikesValidator StrikesList, strikes.entries.Perm strikes'.entries →
      newStrikesTree (textServices text rewardsPackage strikesPackage ipfs) (strikesLeaves strikes) =
        newStrikesTree (textServices text rewardsPackage strikesPackage ipfs) (strikesLeaves strikes')) ∧
    ∀ content document leaf, text.loads content = .ok document → LeafOf leaf document →
      ((¬ ∃ items, leaf = .list items ∧ items.length = 2) →
        RewardsTree.decode text rewardsPackage content = .error .valueError) ∧
      ((¬ ∃ items, leaf = .list items ∧ items.length = 3) →
        StrikesTree.decode text strikesPackage content = .error .valueError) := by
  refine ⟨fun _ _ htree => rewardsSurvive htext hrewards htree, fun _ _ htree => strikesSurvive htext hstrikes htree,
    fun _ _ h => newRewardsTree_perm h, fun _ _ h => newStrikesTree_perm h, fun content document leaf hread hleaf => ?_⟩
  exact ⟨TreeClass.decode_of_arity rewardsTree_arity hread hleaf,
    TreeClass.decode_of_arity strikesTree_arity hread hleaf⟩

open Classical in
/-- A package that makes one tree, and loads its dump and nothing else -/
noncomputable def onePackage {L : Type} (leafObj : L → Obj) (tree : Tree L) (dump : Dump L) : MerklePackage L where
  standardMerkleTree values _ :=
    if values = tree.values then .ok tree else .error (.raised .standardMerkleTree)
  dump _ := dump
  load o := if o = dump.readBack leafObj then .ok tree else .error (.raised .standardMerkleTree)

theorem onePackage_inverse {L : Type} (leafObj : L → Obj) (tree : Tree L) (dump : Dump L) :
    (onePackage leafObj tree dump).Inverse leafObj := by
  have hmade : ∀ values encoding tree', (onePackage leafObj tree dump).standardMerkleTree values encoding = .ok tree' →
      values = tree.values ∧ tree = tree' := by
    intro values encoding tree' h
    unfold onePackage at h
    dsimp only at h
    split_ifs at h with hvalues
    exact ⟨hvalues, Except.ok.inj h⟩
  refine ⟨fun values encoding tree' h => ?_, fun values encoding tree' h => ?_⟩
  · obtain ⟨hvalues, rfl⟩ := hmade values encoding tree' h
    exact hvalues.symm
  · obtain ⟨-, rfl⟩ := hmade values encoding tree' h
    exact if_pos rfl

def sampleRewards : Tree RewardsTreeLeaf := ⟨[1], [(3, 7), (5, 4)]⟩

def rewardsDump : Dump RewardsTreeLeaf :=
  ⟨"standard-v1", ["uint256", "uint256"], [[1], [2], [3]], [((3, 7), 2), ((5, 4), 1)]⟩

def sampleStrikes : Tree StrikesTreeLeaf := ⟨[4], [(3, [0xab], [1, 0])]⟩

def strikesDump : Dump StrikesTreeLeaf :=
  ⟨"standard-v1", ["uint256", "bytes", "uint256[]"], [[4]], [((3, [0xab], [1, 0]), 0)]⟩

/-- A dump as JSON knows it -/
def Dump.document {L : Type} (dump : Dump L) (leafItems : L → List Obj) : Obj :=
  dump.object (fun node => .str node.to0xHex) fun v =>
    .dict [("treeIndex", .int v.2), ("value", .list (leafItems v.1))]

theorem Dump.leafOf_document {L : Type} {dump : Dump L} {leafItems : L → List Obj} {v : L × ℕ} (hv : v ∈ dump.values) :
    LeafOf (.list (leafItems v.1)) (dump.document leafItems) := by
  have hvalue : LeafOf (.list (leafItems v.1)) (.dict [("treeIndex", .int v.2), ("value", .list (leafItems v.1))]) :=
    .value (List.mem_cons_of_mem _ List.mem_cons_self)
  have hvalues : LeafOf (.list (leafItems v.1)) (.list (dump.values.map fun v =>
      Obj.dict [("treeIndex", .int v.2), ("value", .list (leafItems v.1))])) := .item (List.mem_map_of_mem hv) hvalue
  unfold Dump.document Dump.object
  exact @LeafOf.entry _ _ ("values", _)
    (List.mem_cons_of_mem _ (List.mem_cons_of_mem _ (List.mem_cons_of_mem _ List.mem_cons_self))) hvalues

def rewardsDocument : Obj := rewardsDump.document fun leaf => [.int leaf.1, .int leaf.2]

def strikesDocument : Obj := strikesDump.document fun leaf =>
  [.int leaf.1, .str leaf.2.1.to0xHex, .list (leaf.2.2.map fun s : ℕ => .int s)]

/-- The rewards tree with a third number in its leaves -/
def wideDocument : Obj := rewardsDump.document fun leaf => [.int leaf.1, .int leaf.2, .int 0]

def rewardsText : List UInt8 := Py.encodeAscii (
  "\x7b\"format\":\"standard-v1\",\"leafEncoding\":[\"uint256\",\"uint256\"]," ++
  "\"tree\":[\"0x01\",\"0x02\",\"0x03\"]," ++
  "\"values\":[\x7b\"treeIndex\":2,\"value\":[3,7]\x7d,\x7b\"treeIndex\":1,\"value\":[5,4]\x7d]\x7d")

def strikesText : List UInt8 := Py.encodeAscii (
  "\x7b\"format\":\"standard-v1\",\"leafEncoding\":[\"uint256\",\"bytes\",\"uint256[]\"]," ++
  "\"tree\":[\"0x04\"],\"values\":[\x7b\"treeIndex\":0,\"value\":[3,\"0xab\",[1,0]]\x7d]\x7d")

def wideText : List UInt8 := Py.encodeAscii (
  "\x7b\"format\":\"standard-v1\",\"leafEncoding\":[\"uint256\",\"uint256\"]," ++
  "\"tree\":[\"0x01\",\"0x02\",\"0x03\"]," ++
  "\"values\":[\x7b\"treeIndex\":2,\"value\":[3,7,0]\x7d,\x7b\"treeIndex\":1,\"value\":[5,4,0]\x7d]\x7d")

open Classical in
/-- The text of the two documents, and how the three texts read -/
noncomputable def sampleJson : JsonText where
  dumps o := if o = rewardsDocument then .ok rewardsText else if o = strikesDocument then .ok strikesText
    else .error .valueError
  loads raw := if raw = rewardsText then .ok rewardsDocument else if raw = strikesText then .ok strikesDocument
    else if raw = wideText then .ok wideDocument else .error .valueError

theorem sampleJson_dumps : sampleJson.dumps rewardsDocument = .ok rewardsText ∧
    sampleJson.dumps strikesDocument = .ok strikesText := by
  have hdocument : strikesDocument ≠ rewardsDocument := by
    simp [strikesDocument, rewardsDocument, Dump.document, Dump.object, strikesDump, rewardsDump]
  simp [sampleJson, hdocument]

theorem sampleJson_loads : sampleJson.loads rewardsText = .ok rewardsDocument ∧
    sampleJson.loads strikesText = .ok strikesDocument ∧ sampleJson.loads wideText = .ok wideDocument := by
  have hstrikes : strikesText ≠ rewardsText := by decide +kernel
  have hwide : wideText ≠ rewardsText ∧ wideText ≠ strikesText := by decide +kernel
  simp [sampleJson, hstrikes, hwide]

theorem sampleJson_roundTrip : sampleJson.RoundTrip := by
  intro o raw _ h
  unfold sampleJson at h
  dsimp only at h
  split_ifs at h with hrewards hstrikes
  · rw [← Except.ok.inj h, hrewards]
    exact sampleJson_loads.1
  · rw [← Except.ok.inj h, hstrikes]
    exact sampleJson_loads.2.1

/-- Contents by the names they were published under -/
def sampleIpfs : IpfsClient where
  publish content := .ok (if content = rewardsText then "QmRewards" else "QmStrikes")
  fetch cid _ := .ok (if cid = "QmRewards" then rewardsText else strikesText)

theorem trees_survive_publication_sample :
    RewardsTree.decode sampleJson (onePackage RewardsTree.leafObj sampleRewards rewardsDump) rewardsText =
        .ok sampleRewards ∧
      StrikesTree.decode sampleJson (onePackage StrikesTree.leafObj sampleStrikes strikesDump) strikesText =
        .ok sampleStrikes ∧
      LastReport.readTree (RewardsTree.services sampleJson (onePackage RewardsTree.leafObj sampleRewards rewardsDump)
        sampleIpfs) 9 (some "QmRewards") [1] = .ok [(3, 7), (5, 4)] ∧
      LastReport.readTree (StrikesTree.services sampleJson (onePackage StrikesTree.leafObj sampleStrikes strikesDump)
        sampleIpfs) 9 (some "QmStrikes") [4] = .ok [(3, [0xab], [1, 0])] ∧
      RewardsTree.decode sampleJson (onePackage RewardsTree.leafObj sampleRewards rewardsDump) wideText =
        .error .valueError := by
  obtain ⟨hrewards, hstrikes, -, -, hrefused⟩ := trees_survive_publication sampleJson
    (onePackage RewardsTree.leafObj sampleRewards rewardsDump) (onePackage StrikesTree.leafObj sampleStrikes strikesDump)
    sampleIpfs sampleJson_roundTrip (onePackage_inverse _ _ _) (onePackage_inverse _ _ _)
  have hrewards := (hrewards (Dict.ofList [(5, 4), (3, 7)]) sampleRewards (if_pos (by decide))).survives
  have hstrikes := (hstrikes (Dict.ofList [((3, [0xab]), [1, 0])]) sampleStrikes (if_pos (by decide))).survives
  have hwriteRewards : TreeJSONEncoder.write (rewardsDump.toObj RewardsTree.leafObj) = .ok rewardsDocument :=
    write_object (fun _ => rfl) fun v => write_value rfl v.2
  have hwriteStrikes : StrikesTreeJSONEncoder.write (strikesDump.toObj StrikesTree.leafObj) = .ok strikesDocument :=
    write_object (fun _ => rfl) fun v => write_value (write_strikesLeaf v.1) v.2
  have hencodeRewards : RewardsTree.encode sampleJson (onePackage RewardsTree.leafObj sampleRewards rewardsDump)
      sampleRewards = .ok rewardsText := by
    rw [TreeClass.encode]
    exact (congrArg (fun written => written >>= sampleJson.dumps) hwriteRewards).trans sampleJson_dumps.1
  have hencodeStrikes : StrikesTree.encode sampleJson (onePackage StrikesTree.leafObj sampleStrikes strikesDump)
      sampleStrikes = .ok strikesText := by
    rw [TreeClass.encode]
    exact (congrArg (fun written => written >>= sampleJson.dumps) hwriteStrikes).trans sampleJson_dumps.2
  refine ⟨hrewards.decode_encode _ hencodeRewards, hstrikes.decode_encode _ hencodeStrikes,
    hrewards.readTree 9 _ _ ⟨by decide, rfl, "QmRewards", _, rfl, hencodeRewards, rfl⟩,
    hstrikes.readTree 9 _ _ ⟨by decide, rfl, "QmStrikes", _, rfl, hencodeStrikes, rfl⟩,
    (hrefused wideText wideDocument (.list [.int 3, .int 7, .int 0]) sampleJson_loads.2.2 ?_).1 ?_⟩
  · exact @Dump.leafOf_document _ rewardsDump (fun leaf => [.int leaf.1, .int leaf.2, .int 0]) ((3, 7), 2)
      List.mem_cons_self
  · intro hlist
    obtain ⟨items, hitems, hlength⟩ := hlist
    cases hitems
    cases hlength

end StakingModules

end LidoOracle
