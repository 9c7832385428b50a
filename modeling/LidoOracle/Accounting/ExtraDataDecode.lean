import LidoOracle.Accounting.ExtraData

/-! The chain of transactions decodes to the dictionary it was built from. -/

namespace LidoOracle

namespace ExtraDataService

section Payloads

variable {validators : ExitedValidators} {n : ℕ}

/-- The items in the order in which they are encoded -/
def payloadsOf (validators : ExitedValidators) (n : ℕ) : List ItemPayload :=
  (Itertools.groupby (fun e => e.1.1) (sortedOperators validators)).flatMap fun group =>
    (Itertools.batches n group.2).map (payloadOf group.1)

def ItemPayload.pairs (payload : ItemPayload) : List (NodeOperatorGlobalIndex × ℕ) :=
  (payload.nodeOperatorIds.zip payload.value).map fun p => ((payload.moduleId, p.1), p.2)

theorem buildValidatorsPayloads_eq (hn : 0 < n) :
    buildValidatorsPayloads validators n = .ok (payloadsOf validators n) := by
  unfold buildValidatorsPayloads payloadsOf
  generalize Itertools.groupby (fun e => e.1.1) (sortedOperators validators) = groups
  have hgen : ∀ acc : List ItemPayload, (groups.foldlM (fun payloads group => do
      let batches ← Itertools.batched group.2 n
      return payloads ++ batches.map (payloadOf group.1)) acc : Collect _) =
      .ok (acc ++ groups.flatMap fun group => (Itertools.batches n group.2).map (payloadOf group.1)) := by
    induction groups with
    | nil => exact fun acc => by simp [pure, Except.pure]
    | cons group groups ih =>
      intro acc
      have hbatch : (Itertools.batched group.2 n : Collect _) = .ok (Itertools.batches n group.2) :=
        Itertools.batched_eq_ok.mpr ⟨hn, rfl⟩
      rw [List.foldlM_cons, hbatch]
      refine (ih _).trans ?_
      rw [List.flatMap_cons, List.append_assoc]
  exact hgen []

theorem payloadOf_pairs {moduleId : StakingModuleId} {batch : List (NodeOperatorGlobalIndex × ℕ)}
    (h : ∀ e ∈ batch, e.1.1 = moduleId) : (payloadOf moduleId batch).pairs = batch := by
  rw [ItemPayload.pairs, payloadOf, List.zip_map', List.map_map]
  refine (List.map_congr_left fun e he => ?_).trans (List.map_id _)
  simp only [Function.comp_apply, ← h e he, id]

/-- An item is a batch of dictionary entries of one module. -/
theorem mem_payloadsOf (hn : 0 < n) {payload : ItemPayload} (h : payload ∈ payloadsOf validators n) :
    ∃ moduleId batch, payload = payloadOf moduleId batch ∧ batch ≠ [] ∧ batch.length ≤ n ∧
      ∀ e ∈ batch, e ∈ validators.entries ∧ e.1.1 = moduleId := by
  obtain ⟨group, hgroup, h⟩ := List.mem_flatMap.mp h
  obtain ⟨batch, hbatch, rfl⟩ := List.mem_map.mp h
  refine ⟨group.1, batch, rfl, Itertools.ne_nil_of_mem_batches hn hbatch,
    Itertools.length_of_mem_batches hbatch, fun e he => ?_⟩
  have hmem : e ∈ group.2 := by
    rw [← Itertools.batches_flatten hn group.2]
    exact List.mem_flatten_of_mem hbatch he
  refine ⟨?_, Itertools.groupby_key (show (group.1, group.2) ∈ _ from hgroup) e hmem⟩
  have hsorted : e ∈ sortedOperators validators := by
    rw [← Itertools.groupby_flatten (fun e => e.1.1) (sortedOperators validators)]
    exact List.mem_flatMap.mpr ⟨group, hgroup, hmem⟩
  exact Sorted.mem_sortedBy.mp hsorted

/-- Grouping and batching lose no pair and keep the order. -/
theorem payloadsOf_pairs (hn : 0 < n) :
    (payloadsOf validators n).flatMap ItemPayload.pairs = sortedOperators validators := by
  rw [payloadsOf, List.flatMap_assoc]
  refine Eq.trans ?_ (Itertools.groupby_flatten (fun e => e.1.1) (sortedOperators validators))
  refine List.flatMap_congr fun group hgroup => ?_
  have hkey : ∀ batch ∈ Itertools.batches n group.2, (payloadOf group.1 batch).pairs = batch := by
    intro batch hbatch
    refine payloadOf_pairs fun e he => ?_
    refine Itertools.groupby_key (show (group.1, group.2) ∈ _ from hgroup) e ?_
    rw [← Itertools.batches_flatten hn group.2]
    exact List.mem_flatten_of_mem hbatch he
  rw [List.flatMap_map, List.flatMap_congr hkey, List.flatMap_id']
  exact Itertools.batches_flatten hn group.2

end Payloads

section Items

/-- Every field of an item fits its width. -/
structure Fits (index : ℕ) (payload : ItemPayload) : Prop where
  index : index < 256 ^ 3
  moduleId : payload.moduleId < 256 ^ 3
  count : payload.nodeOperatorIds.length < 256 ^ 8
  ids : ∀ id ∈ payload.nodeOperatorIds, id < 256 ^ 8
  value : ∀ v ∈ payload.value, v < 256 ^ 16

def itemBytes (index : ℕ) (payload : ItemPayload) : List UInt8 :=
  BigEndian.digits 3 index ++ BigEndian.digits 2 2 ++ BigEndian.digits 3 payload.moduleId ++
    BigEndian.digits 8 payload.nodeOperatorIds.length ++
    payload.nodeOperatorIds.flatMap (BigEndian.digits 8) ++ payload.value.flatMap (BigEndian.digits 16)

def itemOf (index : ℕ) (payload : ItemPayload) : Item where
  index := index
  itemType := 2
  moduleId := payload.moduleId
  nodeOperatorIds := payload.nodeOperatorIds
  value := payload.value

variable {index : ℕ} {payload : ItemPayload}

theorem toBytesAll_ok_iff {len : ℕ} {ns : List ℕ} {bytes : List UInt8} :
    toBytesAll len ns = .ok bytes ↔
      (∀ m ∈ ns, m < 256 ^ len) ∧ bytes = ns.flatMap (BigEndian.digits len) := by
  constructor
  · intro h
    obtain ⟨parts, hparts, h⟩ := Except.bind_eq_ok.mp h
    rw [Except.pure_eq_ok] at h
    have hfit : ∀ m ∈ ns, m < 256 ^ len := by
      intro m hm
      obtain ⟨part, hpart⟩ := ExceptRun.mapM_ok_of_mem hparts hm
      exact (Py.toBytes_eq_ok.mp hpart).1
    refine ⟨hfit, ?_⟩
    have hdigits : ∀ m ∈ ns, (Py.toBytes len m : Collect _) = .ok (BigEndian.digits len m) :=
      fun m hm => Py.toBytes_eq_ok.mpr ⟨hfit m hm, rfl⟩
    rw [ExceptRun.mapM_of_ok hdigits, Except.ok.injEq] at hparts
    rw [← h, ← hparts, List.flatMap_def]
  · rintro ⟨hfit, rfl⟩
    have hdigits : ∀ m ∈ ns, (Py.toBytes len m : Collect _) = .ok (BigEndian.digits len m) :=
      fun m hm => Py.toBytes_eq_ok.mpr ⟨hfit m hm, rfl⟩
    rw [toBytesAll, ExceptRun.mapM_of_ok hdigits, Except.ok_bind, Except.pure_eq_ok, List.flatMap_def]

theorem encodeItem_ok_iff {itemType : ItemType} {bytes : List UInt8} :
    encodeItem index itemType payload = .ok bytes ↔ Fits index payload ∧ bytes = itemBytes index payload := by
  have htype : itemType.value = 2 := by
    cases itemType
    rfl
  simp only [encodeItem, Except.bind_eq_ok, Py.toBytes_eq_ok, toBytesAll_ok_iff, Except.pure_eq_ok, htype]
  constructor
  · rintro ⟨_, ⟨h₁, rfl⟩, _, ⟨-, rfl⟩, _, ⟨h₂, rfl⟩, _, ⟨h₃, rfl⟩, _, ⟨h₄, rfl⟩, _, ⟨h₅, rfl⟩, rfl⟩
    exact ⟨⟨h₁, h₂, h₃, h₄, h₅⟩, rfl⟩
  · rintro ⟨h, rfl⟩
    exact ⟨_, ⟨h.index, rfl⟩, _, ⟨by decide, rfl⟩, _, ⟨h.moduleId, rfl⟩, _, ⟨h.count, rfl⟩, _,
      ⟨h.ids, rfl⟩, _, ⟨h.value, rfl⟩, rfl⟩

theorem length_flatMap_digits (len : ℕ) (ns : List ℕ) :
    (ns.flatMap (BigEndian.digits len)).length = len * ns.length := by
  have hwidth : ∀ part ∈ ns.map (BigEndian.digits len), part.length = len :=
    List.forall_mem_map.mpr fun m _ => BigEndian.digits_length len m
  rw [List.flatMap_def, Bytes.length_flatten_of_width hwidth, List.length_map]

/-- A block of numbers is read back from the front of what follows. -/
theorem parseNumbers_flatMap {len : ℕ} (hlen : 0 < len) {ns : List ℕ} (h : ∀ m ∈ ns, m < 256 ^ len)
    (rest : List UInt8) :
    parseNumbers len ns.length (ns.flatMap (BigEndian.digits len) ++ rest) = ns := by
  rw [parseNumbers, List.take_left' (length_flatMap_digits len ns), List.flatMap_def,
    Bytes.cut_flatten hlen (List.forall_mem_map.mpr fun m _ => BigEndian.digits_length len m),
    List.map_map]
  refine (List.map_congr_left fun m hm => ?_).trans (List.map_id _)
  rw [Function.comp_apply, BigEndian.fromBytes_digits, Nat.mod_eq_of_lt (h m hm), id]

theorem length_itemBytes (hvalue : payload.value.length = payload.nodeOperatorIds.length) :
    (itemBytes index payload).length = 16 + 24 * payload.nodeOperatorIds.length := by
  simp only [itemBytes, List.length_append, BigEndian.digits_length, length_flatMap_digits, hvalue]
  omega

/-- One item is read back, whatever follows it. -/
theorem parseItem_itemBytes (h : Fits index payload)
    (hvalue : payload.value.length = payload.nodeOperatorIds.length) (rest : List UInt8) :
    parseItem (itemBytes index payload ++ rest) = some (itemOf index payload, rest) := by
  have hlength : (itemBytes index payload ++ rest).length =
      16 + 24 * payload.nodeOperatorIds.length + rest.length := by
    rw [List.length_append, length_itemBytes hvalue]
  have hall : (itemBytes index payload ++ rest).drop (16 + 24 * payload.nodeOperatorIds.length) = rest :=
    List.drop_left' (length_itemBytes hvalue)
  set i := BigEndian.digits 3 index with hi
  set t := BigEndian.digits 2 2 with ht
  set m := BigEndian.digits 3 payload.moduleId with hm
  set c := BigEndian.digits 8 payload.nodeOperatorIds.length with hc
  set ids := payload.nodeOperatorIds.flatMap (BigEndian.digits 8) with hids
  set values := payload.value.flatMap (BigEndian.digits 16) with hvalues
  have hilen : i.length = 3 := BigEndian.digits_length _ _
  have htlen : t.length = 2 := BigEndian.digits_length _ _
  have hmlen : m.length = 3 := BigEndian.digits_length _ _
  have hclen : c.length = 8 := BigEndian.digits_length _ _
  have hidslen : ids.length = 8 * payload.nodeOperatorIds.length := length_flatMap_digits _ _
  have hsplit : itemBytes index payload ++ rest = i ++ (t ++ (m ++ (c ++ (ids ++ (values ++ rest))))) := by
    simp only [itemBytes, List.append_assoc, hi, ht, hm, hc, hids, hvalues]
  rw [hsplit] at hall hlength ⊢
  have hdrop3 : (i ++ (t ++ (m ++ (c ++ (ids ++ (values ++ rest)))))).drop 3 =
      t ++ (m ++ (c ++ (ids ++ (values ++ rest)))) := List.drop_left' hilen
  have hdrop5 : (i ++ (t ++ (m ++ (c ++ (ids ++ (values ++ rest)))))).drop 5 =
      m ++ (c ++ (ids ++ (values ++ rest))) := by
    rw [show 5 = 3 + 2 from rfl, ← List.drop_drop, hdrop3, List.drop_left' htlen]
  have hdrop8 : (i ++ (t ++ (m ++ (c ++ (ids ++ (values ++ rest)))))).drop 8 =
      c ++ (ids ++ (values ++ rest)) := by
    rw [show 8 = 5 + 3 from rfl, ← List.drop_drop, hdrop5, List.drop_left' hmlen]
  have hdrop16 : (i ++ (t ++ (m ++ (c ++ (ids ++ (values ++ rest)))))).drop 16 =
      ids ++ (values ++ rest) := by
    rw [show 16 = 8 + 8 from rfl, ← List.drop_drop, hdrop8, List.drop_left' hclen]
  have hdropValues : (i ++ (t ++ (m ++ (c ++ (ids ++ (values ++ rest)))))).drop
      (16 + 8 * payload.nodeOperatorIds.length) = values ++ rest := by
    rw [← List.drop_drop, hdrop16, List.drop_left' hidslen]
  have hcount : BigEndian.fromBytes c = payload.nodeOperatorIds.length := by
    rw [hc, BigEndian.fromBytes_digits, Nat.mod_eq_of_lt h.count]
  have hindex : BigEndian.fromBytes i = index := by
    rw [hi, BigEndian.fromBytes_digits, Nat.mod_eq_of_lt h.index]
  have htype : BigEndian.fromBytes t = 2 := by rw [ht, BigEndian.fromBytes_digits]; rfl
  have hmodule : BigEndian.fromBytes m = payload.moduleId := by
    rw [hm, BigEndian.fromBytes_digits, Nat.mod_eq_of_lt h.moduleId]
  have hparsedIds : parseNumbers 8 payload.nodeOperatorIds.length (ids ++ (values ++ rest)) =
      payload.nodeOperatorIds := parseNumbers_flatMap (by decide) h.ids _
  have hparsedValues : parseNumbers 16 payload.nodeOperatorIds.length (values ++ rest) =
      payload.value := by
    rw [← hvalue]
    exact parseNumbers_flatMap (by decide) h.value _
  unfold parseItem
  rw [hdrop8, List.take_left' hclen, hcount]
  dsimp only
  rw [if_neg (by rw [hlength]; omega), hall, hdrop3, hdrop5, hdrop16, hdropValues,
    List.take_left' hilen, List.take_left' htlen, List.take_left' hmlen, hindex, htype, hmodule,
    hparsedIds, hparsedValues]
  rfl

end Items

section Transactions

/-- The items of consecutive payloads, numbered from `index` -/
def itemsFrom (index : ℕ) (payloads : List ItemPayload) : List Item :=
  (payloads.zipIdx index).map fun q => itemOf q.2 q.1

def bodyFrom (index : ℕ) (payloads : List ItemPayload) : List UInt8 :=
  (payloads.zipIdx index).flatMap fun q => itemBytes q.2 q.1

/-- The index runs on from one transaction to the next. -/
def bodiesFrom : ℕ → List (List ItemPayload) → List (List UInt8)
  | _, [] => []
  | index, batch :: batches => bodyFrom index batch :: bodiesFrom (index + batch.length) batches

def tagged (payloads : List ItemPayload) : List (ItemType × ItemPayload) :=
  payloads.map fun payload => (ItemType.exitedValidators, payload)

theorem encodeBatch_ok_iff {index : ℕ} {payloads : List ItemPayload} {r : ℕ × List UInt8} :
    encodeBatch index (tagged payloads) = .ok r ↔
      (∀ q ∈ payloads.zipIdx index, Fits q.2 q.1) ∧
        r = (index + payloads.length, bodyFrom index payloads) := by
  have hgen : ∀ (payloads : List ItemPayload) (index : ℕ) (txBody : List UInt8) (r : ℕ × List UInt8),
      (tagged payloads).foldlM appendItem (index, txBody) = .ok r ↔
      (∀ q ∈ payloads.zipIdx index, Fits q.2 q.1) ∧
        r = (index + payloads.length, txBody ++ bodyFrom index payloads) := by
    intro payloads
    induction payloads with
    | nil =>
      intro index txBody r
      simp [tagged, bodyFrom, pure, Except.pure, eq_comm]
    | cons payload payloads ih =>
      intro index txBody r
      rw [tagged, List.map_cons, ExceptRun.foldlM_cons_ok, List.zipIdx_cons, List.forall_mem_cons]
      simp only [appendItem, Except.bind_eq_ok, encodeItem_ok_iff, Except.pure_eq_ok]
      have hbody : ∀ body : List UInt8, (body ++ itemBytes index payload) ++ bodyFrom (index + 1) payloads =
          body ++ bodyFrom index (payload :: payloads) := by
        intro body
        rw [bodyFrom, bodyFrom, List.zipIdx_cons, List.flatMap_cons, List.append_assoc]
      have hlen : index + 1 + payloads.length = index + (payload :: payloads).length := by
        rw [List.length_cons]
        omega
      constructor
      · rintro ⟨_, ⟨_, ⟨hfit, rfl⟩, rfl⟩, h⟩
        obtain ⟨hfits, rfl⟩ := (ih _ _ _).mp h
        exact ⟨⟨hfit, hfits⟩, by rw [hbody, hlen]⟩
      · rintro ⟨⟨hfit, hfits⟩, rfl⟩
        exact ⟨_, ⟨_, ⟨hfit, rfl⟩, rfl⟩, (ih _ _ _).mpr ⟨hfits, by rw [hbody, hlen]⟩⟩
  exact hgen payloads index [] r

/-- The transactions carry all items, numbered through. -/
theorem buildExtraTransactionsData_ok_iff {payloads : List ItemPayload} {n : ℕ} (hn : 0 < n)
    {r : ℕ × List (List UInt8)} :
    buildExtraTransactionsData payloads n = .ok r ↔
      (∀ q ∈ payloads.zipIdx, Fits q.2 q.1) ∧
        r = (payloads.length, bodiesFrom 0 (Itertools.batches n payloads)) := by
  have hgen : ∀ (batches : List (List ItemPayload)) (index : ℕ) (result : List (List UInt8))
      (r : ℕ × List (List UInt8)),
      (batches.map tagged).foldlM appendTransaction (index, result) = .ok r ↔
      (∀ q ∈ batches.flatten.zipIdx index, Fits q.2 q.1) ∧
        r = (index + batches.flatten.length, result ++ bodiesFrom index batches) := by
    intro batches
    induction batches with
    | nil =>
      intro index result r
      simp [bodiesFrom, pure, Except.pure, eq_comm]
    | cons batch batches ih =>
      intro index result r
      rw [List.map_cons, ExceptRun.foldlM_cons_ok, List.flatten_cons, List.zipIdx_append]
      simp only [appendTransaction, Except.bind_eq_ok, encodeBatch_ok_iff, Except.pure_eq_ok,
        List.mem_append, or_imp, forall_and]
      have hbodies : (result ++ [bodyFrom index batch]) ++ bodiesFrom (index + batch.length) batches =
          result ++ bodiesFrom index (batch :: batches) := by
        rw [bodiesFrom, List.append_assoc]
        rfl
      have hlen : index + batch.length + batches.flatten.length =
          index + (batch ++ batches.flatten).length := by
        rw [List.length_append]
        omega
      constructor
      · rintro ⟨_, ⟨_, ⟨hfit, rfl⟩, rfl⟩, h⟩
        obtain ⟨hfits, rfl⟩ := (ih _ _ _).mp h
        exact ⟨⟨hfit, hfits⟩, by rw [hbodies, hlen]⟩
      · rintro ⟨⟨hfit, hfits⟩, rfl⟩
        exact ⟨_, ⟨_, ⟨hfit, rfl⟩, rfl⟩, (ih _ _ _).mpr ⟨hfits, by rw [hbodies, hlen]⟩⟩
  have hbatched : (Itertools.batched (tagged payloads) n : Collect _) =
      .ok ((Itertools.batches n payloads).map tagged) :=
    Itertools.batched_eq_ok.mpr ⟨hn, (Itertools.batches_map _ n payloads).symm⟩
  unfold buildExtraTransactionsData
  change (Itertools.batched (tagged payloads) n >>= _) = _ ↔ _
  rw [hbatched, Except.ok_bind, hgen, Itertools.batches_flatten hn, Nat.zero_add, List.nil_append]

theorem parseItemsAux_itemBytes {index passes : ℕ} {payload : ItemPayload} (h : Fits index payload)
    (hvalue : payload.value.length = payload.nodeOperatorIds.length) (rest : List UInt8) :
    parseItemsAux (passes + 1) (itemBytes index payload ++ rest) =
      (parseItemsAux passes rest).map (itemOf index payload :: ·) := by
  have hlength := @length_itemBytes index payload hvalue
  obtain ⟨b, bytes, hcons⟩ : ∃ b bytes, itemBytes index payload ++ rest = b :: bytes := by
    refine List.exists_cons_of_ne_nil fun hnil => ?_
    rw [(List.append_eq_nil_iff.mp hnil).1, List.length_nil] at hlength
    omega
  rw [hcons, parseItemsAux, ← hcons, parseItem_itemBytes h hvalue]
  change (parseItemsAux passes rest).bind (fun items => some (itemOf index payload :: items)) = _
  cases parseItemsAux passes rest <;> rfl

/-- A body is read back as the items it was made of. -/
theorem parseItems_bodyFrom {index : ℕ} {payloads : List ItemPayload}
    (hfits : ∀ q ∈ payloads.zipIdx index, Fits q.2 q.1)
    (hvalue : ∀ payload ∈ payloads, payload.value.length = payload.nodeOperatorIds.length) :
    parseItems (bodyFrom index payloads) = some (itemsFrom index payloads) := by
  have hgen : ∀ passes, payloads.length ≤ passes →
      parseItemsAux passes (bodyFrom index payloads) = some (itemsFrom index payloads) := by
    induction payloads generalizing index with
    | nil =>
      intro passes _
      cases passes <;> rfl
    | cons payload payloads ih =>
      intro passes hpasses
      rw [List.zipIdx_cons, List.forall_mem_cons] at hfits
      rw [List.forall_mem_cons] at hvalue
      obtain ⟨passes, rfl⟩ := Nat.exists_eq_succ_of_ne_zero (Nat.ne_zero_of_lt hpasses)
      rw [bodyFrom, List.zipIdx_cons, List.flatMap_cons, parseItemsAux_itemBytes hfits.1 hvalue.1]
      have htail := ih hfits.2 hvalue.2 passes (Nat.le_of_succ_le_succ hpasses)
      unfold bodyFrom at htail
      rw [htail, itemsFrom, itemsFrom, List.zipIdx_cons, List.map_cons]
      rfl
  refine hgen _ ?_
  clear hgen
  induction payloads generalizing index with
  | nil => exact Nat.zero_le _
  | cons payload payloads ih =>
    rw [List.zipIdx_cons, List.forall_mem_cons] at hfits
    rw [List.forall_mem_cons] at hvalue
    have htail := ih hfits.2 hvalue.2
    unfold bodyFrom at htail
    rw [bodyFrom, List.zipIdx_cons, List.flatMap_cons, List.length_append, length_itemBytes hvalue.1,
      List.length_cons]
    omega

end Transactions

section Chain

variable {keccak : List UInt8 → List UInt8}

theorem addHashesToTransactions_cons (tx : List UInt8) (txs : List (List UInt8)) :
    addHashesToTransactions keccak (tx :: txs) =
      (keccak ((addHashesToTransactions keccak txs).1 ++ tx),
        ((addHashesToTransactions keccak txs).1 ++ tx) :: (addHashesToTransactions keccak txs).2) := by
  simp only [addHashesToTransactions, List.reverse_cons, List.foldl_append, List.foldl_cons,
    List.foldl_nil, List.reverse_append, List.reverse_nil, List.nil_append, List.singleton_append]

/-- The hashes chain the transactions, and the bodies come after them unchanged. -/
theorem addHashesToTransactions_spec (hkeccak : ∀ bytes, (keccak bytes).length = 32)
    (txs : List (List UInt8)) :
    (addHashesToTransactions keccak txs).1.length = 32 ∧
      Chained keccak (addHashesToTransactions keccak txs).1 (addHashesToTransactions keccak txs).2 ∧
      (addHashesToTransactions keccak txs).2.map (List.drop 32) = txs := by
  induction txs with
  | nil => exact ⟨rfl, rfl, rfl⟩
  | cons tx txs ih =>
    obtain ⟨hlen, hchain, hbodies⟩ := ih
    rw [addHashesToTransactions_cons]
    refine ⟨hkeccak _, ⟨rfl, ?_⟩, ?_⟩
    · rw [List.take_left' hlen]
      exact hchain
    · rw [List.map_cons, List.drop_left' hlen, hbodies]

end Chain

section Collect

variable {keccak : List UInt8 → List UInt8} {validators : ExitedValidators} {maxItems maxNo : ℕ}

/-- The encoder succeeds exactly when every field of every item fits. -/
theorem collect_ok_iff (hitems : 0 < maxItems) (hno : 0 < maxNo) {r : ExtraData} :
    collect keccak validators maxItems maxNo = .ok r ↔
      (∀ q ∈ (payloadsOf validators maxNo).zipIdx, Fits q.2 q.1) ∧
      r = { extraDataList := (addHashesToTransactions keccak
              (bodiesFrom 0 (Itertools.batches maxItems (payloadsOf validators maxNo)))).2
            dataHash := (addHashesToTransactions keccak
              (bodiesFrom 0 (Itertools.batches maxItems (payloadsOf validators maxNo)))).1
            format := if (payloadsOf validators maxNo).length ≠ 0 then FormatList.nonEmpty.value
              else FormatList.empty.value
            itemsCount := (payloadsOf validators maxNo).length } := by
  unfold collect
  rw [buildValidatorsPayloads_eq hno, Except.ok_bind, Except.bind_eq_ok]
  simp only [buildExtraTransactionsData_ok_iff hitems, Except.pure_eq_ok]
  constructor
  · rintro ⟨_, ⟨hfits, rfl⟩, rfl⟩
    exact ⟨hfits, rfl⟩
  · rintro ⟨hfits, rfl⟩
    exact ⟨_, ⟨hfits, rfl⟩, rfl⟩

/-- What the encoded dictionary is read back as -/
structure DecodesTo (keccak : List UInt8 → List UInt8) (validators : ExitedValidators)
    (maxItems maxNo : ℕ) (data : ExtraData) (txItems : List (List Item)) : Prop where
  chained : Chained keccak data.dataHash data.extraDataList
  parsed : data.extraDataList.map (fun tx => parseItems (tx.drop 32)) = txItems.map some
  indexes : txItems.flatten.map (·.index) = List.range data.itemsCount
  itemsPerTx : ∀ items ∈ txItems, items.length ≤ maxItems
  operatorsPerItem : ∀ item ∈ txItems.flatten, item.itemType = ItemType.exitedValidators.value ∧
    item.nodeOperatorIds.length ≤ maxNo ∧ item.value.length = item.nodeOperatorIds.length
  increasing : (txItems.flatten.flatMap Item.pairs).Pairwise fun a b => toLex a.1 < toLex b.1
  pairs : (txItems.flatten.flatMap Item.pairs).Perm validators.entries
  emptyChain : validators.entries = [] → data.dataHash = ZERO_HASH ∧ data.extraDataList = []
  emptyFormat : data.format = FormatList.empty.value ↔ validators.entries = []

theorem itemsFrom_index (index : ℕ) (payloads : List ItemPayload) :
    (itemsFrom index payloads).map (·.index) = List.range' index payloads.length := by
  rw [itemsFrom, List.map_map]
  exact List.zipIdx_map_snd index payloads

theorem itemsFrom_pairs (index : ℕ) (payloads : List ItemPayload) :
    (itemsFrom index payloads).flatMap Item.pairs = payloads.flatMap ItemPayload.pairs := by
  rw [itemsFrom, List.flatMap_map]
  have hfst : payloads.flatMap ItemPayload.pairs =
      ((payloads.zipIdx index).map Prod.fst).flatMap ItemPayload.pairs := by
    rw [List.zipIdx_map_fst]
  rw [hfst, List.flatMap_map]
  rfl

/-- The items of all transactions, one list for each -/
def txItemsFrom : ℕ → List (List ItemPayload) → List (List Item)
  | _, [] => []
  | index, batch :: batches => itemsFrom index batch :: txItemsFrom (index + batch.length) batches

theorem txItemsFrom_flatten (index : ℕ) (batches : List (List ItemPayload)) :
    (txItemsFrom index batches).flatten = itemsFrom index batches.flatten := by
  induction batches generalizing index with
  | nil => rfl
  | cons batch batches ih =>
    rw [txItemsFrom, List.flatten_cons, ih, List.flatten_cons, itemsFrom, itemsFrom, itemsFrom,
      List.zipIdx_append, List.map_append]

theorem length_of_mem_txItemsFrom {index : ℕ} {batches : List (List ItemPayload)} {n : ℕ}
    (h : ∀ batch ∈ batches, batch.length ≤ n) : ∀ items ∈ txItemsFrom index batches, items.length ≤ n := by
  induction batches generalizing index with
  | nil => exact fun _ h => absurd h List.not_mem_nil
  | cons batch batches ih =>
    rw [List.forall_mem_cons] at h
    refine List.forall_mem_cons.mpr ⟨?_, ih h.2⟩
    rw [itemsFrom, List.length_map, List.length_zipIdx]
    exact h.1

theorem parseItems_bodiesFrom {index : ℕ} {batches : List (List ItemPayload)}
    (hfits : ∀ q ∈ batches.flatten.zipIdx index, Fits q.2 q.1)
    (hvalue : ∀ payload ∈ batches.flatten, payload.value.length = payload.nodeOperatorIds.length) :
    (bodiesFrom index batches).map parseItems = (txItemsFrom index batches).map some := by
  induction batches generalizing index with
  | nil => rfl
  | cons batch batches ih =>
    rw [List.flatten_cons, List.zipIdx_append] at hfits
    rw [List.flatten_cons] at hvalue
    rw [bodiesFrom, txItemsFrom, List.map_cons, List.map_cons,
      parseItems_bodyFrom (fun q hq => hfits q (List.mem_append_left _ hq))
        (fun p hp => hvalue p (List.mem_append_left _ hp)),
      ih (fun q hq => hfits q (List.mem_append_right _ hq))
        (fun p hp => hvalue p (List.mem_append_right _ hp))]

/-- Decoding the chain gives back the dictionary. Besides the entries, the index of every item and
the number of its operators have to fit their widths. -/
theorem collect_decodes (hkeccak : ∀ bytes, (keccak bytes).length = 32)
    (hitems : 1 ≤ maxItems) (hno : 1 ≤ maxNo)
    (hentries : ∀ e ∈ validators.entries, e.1.1 < 256 ^ 3 ∧ e.1.2 < 256 ^ 8 ∧ e.2 < 256 ^ 16)
    (hindexes : (payloadsOf validators maxNo).length ≤ 256 ^ 3)
    (hcounts : ∀ payload ∈ payloadsOf validators maxNo, payload.nodeOperatorIds.length < 256 ^ 8) :
    ∃ data txItems, collect keccak validators maxItems maxNo = .ok data ∧
      DecodesTo keccak validators maxItems maxNo data txItems := by
  set payloads := payloadsOf validators maxNo with hpayloads
  have hsize : ∀ payload ∈ payloads, payload.value.length = payload.nodeOperatorIds.length := by
    intro payload hpayload
    obtain ⟨moduleId, batch, rfl, -⟩ := mem_payloadsOf hno hpayload
    simp [payloadOf]
  have hfits : ∀ q ∈ payloads.zipIdx, Fits q.2 q.1 := by
    intro q hq
    have hmem : q.1 ∈ payloads := List.fst_mem_of_mem_zipIdx hq
    have hlt : q.2 < payloads.length := by
      have := List.snd_lt_of_mem_zipIdx hq
      omega
    obtain ⟨moduleId, batch, heq, hne, -, hbatch⟩ := mem_payloadsOf hno hmem
    have hcount := hcounts q.1 hmem
    obtain ⟨e₀, he₀⟩ := List.exists_mem_of_ne_nil batch hne
    rw [heq] at hcount ⊢
    refine ⟨lt_of_lt_of_le hlt hindexes, ?_, hcount, ?_, ?_⟩
    · have hid := (hbatch e₀ he₀).2
      rw [payloadOf, ← hid]
      exact (hentries e₀ (hbatch e₀ he₀).1).1
    · exact List.forall_mem_map.mpr fun e he => (hentries e (hbatch e he).1).2.1
    · exact List.forall_mem_map.mpr fun e he => (hentries e (hbatch e he).1).2.2
  have hflat : (Itertools.batches maxItems payloads).flatten = payloads :=
    Itertools.batches_flatten hitems payloads
  have hpairs : (itemsFrom 0 payloads).flatMap Item.pairs = sortedOperators validators := by
    rw [itemsFrom_pairs, hpayloads, payloadsOf_pairs hno]
  have hempty : payloads.length = 0 ↔ validators.entries = [] := by
    rw [List.length_eq_zero_iff]
    have hperm : (payloads.flatMap ItemPayload.pairs).Perm validators.entries := by
      rw [hpayloads, payloadsOf_pairs hno]
      exact Sorted.perm_sortedBy
    constructor
    · intro h
      rw [h] at hperm
      exact hperm.symm.eq_nil
    · intro h
      refine List.eq_nil_iff_forall_not_mem.mpr fun payload hpayload => ?_
      obtain ⟨moduleId, batch, -, hne, -, hbatch⟩ := mem_payloadsOf hno hpayload
      obtain ⟨e, he⟩ := List.exists_mem_of_ne_nil batch hne
      have := (hbatch e he).1
      rw [h] at this
      exact List.not_mem_nil this
  obtain ⟨-, hchain, hbodies⟩ := addHashesToTransactions_spec hkeccak
    (bodiesFrom 0 (Itertools.batches maxItems payloads))
  refine ⟨_, txItemsFrom 0 (Itertools.batches maxItems payloads),
    (collect_ok_iff hitems hno).mpr ⟨hfits, rfl⟩, hchain, ?_, ?_, ?_, ?_, ?_, ?_, ?_, ?_⟩
  · have hcut : ∀ txs : List (List UInt8), txs.map (fun tx => parseItems (tx.drop 32)) =
        (txs.map (List.drop 32)).map parseItems := fun txs => by
      rw [List.map_map]
      rfl
    dsimp only
    rw [hcut, hbodies]
    exact parseItems_bodiesFrom (by rwa [hflat]) (by rwa [hflat])
  · rw [txItemsFrom_flatten, hflat, itemsFrom_index, List.range_eq_range']
  · exact length_of_mem_txItemsFrom fun batch hbatch => Itertools.length_of_mem_batches hbatch
  · rw [txItemsFrom_flatten, hflat]
    refine List.forall_mem_map.mpr fun q hq => ?_
    have hmem : q.1 ∈ payloads := List.fst_mem_of_mem_zipIdx hq
    refine ⟨rfl, ?_, hsize q.1 hmem⟩
    obtain ⟨moduleId, batch, heq, -, hle, -⟩ := mem_payloadsOf hno hmem
    rw [itemOf, heq, payloadOf, List.length_map]
    exact hle
  · rw [txItemsFrom_flatten, hflat, hpairs]
    refine Sorted.pairwise_lt_sortedBy ?_
    have hkeys := validators.keys_nodup.map toLex.injective
    rwa [Dict.keys, List.map_map] at hkeys
  · rw [txItemsFrom_flatten, hflat, hpairs]
    exact Sorted.perm_sortedBy
  · intro hnil
    have hzero := hempty.mpr hnil
    rw [List.length_eq_zero_iff] at hzero
    rw [← hpayloads, hzero]
    exact ⟨rfl, rfl⟩
  · rw [← hempty, ← hpayloads]
    by_cases hzero : payloads.length = 0
    · simp [hzero]
    · simp [hzero, FormatList.value]

/-- The dictionary of the collection test -/
def testOperators : ExitedValidators :=
  ⟨[((1, 2), 16), ((2, 1), 12), ((2, 2), 14), ((2, 3), 18), ((2, 5), 18), ((2, 6), 18), ((2, 7), 18),
    ((2, 8), 18), ((3, 1), 18)], by decide⟩

/-- A hash for tests: a polynomial in the bytes, in 32 bytes -/
def rollingHash (bytes : List UInt8) : List UInt8 :=
  let digest := bytes.foldl (fun h b => (h * 257 + b.toNat + 1) % 256 ^ 32) 0
  (List.range 32).map fun i => UInt8.ofNat (digest / 256 ^ (31 - i) % 256)

/-- Five items in three transactions, whose hashes differ -/
theorem collect_decodes_testOperators : ∃ data txItems,
    collect rollingHash testOperators 2 3 = .ok data ∧ DecodesTo rollingHash testOperators 2 3 data txItems ∧
      txItems.map List.length = [2, 2, 1] ∧ (data.extraDataList.map rollingHash).Nodup := by
  have hkeccak : ∀ bytes, (rollingHash bytes).length = 32 := fun bytes => by
    rw [rollingHash, List.length_map, List.length_range]
  have hdata : (collect rollingHash testOperators 2 3).toOption.map (fun data =>
      (data.extraDataList.map fun tx => (parseItems (tx.drop 32)).map List.length,
        decide (data.extraDataList.map rollingHash).Nodup)) = some ([some 2, some 2, some 1], true) := by
    decide +kernel
  obtain ⟨data, txItems, hcollect, hdecodes⟩ :=
    @collect_decodes rollingHash testOperators 2 3 hkeccak (by decide) (by decide) (by decide) (by decide) (by decide)
  rw [hcollect] at hdata
  obtain ⟨hlengths, hnodup⟩ := Prod.mk.inj (Option.some.inj hdata)
  refine ⟨data, txItems, hcollect, hdecodes, ?_, of_decide_eq_true hnodup⟩
  have hparsed := congrArg (List.map (Option.map List.length)) hdecodes.parsed
  rw [List.map_map, List.map_map] at hparsed
  have hsome : (txItems.map List.length).map some = [2, 2, 1].map some := by
    rw [List.map_map]
    exact hparsed.symm.trans hlengths
  exact List.map_injective_iff.mpr (Option.some_injective ℕ) hsome

theorem entries_length_le (hno : 0 < maxNo) :
    validators.entries.length ≤ maxNo * (payloadsOf validators maxNo).length := by
  have hsorted : validators.entries.length =
      ((payloadsOf validators maxNo).flatMap ItemPayload.pairs).length := by
    rw [payloadsOf_pairs hno]
    exact Sorted.perm_sortedBy.length_eq.symm
  have hsum : ((payloadsOf validators maxNo).map fun p => p.pairs.length).sum ≤
      ((payloadsOf validators maxNo).map fun p => p.pairs.length).length • maxNo := by
    refine List.sum_le_card_nsmul _ _ (List.forall_mem_map.mpr fun payload hpayload => ?_)
    obtain ⟨moduleId, batch, rfl, -, hle, hbatch⟩ := mem_payloadsOf hno hpayload
    rwa [payloadOf_pairs fun e he => (hbatch e he).2]
  rw [hsorted, List.length_flatMap]
  rwa [List.length_map, smul_eq_mul, mul_comm] at hsum

/-- One module with `count` operators -/
def oneModule (count : ℕ) : ExitedValidators :=
  ⟨(List.range count).map fun i => ((1, i), 1), by
    rw [List.map_map]
    exact List.nodup_range.map fun i j h => (Prod.ext_iff.mp h).2⟩

theorem entries_oneModule (count : ℕ) :
    (oneModule count).entries = (List.range count).map fun i => ((1, i), 1) := rfl

/-- With one operator an item, the index overflows at the first operator past its width. -/
theorem collect_oneModule_fails {count : ℕ} (hcount : 256 ^ 3 < count) :
    ∀ data, collect keccak (oneModule count) 1 1 ≠ .ok data := by
  intro data h
  obtain ⟨hfits, -⟩ := (collect_ok_iff one_pos one_pos).mp h
  have hlast : 256 ^ 3 < (payloadsOf (oneModule count) 1).length := by
    have hle := @entries_length_le (oneModule count) 1 one_pos
    rw [one_mul, entries_oneModule, List.length_map, List.length_range] at hle
    exact lt_of_lt_of_le hcount hle
  have hmem : ((payloadsOf (oneModule count) 1)[256 ^ 3], 256 ^ 3) ∈ (payloadsOf (oneModule count) 1).zipIdx :=
    List.mk_mem_zipIdx_iff_getElem?.mpr (List.getElem?_eq_getElem hlast)
  exact lt_irrefl _ (hfits _ hmem).index

/-- Entries that fit their widths are not enough. -/
theorem collect_manyItems_fails :
    (∀ e ∈ (oneModule (256 ^ 3 + 1)).entries, e.1.1 < 256 ^ 3 ∧ e.1.2 < 256 ^ 8 ∧ e.2 < 256 ^ 16) ∧
      ∀ data, collect (fun _ => ZERO_HASH) (oneModule (256 ^ 3 + 1)) 1 1 ≠ .ok data := by
  rw [entries_oneModule]
  refine ⟨List.forall_mem_map.mpr fun i hi => ?_, collect_oneModule_fails (Nat.lt_succ_self _)⟩
  have hlt : i < 256 ^ 3 + 1 := List.mem_range.mp hi
  have hwidth : 256 ^ 3 + 1 ≤ 256 ^ 8 := by norm_num
  exact ⟨by norm_num, lt_of_lt_of_le hlt hwidth, by norm_num⟩

end Collect

end ExtraDataService

end LidoOracle
