import LidoOracle.Lib.Python

/-! Timestamps of execution blocks with few requests. Between two blocks with no
missed slot the timestamps are computed; otherwise the segment is fetched, or
split in two. A block takes a slot of its own, so the end of a segment is late
exactly when some slot in it was missed. -/

namespace LidoOracle

abbrev BlockNumber := ℕ

inductive RpcError where
  | blockNotFound (block : BlockNumber)
  | batchFailed
  deriving DecidableEq, Repr

abbrev Rpc := Py RpcError

/-- The execution blocks up to the head, and the slots they sit in -/
structure ExecutionChain where
  genesisTime : ℕ
  secondsPerSlot : ℕ
  head : BlockNumber
  slot : BlockNumber → ℕ
  slot_lt : ∀ {a b}, a < b → b ≤ head → slot a < slot b
  secondsPerSlot_pos : 0 < secondsPerSlot

def ExecutionChain.timestamp (chain : ExecutionChain) (block : BlockNumber) : ℤ :=
  chain.genesisTime + chain.slot block * chain.secondsPerSlot

/-- A node that serves the chain; any of its batch requests may fail. The blocks asked for tell the
requests of one run apart. -/
structure ExecutionClient where
  chain : ExecutionChain
  batchFails : List BlockNumber → Bool

namespace ExecutionClient

variable (w3 : ExecutionClient) (blockBatchSizeLimit : ℤ)

def shouldBatch (count : ℕ) : Bool := 1 < blockBatchSizeLimit && 1 < count

def getTs (block : BlockNumber) : Rpc ℤ :=
  if block ≤ w3.chain.head then .ok (w3.chain.timestamp block) else .error (.raised (.blockNotFound block))

def executeBatch (blocks : List BlockNumber) : Rpc (List ℤ) :=
  if w3.batchFails blocks then .error (.raised .batchFailed) else blocks.mapM w3.getTs

def getTsSequentially (blocks : List BlockNumber) : Rpc (Dict BlockNumber ℤ) := do
  let results ← blocks.mapM w3.getTs
  return Dict.ofList (blocks.zip results)

def batchGetTs (blocks : List BlockNumber) : Rpc (Dict BlockNumber ℤ) :=
  if blocks = [] then .ok Dict.empty
  else if ¬shouldBatch blockBatchSizeLimit blocks.length then w3.getTsSequentially blocks
  else
    match w3.executeBatch blocks with
    | .ok results => .ok (Dict.ofList (blocks.zip results))
    | .error _ => w3.getTsSequentially blocks

def calculateTimestamps (blocks : List BlockNumber) (firstTs lastTs : ℤ) (secondsPerSlot : ℕ) : Rpc (List ℤ) :=
  if blocks.length ≤ 2 then .ok (if blocks.length = 1 then [firstTs] else [firstTs, lastTs])
  else
    let base : ℤ := blocks.headD 0
    let expectedLastTs := firstTs + ((blocks.getLastD 0 : ℤ) - base) * secondsPerSlot
    if expectedLastTs = lastTs then .ok (blocks.map fun b : ℕ => firstTs + ((b : ℤ) - base) * secondsPerSlot)
    else
      let intermediates := blocks.tail.dropLast
      if intermediates.length ≤ blockBatchSizeLimit then do
        let fetched ← w3.batchGetTs blockBatchSizeLimit intermediates
        let middle ← intermediates.mapM (Py.getItem fetched)
        return [firstTs] ++ middle ++ [lastTs]
      else do
        let mid := blocks.length / 2
        let midBlock ← Py.listItem blocks mid
        let midTs ← w3.getTs midBlock
        let left ← calculateTimestamps (blocks.take (mid + 1)) firstTs midTs secondsPerSlot
        let right ← calculateTimestamps (blocks.drop mid) midTs lastTs secondsPerSlot
        -- left includes the middle block, right starts with it
        return left ++ right.tail
termination_by blocks.length
decreasing_by
  · rw [List.length_take]
    omega
  · rw [List.length_drop]
    omega

/-- `dict(zip(keys, values, strict=True))` -/
def dictZipStrict (keys : List BlockNumber) (values : List ℤ) : Rpc (Dict BlockNumber ℤ) :=
  if keys.length = values.length then .ok (Dict.ofList (keys.zip values)) else .error .valueError

def getBlockTimestamps (blockNumbers : Finset BlockNumber) (secondsPerSlot : ℕ) : Rpc (Dict BlockNumber ℤ) :=
  match blockNumbers.sort (· ≤ ·) with
  | [] => .ok Dict.empty
  | [block] => do
    let ts ← w3.getTs block
    return Dict.ofList [(block, ts)]
  | first :: second :: rest => do
    let blocks := first :: second :: rest
    let last := blocks.getLastD 0
    let endpoints ← w3.batchGetTs blockBatchSizeLimit [first, last]
    let firstTs ← Py.getItem endpoints first
    let lastTs ← Py.getItem endpoints last
    let timestamps ← w3.calculateTimestamps blockBatchSizeLimit blocks firstTs lastTs secondsPerSlot
    dictZipStrict blocks timestamps

end ExecutionClient

namespace ExecutionChain

variable {chain : ExecutionChain} {a b c : ℕ}

/-- As many slots pass as blocks, at least. -/
theorem slot_add_le (hab : a ≤ b) (hb : b ≤ chain.head) : chain.slot a + (b - a) ≤ chain.slot b := by
  induction b, hab using Nat.le_induction with
  | base => omega
  | succ b hab ih =>
    have hprev := ih (Nat.le_of_succ_le hb)
    have hnext := chain.slot_lt (Nat.lt_add_one b) hb
    omega

/-- No slot was missed on the way exactly when the end is on time; then nothing between is late. -/
theorem timestamp_between (hac : a ≤ c) (hcb : c ≤ b) (hb : b ≤ chain.head)
    (hend : chain.timestamp a + ((b : ℤ) - a) * chain.secondsPerSlot = chain.timestamp b) :
    chain.timestamp c = chain.timestamp a + ((c : ℤ) - a) * chain.secondsPerSlot := by
  have hpos : (chain.secondsPerSlot : ℤ) ≠ 0 := Int.natCast_ne_zero.mpr chain.secondsPerSlot_pos.ne'
  have hslots : ((b : ℤ) - a + chain.slot a) = chain.slot b := by
    refine mul_right_cancel₀ hpos ?_
    unfold timestamp at hend
    rw [add_mul]
    linarith
  have hfirst := slot_add_le hac (hcb.trans hb)
  have hsecond := slot_add_le hcb hb
  have hslot : (chain.slot c : ℤ) = chain.slot a + ((c : ℤ) - a) := by omega
  unfold timestamp
  rw [hslot, add_mul]
  ring

end ExecutionChain

namespace ExecutionClient

variable {w3 : ExecutionClient} {blockBatchSizeLimit : ℤ} {blocks : List ℕ}

/-- The blocks with their timestamps -/
def stamped (w3 : ExecutionClient) (blocks : List BlockNumber) : List (BlockNumber × ℤ) :=
  blocks.map fun b => (b, w3.chain.timestamp b)

theorem zip_timestamps (blocks : List ℕ) : blocks.zip (blocks.map w3.chain.timestamp) = w3.stamped blocks :=
  List.map_prod_left_eq_zip.symm

theorem map_fst_stamped (blocks : List ℕ) : (w3.stamped blocks).map Prod.fst = blocks := by
  unfold stamped
  rw [List.map_map]
  exact List.map_id blocks

theorem get?_stamped (hnodup : blocks.Nodup) {b : ℕ} (hb : b ∈ blocks) :
    (Dict.ofList (w3.stamped blocks)).get? b = some (w3.chain.timestamp b) := by
  rw [Dict.get?_eq_some_iff, Dict.entries_ofList (by rwa [map_fst_stamped])]
  exact List.mem_map_of_mem hb

section Served

variable (hserved : ∀ b ∈ blocks, b ≤ w3.chain.head)
include hserved

theorem mapM_getTs : blocks.mapM w3.getTs = .ok (blocks.map w3.chain.timestamp) :=
  ExceptRun.mapM_of_ok fun b hb => if_pos (hserved b hb)

theorem getTsSequentially_eq : w3.getTsSequentially blocks = .ok (Dict.ofList (w3.stamped blocks)) := by
  unfold getTsSequentially
  rw [mapM_getTs hserved, Except.ok_bind, zip_timestamps]
  rfl

/-- Batched or not, failing or not, the timestamps come back. -/
theorem batchGetTs_eq : w3.batchGetTs blockBatchSizeLimit blocks = .ok (Dict.ofList (w3.stamped blocks)) := by
  unfold batchGetTs
  split_ifs with hempty hbatch
  · rw [hempty]
    rfl
  · unfold executeBatch
    cases w3.batchFails blocks with
    | true => exact getTsSequentially_eq hserved
    | false =>
      rw [if_neg Bool.false_ne_true, mapM_getTs hserved]
      dsimp only
      rw [zip_timestamps]
  · exact getTsSequentially_eq hserved

end Served

/-- Elements of a sorted list lie between its ends. -/
theorem between_ends (hsorted : blocks.Pairwise (· < ·)) {first last b : ℕ} (hfirst : blocks.head? = some first)
    (hlast : blocks.getLast? = some last) (hb : b ∈ blocks) : first ≤ b ∧ b ≤ last := by
  obtain ⟨rest, rfl⟩ := List.head?_eq_some_iff.mp hfirst
  refine ⟨?_, ?_⟩
  · rcases List.mem_cons.mp hb with rfl | hmem
    · exact le_refl b
    · exact ((List.pairwise_cons.mp hsorted).1 b hmem).le
  · obtain ⟨init, hinit⟩ := List.getLast?_eq_some_iff.mp hlast
    rw [hinit] at hb hsorted
    rcases List.mem_append.mp hb with hmem | hmem
    · exact ((List.pairwise_append.mp hsorted).2.2 b hmem last (List.mem_singleton_self last)).le
    · exact (List.mem_singleton.mp hmem).le

theorem ends_and_middle (hlong : ¬blocks.length ≤ 2) {first last : ℕ} (hfirst : blocks.head? = some first)
    (hlast : blocks.getLast? = some last) : blocks = [first] ++ blocks.tail.dropLast ++ [last] := by
  obtain ⟨rest, rfl⟩ := List.head?_eq_some_iff.mp hfirst
  have hrest : rest ≠ [] := by
    rintro rfl
    exact hlong (by simp)
  rw [List.getLast?_cons, List.getLast?_eq_some_getLast hrest, Option.getD_some, Option.some.injEq] at hlast
  rw [List.tail_cons, List.singleton_append, List.cons_append, ← hlast, List.dropLast_concat_getLast hrest]

/-- Between the ends that are known, every timestamp is the real one. -/
theorem calculateTimestamps_eq (hsorted : blocks.Pairwise (· < ·)) (hserved : ∀ b ∈ blocks, b ≤ w3.chain.head)
    {first last : ℕ} (hfirst : blocks.head? = some first) (hlast : blocks.getLast? = some last) :
    w3.calculateTimestamps blockBatchSizeLimit blocks (w3.chain.timestamp first) (w3.chain.timestamp last)
      w3.chain.secondsPerSlot = .ok (blocks.map w3.chain.timestamp) := by
  induction hlength : blocks.length using Nat.strong_induction_on generalizing blocks first last with
  | _ n ih =>
    rw [calculateTimestamps]
    by_cases hshort : blocks.length ≤ 2
    · rw [if_pos hshort]
      match blocks, hshort with
      | [], _ => cases hfirst
      | [b], _ =>
        cases hfirst
        rfl
      | [a, b], _ =>
        cases hfirst
        cases hlast
        rfl
    rw [if_neg hshort]
    have hbase : (blocks.headD 0 : ℤ) = first := by rw [List.headD_eq_head?_getD, hfirst, Option.getD_some]
    have hend : (blocks.getLastD 0 : ℤ) = last := by rw [List.getLastD_eq_getLast?, hlast, Option.getD_some]
    have hlastMem : last ∈ blocks := List.mem_of_getLast? hlast
    dsimp only
    rw [hbase, hend]
    by_cases hexact : w3.chain.timestamp first + ((last : ℤ) - first) * w3.chain.secondsPerSlot = w3.chain.timestamp last
    · rw [if_pos hexact]
      refine congrArg Except.ok (List.map_congr_left fun b hb => ?_)
      obtain ⟨hlow, hhigh⟩ := between_ends hsorted hfirst hlast hb
      exact (ExecutionChain.timestamp_between hlow hhigh (hserved last hlastMem) hexact).symm
    rw [if_neg hexact]
    by_cases hsmall : (blocks.tail.dropLast.length : ℤ) ≤ blockBatchSizeLimit
    · have hsub : ∀ b ∈ blocks.tail.dropLast, b ∈ blocks := fun b hb =>
        List.mem_of_mem_tail (List.mem_of_mem_dropLast hb)
      have hnodup : blocks.tail.dropLast.Nodup :=
        (hsorted.imp ne_of_lt).sublist ((List.dropLast_sublist _).trans (List.tail_sublist _))
      have hmiddle : blocks.tail.dropLast.mapM (Py.getItem (Dict.ofList (w3.stamped blocks.tail.dropLast))) =
          (.ok (blocks.tail.dropLast.map w3.chain.timestamp) : Rpc _) :=
        ExceptRun.mapM_of_ok fun b hb => Py.getItem_eq_ok.mpr (get?_stamped hnodup hb)
      rw [if_pos hsmall, batchGetTs_eq fun b hb => hserved b (hsub b hb), Except.ok_bind, hmiddle, Except.ok_bind]
      have hsplit : blocks.map w3.chain.timestamp = [w3.chain.timestamp first] ++
          blocks.tail.dropLast.map w3.chain.timestamp ++ [w3.chain.timestamp last] := by
        refine (congrArg (List.map w3.chain.timestamp) (ends_and_middle hshort hfirst hlast)).trans ?_
        rw [List.map_append, List.map_append]
        rfl
      rw [hsplit]
      rfl
    · rw [if_neg hsmall]
      have hmid : blocks.length / 2 < blocks.length := by omega
      have hitem : blocks[blocks.length / 2]? = some blocks[blocks.length / 2] := List.getElem?_eq_getElem hmid
      have hleft := @ih (blocks.take (blocks.length / 2 + 1)).length (by rw [List.length_take]; omega)
        (blocks.take (blocks.length / 2 + 1)) (hsorted.sublist (List.take_sublist _ _))
        (fun b hb => hserved b (List.mem_of_mem_take hb)) first blocks[blocks.length / 2]
        (by rw [List.head?_take, if_neg (Nat.succ_ne_zero _), hfirst])
        (by rw [List.getLast?_take, if_neg (Nat.succ_ne_zero _), Nat.add_sub_cancel, hitem]; rfl) rfl
      have hright := @ih (blocks.drop (blocks.length / 2)).length (by rw [List.length_drop]; omega)
        (blocks.drop (blocks.length / 2)) (hsorted.sublist (List.drop_sublist _ _))
        (fun b hb => hserved b (List.mem_of_mem_drop hb)) blocks[blocks.length / 2] last
        (by rw [List.head?_drop, hitem])
        (by rw [List.getLast?_drop, if_neg (by omega), hlast]) rfl
      rw [Py.listItem_eq_ok.mpr hitem, Except.ok_bind, getTs, if_pos (hserved _ (List.getElem_mem hmid)), Except.ok_bind,
        hleft, Except.ok_bind, hright, Except.ok_bind, Except.pure_eq_ok, ← List.map_tail, List.tail_drop,
        ← List.map_append, List.take_append_drop]

/-- Every requested block is mapped to its real timestamp, and no other block is. -/
theorem getBlockTimestamps_real (w3 : ExecutionClient) (blockBatchSizeLimit : ℤ) (blockNumbers : Finset BlockNumber)
    (hserved : ∀ b ∈ blockNumbers, b ≤ w3.chain.head) :
    ∃ timestamps, w3.getBlockTimestamps blockBatchSizeLimit blockNumbers w3.chain.secondsPerSlot = .ok timestamps ∧
      (∀ b, b ∈ timestamps ↔ b ∈ blockNumbers) ∧
      ∀ b ∈ blockNumbers, timestamps.get? b = some (w3.chain.timestamp b) := by
  have hmem : ∀ b, b ∈ blockNumbers.sort (· ≤ ·) ↔ b ∈ blockNumbers := fun b => Finset.mem_sort _
  have hsorted : (blockNumbers.sort (· ≤ ·)).Pairwise (· < ·) := Finset.sortedLT_sort blockNumbers |>.pairwise
  have hserved' : ∀ b ∈ blockNumbers.sort (· ≤ ·), b ≤ w3.chain.head := fun b hb => hserved b ((hmem b).mp hb)
  suffices hresult : w3.getBlockTimestamps blockBatchSizeLimit blockNumbers w3.chain.secondsPerSlot =
      .ok (Dict.ofList (w3.stamped (blockNumbers.sort (· ≤ ·)))) by
    refine ⟨_, hresult, fun b => ?_, fun b hb => get?_stamped (hsorted.imp ne_of_lt) ((hmem b).mpr hb)⟩
    rw [Dict.mem_ofList, map_fst_stamped]
    exact hmem b
  unfold getBlockTimestamps
  generalize blockNumbers.sort (· ≤ ·) = blocks at hsorted hserved'
  match blocks, hsorted, hserved' with
  | [], _, _ => rfl
  | [block], _, hserved' =>
    dsimp only
    rw [getTs, if_pos (hserved' block (List.mem_singleton_self block))]
    rfl
  | first :: second :: rest, hsorted, hserved' =>
    have hlast : (first :: second :: rest).getLast? = some ((first :: second :: rest).getLastD 0) := by
      rw [List.getLastD_eq_getLast?, List.getLast?_cons, Option.getD_some]
    have hmemLast := List.mem_of_getLast? hlast
    have hlt : first < (first :: second :: rest).getLastD 0 :=
      (List.pairwise_cons.mp hsorted).1 _ (by
        rw [List.getLastD_cons, List.getLastD_cons]
        exact List.getLastD_mem_cons)
    dsimp only
    generalize (first :: second :: rest).getLastD 0 = last at hlast hmemLast hlt ⊢
    have hends : ∀ b ∈ [first, last], b ≤ w3.chain.head := by
      rw [List.forall_mem_cons, List.forall_mem_singleton]
      exact ⟨hserved' first List.mem_cons_self, hserved' last hmemLast⟩
    have hnodup : [first, last].Nodup := List.nodup_cons.mpr
      ⟨fun hmem => hlt.ne (List.mem_singleton.mp hmem), List.nodup_singleton _⟩
    rw [batchGetTs_eq hends, Except.ok_bind, Py.getItem_eq_ok.mpr (get?_stamped hnodup List.mem_cons_self),
      Except.ok_bind, Py.getItem_eq_ok.mpr (get?_stamped hnodup (List.mem_cons_of_mem _ (List.mem_singleton_self last))),
      Except.ok_bind, calculateTimestamps_eq hsorted hserved' rfl hlast, Except.ok_bind, dictZipStrict,
      if_pos (List.length_map _).symm, zip_timestamps]

/-- Three slots are missed before block 2, and batch requests fail. -/
def lateBlockClient : ExecutionClient where
  chain := {
    genesisTime := 100
    secondsPerSlot := 12
    head := 9
    slot := fun b : ℕ => if b < 2 then b else b + 3
    slot_lt := by
      intro (a : ℕ) (b : ℕ) (hab : a < b) _
      split_ifs <;> omega
    secondsPerSlot_pos := by decide }
  batchFails := fun _ => true

/-- The late block is inside a segment of more blocks than a batch holds, which is halved until it is on time. -/
theorem getBlockTimestamps_real_lateBlock :
    ∃ timestamps, lateBlockClient.getBlockTimestamps 1 {8, 0, 3, 1, 7, 4} 12 = .ok timestamps ∧
      (∀ b, b ∈ timestamps ↔ b ∈ ({8, 0, 3, 1, 7, 4} : Finset ℕ)) ∧
      timestamps.get? 0 = some 100 ∧ timestamps.get? 1 = some 112 ∧ timestamps.get? 3 = some 172 ∧
      timestamps.get? 4 = some 184 ∧ timestamps.get? 7 = some 220 ∧ timestamps.get? 8 = some 232 := by
  obtain ⟨timestamps, hok, hkeys, hreal⟩ := getBlockTimestamps_real lateBlockClient 1 {8, 0, 3, 1, 7, 4} (by decide)
  exact ⟨timestamps, hok, hkeys, hreal 0 (by decide), hreal 1 (by decide), hreal 3 (by decide), hreal 4 (by decide),
    hreal 7 (by decide), hreal 8 (by decide)⟩

end ExecutionClient

end LidoOracle
