import LidoOracle.Ejector.ValidatorsToEject
import LidoOracle.Lib.Bytes

/-! The exit bus report. Every validator becomes one record of 72 bytes:

    |  3 bytes   |  5 bytes   |     8 bytes      |   8 bytes  |    48 bytes     |
    |  moduleId  |  nodeOpId  |  validatorIndex  |  keyIndex  | validatorPubkey |

The first 16 bytes are the sort key, so sorted records have ascending prefixes. -/

namespace LidoOracle

namespace Ejector

def DATA_FORMAT_LIST_WITH_KEY_INDEX : ℕ := 2

def MODULE_ID_LENGTH : ℕ := 3
def NODE_OPERATOR_ID_LENGTH : ℕ := 5
def VALIDATOR_INDEX_LENGTH : ℕ := 8
def KEY_INDEX_LENGTH : ℕ := 8
def VALIDATOR_PUB_KEY_LENGTH : ℕ := 48

inductive EncodeException where
  | unexpectedPubKeySize (size : ℕ)
  deriving DecidableEq

def EncodeException.message : EncodeException → String
  | .unexpectedPubKeySize size => s!"Unexpected size of validator pub key. Pub key size: {size}"

abbrev Encode := Py EncodeException

/-- Module id, operator id, validator index, compared lexicographically -/
def nogValidatorKey (noValidator : NodeOperatorGlobalIndex × LidoValidator) : ℕ ×ₗ ℕ ×ₗ ℕ :=
  toLex (noValidator.1.1, toLex (noValidator.1.2, noValidator.2.index))

def sortValidatorsToEject (validatorsToEject : List (NodeOperatorGlobalIndex × LidoValidator)) :
    List (NodeOperatorGlobalIndex × LidoValidator) :=
  Sorted.sortedBy nogValidatorKey validatorsToEject

def encodeRecord (noValidator : NodeOperatorGlobalIndex × LidoValidator) : Encode (List UInt8) := do
  let ((moduleId, opId), validator) := noValidator
  let moduleIdBytes ← Py.toBytes MODULE_ID_LENGTH moduleId
  let opIdBytes ← Py.toBytes NODE_OPERATOR_ID_LENGTH opId
  let indexBytes ← Py.toBytes VALIDATOR_INDEX_LENGTH validator.index
  let keyIndexBytes ← Py.toBytes KEY_INDEX_LENGTH validator.lidoId.index
  let pubkeyBytes ← hexStrToBytes validator.validator.pubkey
  if pubkeyBytes.length ≠ VALIDATOR_PUB_KEY_LENGTH then
    throw (.raised (.unexpectedPubKeySize validator.validator.pubkey.length))
  return moduleIdBytes ++ opIdBytes ++ indexBytes ++ keyIndexBytes ++ pubkeyBytes

def encodeData (validatorsToEject : List (NodeOperatorGlobalIndex × LidoValidator)) :
    Encode (List UInt8 × ℕ) := do
  let result ← (sortValidatorsToEject validatorsToEject).foldlM (fun result noValidator => do
    let record ← encodeRecord noValidator
    return result ++ record) []
  return (result, DATA_FORMAT_LIST_WITH_KEY_INDEX)

structure ReportData where
  consensusVersion : ℕ
  refSlot : SlotNumber
  requestsCount : ℕ
  dataFormat : ℕ
  data : List UInt8

/-- `build_report` from the validators on -/
def buildReport (consensusVersion : ℕ) (refSlot : SlotNumber)
    (validators : List (NodeOperatorGlobalIndex × LidoValidator)) : Encode ReportData := do
  let (data, dataFormat) ← encodeData validators
  return { consensusVersion, refSlot, requestsCount := validators.length, dataFormat, data }

/-! The reader's side -/

def RECORD_LENGTH : ℕ := 72

/-- What a record says about one validator -/
structure ExitRequest where
  moduleId : ℕ
  nodeOperatorId : ℕ
  validatorIndex : ℕ
  keyIndex : ℕ
  pubkey : List UInt8
  deriving DecidableEq

def decodeRecord (record : List UInt8) : ExitRequest where
  moduleId := BigEndian.fromBytes (record.take 3)
  nodeOperatorId := BigEndian.fromBytes ((record.drop 3).take 5)
  validatorIndex := BigEndian.fromBytes ((record.drop 8).take 8)
  keyIndex := BigEndian.fromBytes ((record.drop 16).take 8)
  pubkey := record.drop 24

/-- What an entry of the list is to be read back as, given the bytes of its public key -/
def exitRequestOf (noValidator : NodeOperatorGlobalIndex × LidoValidator) (pubkey : List UInt8) :
    ExitRequest where
  moduleId := noValidator.1.1
  nodeOperatorId := noValidator.1.2
  validatorIndex := noValidator.2.index
  keyIndex := noValidator.2.lidoId.index
  pubkey := pubkey

/-- All fields fit their widths and the public key denotes 48 bytes. -/
structure Encodable (noValidator : NodeOperatorGlobalIndex × LidoValidator) (pubkey : List UInt8) :
    Prop where
  moduleId : noValidator.1.1 < 256 ^ 3
  nodeOperatorId : noValidator.1.2 < 256 ^ 5
  validatorIndex : noValidator.2.index < 256 ^ 8
  keyIndex : noValidator.2.lidoId.index < 256 ^ 8
  parsed : (hexStrToBytes noValidator.2.validator.pubkey : Encode HexBytes) = .ok pubkey
  length : pubkey.length = 48

variable {e : NodeOperatorGlobalIndex × LidoValidator} {pubkey record : List UInt8}
  {xs ys : List (NodeOperatorGlobalIndex × LidoValidator)}

/-- The sort key of an entry as one number of sixteen bytes -/
def packedKey (e : NodeOperatorGlobalIndex × LidoValidator) : ℕ :=
  e.1.1 * 256 ^ 13 + (e.1.2 * 256 ^ 8 + e.2.index)

theorem encodeRecord_ok_iff : encodeRecord e = .ok record ↔ ∃ pubkey, Encodable e pubkey ∧
    record = BigEndian.digits 3 e.1.1 ++ BigEndian.digits 5 e.1.2 ++ BigEndian.digits 8 e.2.index ++
      BigEndian.digits 8 e.2.lidoId.index ++ pubkey := by
  simp only [encodeRecord, Except.bind_eq_ok, Py.toBytes_eq_ok, Except.guard_eq_ok, Except.pure_eq_ok,
    not_not]
  constructor
  · rintro ⟨_, ⟨h₁, rfl⟩, _, ⟨h₂, rfl⟩, _, ⟨h₃, rfl⟩, _, ⟨h₄, rfl⟩, pubkey, h₅, h₆, rfl⟩
    exact ⟨pubkey, ⟨h₁, h₂, h₃, h₄, h₅, h₆⟩, rfl⟩
  · rintro ⟨pubkey, h, rfl⟩
    exact ⟨_, ⟨h.moduleId, rfl⟩, _, ⟨h.nodeOperatorId, rfl⟩, _, ⟨h.validatorIndex, rfl⟩, _,
      ⟨h.keyIndex, rfl⟩, pubkey, h.parsed, h.length, rfl⟩

section Record

variable (h : Encodable e pubkey)
include h

/-- One record is 72 bytes, reads back as its entry, and begins with the packed key. -/
theorem encodeRecord_spec (hrecord : encodeRecord e = .ok record) :
    record.length = RECORD_LENGTH ∧ decodeRecord record = exitRequestOf e pubkey ∧
      BigEndian.fromBytes (record.take 16) = packedKey e := by
  obtain ⟨pubkey', h', rfl⟩ := encodeRecord_ok_iff.mp hrecord
  have hpub : pubkey' = pubkey := by
    have hparsed := h'.parsed
    rw [h.parsed, Except.ok.injEq] at hparsed
    exact hparsed.symm
  subst hpub
  set m := BigEndian.digits 3 e.1.1 with hm
  set o := BigEndian.digits 5 e.1.2 with ho
  set i := BigEndian.digits 8 e.2.index with hi
  set k := BigEndian.digits 8 e.2.lidoId.index with hk
  have hmlen : m.length = 3 := BigEndian.digits_length _ _
  have holen : o.length = 5 := BigEndian.digits_length _ _
  have hilen : i.length = 8 := BigEndian.digits_length _ _
  have hklen : k.length = 8 := BigEndian.digits_length _ _
  have hmval : BigEndian.fromBytes m = e.1.1 := by
    rw [hm, BigEndian.fromBytes_digits, Nat.mod_eq_of_lt h.moduleId]
  have hoval : BigEndian.fromBytes o = e.1.2 := by
    rw [ho, BigEndian.fromBytes_digits, Nat.mod_eq_of_lt h.nodeOperatorId]
  have hival : BigEndian.fromBytes i = e.2.index := by
    rw [hi, BigEndian.fromBytes_digits, Nat.mod_eq_of_lt h.validatorIndex]
  have hkval : BigEndian.fromBytes k = e.2.lidoId.index := by
    rw [hk, BigEndian.fromBytes_digits, Nat.mod_eq_of_lt h.keyIndex]
  have hsplit : m ++ o ++ i ++ k ++ pubkey' = m ++ (o ++ (i ++ (k ++ pubkey'))) := by
    simp only [List.append_assoc]
  have hdrop3 : (m ++ (o ++ (i ++ (k ++ pubkey')))).drop 3 = o ++ (i ++ (k ++ pubkey')) :=
    List.drop_left' hmlen
  have hdrop8 : (m ++ (o ++ (i ++ (k ++ pubkey')))).drop 8 = i ++ (k ++ pubkey') := by
    rw [show 8 = 3 + 5 from rfl, ← List.drop_drop, hdrop3, List.drop_left' holen]
  have hdrop16 : (m ++ (o ++ (i ++ (k ++ pubkey')))).drop 16 = k ++ pubkey' := by
    rw [show 16 = 8 + 8 from rfl, ← List.drop_drop, hdrop8, List.drop_left' hilen]
  have hdrop24 : (m ++ (o ++ (i ++ (k ++ pubkey')))).drop 24 = pubkey' := by
    rw [show 24 = 16 + 8 from rfl, ← List.drop_drop, hdrop16, List.drop_left' hklen]
  refine ⟨?_, ?_, ?_⟩
  · simp only [List.length_append, hmlen, holen, hilen, hklen, h.length]
    rfl
  · rw [hsplit]
    unfold decodeRecord exitRequestOf
    rw [hdrop3, hdrop8, hdrop16, hdrop24, List.take_left' hmlen, List.take_left' holen,
      List.take_left' hilen, List.take_left' hklen, hmval, hoval, hival, hkval]
  · have htake : (m ++ o ++ i ++ k ++ pubkey').take 16 = m ++ (o ++ i) := by
      have hpre : m ++ o ++ i ++ k ++ pubkey' = (m ++ (o ++ i)) ++ (k ++ pubkey') := by
        simp only [List.append_assoc]
      rw [hpre]
      refine List.take_left' ?_
      simp only [List.length_append, hmlen, holen, hilen]
    rw [htake, BigEndian.fromBytes_append, BigEndian.fromBytes_append, List.length_append, holen,
      hilen, hmval, hoval, hival]
    rfl

end Record

/-- The packed keys order as the sort keys do. -/
theorem packedKey_lt {e e' : NodeOperatorGlobalIndex × LidoValidator} {p p' : List UInt8}
    (h : Encodable e p) (h' : Encodable e' p') (hlt : nogValidatorKey e < nogValidatorKey e') :
    packedKey e < packedKey e' := by
  have hlow : ∀ {x : NodeOperatorGlobalIndex × LidoValidator} {q : List UInt8}, Encodable x q →
      x.1.2 * 256 ^ 8 + x.2.index < 256 ^ 13 := fun hx =>
    BigEndian.append_lt hx.nodeOperatorId hx.validatorIndex
  refine (BigEndian.append_lt_append_iff (hlow h) (hlow h')).mpr ?_
  rcases Prod.Lex.toLex_lt_toLex.mp hlt with hmod | ⟨hmod, hrest⟩
  · exact .inl hmod
  · refine .inr ⟨hmod, (BigEndian.append_lt_append_iff h.validatorIndex h'.validatorIndex).mpr ?_⟩
    exact Prod.Lex.toLex_lt_toLex.mp hrest

/-- Encoding appends the records in the order of the sort. -/
theorem encodeData_ok_iff {out : List UInt8 × ℕ} : encodeData xs = .ok out ↔
    ∃ records, (sortValidatorsToEject xs).mapM encodeRecord = .ok records ∧
      out = (records.flatten, DATA_FORMAT_LIST_WITH_KEY_INDEX) := by
  have hloop : ∀ (es : List (NodeOperatorGlobalIndex × LidoValidator)) (acc data : List UInt8),
      (es.foldlM (fun result e => do
        let record ← encodeRecord e
        return result ++ record) acc : Encode _) = .ok data ↔
      ∃ records, es.mapM encodeRecord = .ok records ∧ data = acc ++ records.flatten := by
    intro es
    induction es with
    | nil =>
      intro acc data
      rw [List.foldlM_nil, Except.pure_eq_ok, List.mapM_nil]
      simp [pure, Except.pure, eq_comm]
    | cons e es ih =>
      intro acc data
      rw [ExceptRun.foldlM_cons_ok, List.mapM_cons]
      simp only [Except.bind_eq_ok, Except.pure_eq_ok, ih]
      constructor
      · rintro ⟨_, ⟨record, hrecord, rfl⟩, records, hrecords, rfl⟩
        exact ⟨_, ⟨record, hrecord, records, hrecords, rfl⟩, by simp⟩
      · rintro ⟨_, ⟨record, hrecord, records, hrecords, rfl⟩, rfl⟩
        exact ⟨_, ⟨record, hrecord, rfl⟩, records, hrecords, by simp⟩
  unfold encodeData
  rw [Except.bind_eq_ok]
  constructor
  · rintro ⟨data, hdata, hout⟩
    obtain ⟨records, hrecords, rfl⟩ := (hloop _ _ _).mp hdata
    rw [Except.pure_eq_ok] at hout
    exact ⟨records, hrecords, hout.symm⟩
  · rintro ⟨records, hrecords, rfl⟩
    exact ⟨_, (hloop _ _ _).mpr ⟨records, hrecords, rfl⟩, rfl⟩

/-- One entry that cannot be encoded spoils the report. -/
theorem encodeData_error (h : ∃ e ∈ xs, ∀ pubkey, ¬ Encodable e pubkey) :
    ∃ err, encodeData xs = .error err := by
  cases hout : encodeData xs with
  | error err => exact ⟨err, rfl⟩
  | ok out =>
    obtain ⟨e, he, hbad⟩ := h
    obtain ⟨records, hrecords, -⟩ := encodeData_ok_iff.mp hout
    obtain ⟨record, hrecord⟩ := ExceptRun.mapM_ok_of_mem hrecords (Sorted.mem_sortedBy.mpr he)
    obtain ⟨pubkey, hgood, -⟩ := encodeRecord_ok_iff.mp hrecord
    exact absurd hgood (hbad pubkey)

/-- The report says exactly what the list said, in the order of its keys, and any order of
the list gives the same report. -/
theorem buildReport_faithful (consensusVersion : ℕ) (refSlot : SlotNumber)
    (hdistinct : (xs.map nogValidatorKey).Nodup)
    (pubkeyOf : NodeOperatorGlobalIndex × LidoValidator → List UInt8)
    (hfit : ∀ e ∈ xs, Encodable e (pubkeyOf e)) :
    ∃ report, buildReport consensusVersion refSlot xs = .ok report ∧
      (Bytes.cut RECORD_LENGTH report.data).map decodeRecord =
        (sortValidatorsToEject xs).map (fun e => exitRequestOf e (pubkeyOf e)) ∧
      report.data.length = RECORD_LENGTH * report.requestsCount ∧
      ((Bytes.cut RECORD_LENGTH report.data).map fun record =>
        BigEndian.fromBytes (record.take 16)).Pairwise (· < ·) ∧
      ∀ ys, ys.Perm xs → buildReport consensusVersion refSlot ys = .ok report := by
  set sorted := sortValidatorsToEject xs with hsorted
  have hfitSorted : ∀ e ∈ sorted, Encodable e (pubkeyOf e) := fun e he =>
    hfit e (Sorted.mem_sortedBy.mp he)
  let recordOf (e : NodeOperatorGlobalIndex × LidoValidator) : List UInt8 :=
    BigEndian.digits 3 e.1.1 ++ BigEndian.digits 5 e.1.2 ++ BigEndian.digits 8 e.2.index ++
      BigEndian.digits 8 e.2.lidoId.index ++ pubkeyOf e
  have hrecord : ∀ e ∈ sorted, encodeRecord e = .ok (recordOf e) := fun e he =>
    encodeRecord_ok_iff.mpr ⟨pubkeyOf e, hfitSorted e he, rfl⟩
  have hspec : ∀ e ∈ sorted, (recordOf e).length = RECORD_LENGTH ∧
      decodeRecord (recordOf e) = exitRequestOf e (pubkeyOf e) ∧
      BigEndian.fromBytes ((recordOf e).take 16) = packedKey e := fun e he =>
    encodeRecord_spec (hfitSorted e he) (hrecord e he)
  have hencode : encodeData xs = .ok ((sorted.map recordOf).flatten, DATA_FORMAT_LIST_WITH_KEY_INDEX) :=
    encodeData_ok_iff.mpr ⟨_, ExceptRun.mapM_of_ok hrecord, rfl⟩
  have hwidth : ∀ record ∈ sorted.map recordOf, record.length = RECORD_LENGTH :=
    List.forall_mem_map.mpr fun e he => (hspec e he).1
  have hcut : Bytes.cut RECORD_LENGTH (sorted.map recordOf).flatten = sorted.map recordOf :=
    Bytes.cut_flatten (by decide) hwidth
  refine ⟨⟨consensusVersion, refSlot, xs.length, DATA_FORMAT_LIST_WITH_KEY_INDEX,
    (sorted.map recordOf).flatten⟩, ?_, ?_, ?_, ?_, ?_⟩
  · rw [buildReport, hencode]
    rfl
  · dsimp only
    rw [hcut, List.map_map]
    exact List.map_congr_left fun e he => (hspec e he).2.1
  · dsimp only
    rw [Bytes.length_flatten_of_width hwidth, List.length_map, hsorted, sortValidatorsToEject,
      Sorted.length_sortedBy]
  · dsimp only
    rw [hcut, List.map_map, List.pairwise_map]
    refine (Sorted.pairwise_lt_sortedBy hdistinct).imp_of_mem fun {a b} ha hb hlt => ?_
    simp only [Function.comp_apply]
    rw [(hspec a ha).2.2, (hspec b hb).2.2]
    exact packedKey_lt (hfitSorted a ha) (hfitSorted b hb) hlt
  · intro ys hperm
    have hdistinct' : (ys.map nogValidatorKey).Nodup := (hperm.map _).nodup_iff.mpr hdistinct
    have hsame : sortValidatorsToEject ys = sortValidatorsToEject xs :=
      Sorted.sortedBy_eq_of_perm hdistinct' hperm
    have hencode' : encodeData ys = encodeData xs := by rw [encodeData, hsame]; rfl
    rw [buildReport, hencode', hencode, hperm.length_eq]
    rfl

/-- A report is a faithful and canonical encoding of a list that can be encoded; there is no
report for any other list. -/
theorem buildReport_canonical (consensusVersion : ℕ) (refSlot : SlotNumber)
    (xs : List (NodeOperatorGlobalIndex × LidoValidator)) :
    ((xs.map nogValidatorKey).Nodup →
      ∀ pubkeyOf : NodeOperatorGlobalIndex × LidoValidator → List UInt8,
        (∀ e ∈ xs, Encodable e (pubkeyOf e)) →
        ∃ report, buildReport consensusVersion refSlot xs = .ok report ∧
          (Bytes.cut RECORD_LENGTH report.data).map decodeRecord =
            (sortValidatorsToEject xs).map (fun e => exitRequestOf e (pubkeyOf e)) ∧
          report.data.length = RECORD_LENGTH * report.requestsCount ∧
          ((Bytes.cut RECORD_LENGTH report.data).map fun record =>
            BigEndian.fromBytes (record.take 16)).Pairwise (· < ·) ∧
          ∀ ys, ys.Perm xs → buildReport consensusVersion refSlot ys = .ok report) ∧
    ((∃ e ∈ xs, ∀ pubkey, ¬ Encodable e pubkey) →
      ∃ err, buildReport consensusVersion refSlot xs = .error err) := by
  refine ⟨buildReport_faithful consensusVersion refSlot, fun hbad => ?_⟩
  obtain ⟨err, herr⟩ := encodeData_error hbad
  exact ⟨err, by rw [buildReport, herr]; rfl⟩

/-- The keys of a safe report are distinct: what the iterator selects can be encoded canonically. -/
theorem safeReport_keys_nodup {st : StakingState} (h : SafeReport st xs) :
    (xs.map nogValidatorKey).Nodup := by
  refine List.Nodup.of_map (fun key : ℕ ×ₗ ℕ ×ₗ ℕ => (ofLex (ofLex key).2).2) ?_
  rw [List.map_map]
  exact h.distinct

def samplePubkey : HexStr := String.ofList ('0' :: 'x' :: List.replicate 96 'a')

/-- Two validators of one operator, given in descending order -/
def sampleEjected : List (NodeOperatorGlobalIndex × LidoValidator) :=
  [9, 4].map fun index => ((1, 0), { ValidatorExitIterator.sampleValidator index 0 0 "a" with
    validator := { (ValidatorExitIterator.sampleValidator index 0 0 "a").validator with
      pubkey := samplePubkey } })

theorem buildReport_canonical_sample : ∃ report, buildReport 3 100 sampleEjected = .ok report ∧
    report.data.length = 144 := by
  have hbytes : (hexStrToBytes samplePubkey : Encode HexBytes) = .ok (List.replicate 48 170) := by decide +kernel
  have hfields : ∀ e ∈ sampleEjected, e.1.1 < 256 ^ 3 ∧ e.1.2 < 256 ^ 5 ∧ e.2.index < 256 ^ 8 ∧
      e.2.lidoId.index < 256 ^ 8 ∧ e.2.validator.pubkey = samplePubkey := by decide +kernel
  obtain ⟨report, hreport, -, hlength, -⟩ := (buildReport_canonical 3 100 sampleEjected).1
    (by decide) (fun _ => List.replicate 48 170) fun e he => by
      obtain ⟨hmodule, hop, hindex, hkey, hpub⟩ := hfields e he
      exact ⟨hmodule, hop, hindex, hkey, hpub ▸ hbytes, rfl⟩
  refine ⟨report, hreport, ?_⟩
  rw [hlength]
  have hcount : report.requestsCount = 2 := by
    obtain ⟨out, -, hout⟩ := Except.bind_eq_ok.mp hreport
    rw [Except.pure_eq_ok] at hout
    rw [← hout]
    rfl
  rw [hcount]
  rfl

end Ejector

end LidoOracle
