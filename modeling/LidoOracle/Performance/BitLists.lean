import LidoOracle.Lib.PackedBits
import LidoOracle.Types

/-! The bit fields of attestations and sync aggregates. A bit vector has the length
of its bytes, a bit list ends at the delimiter that its encoding sets. -/

namespace LidoOracle

namespace Performance

variable {χ : Type}

abbrev CommitteeIndex := ℕ

structure AttestationData where
  slot : SlotNumber
  deriving DecidableEq

structure BlockAttestation where
  aggregationBits : HexStr
  committeeBits : HexStr
  data : AttestationData
  deriving DecidableEq

def bytesToBoolList (bytes : HexBytes) (count : Option ℕ) : Py χ (List Bool) :=
  let count := count.getD (bytes.length * 8)
  (List.range count).mapM fun bitIndex => do
    let byte ← Py.listItem bytes (bitIndex / 8)
    return (byte.toNat >>> (bitIndex % 8)) % 2 ≠ 0

def hexBitvectorToList (bitvector : HexStr) : Py χ (List Bool) := do
  let bytes ← hexStrToBytes bitvector
  bytesToBoolList bytes none

def hexBitlistToList (bitlist : HexStr) : Py χ (List Bool) := do
  let bytes ← hexStrToBytes bitlist
  if bytes = [] ∨ bytes.getLast? = some 0 then throw .valueError
  let bitlistLen := (PackedBits.fromBytes bytes).size - 1
  bytesToBoolList bytes (some bitlistLen)

/-- Indices of the set bits -/
def getSetIndices (bits : List Bool) : List ℕ := (bits.zipIdx.filter fun e => e.1).map Prod.snd

/-- Indices of the unset bits -/
def getUnsetIndices (bits : List Bool) : List ℕ := (bits.zipIdx.filter fun e => !e.1).map Prod.snd

def getCommitteeIndices (attestation : BlockAttestation) : Py χ (List CommitteeIndex) := do
  let bits ← hexBitvectorToList attestation.committeeBits
  return getSetIndices bits

/-! Every position asked for lies within the bytes, so no index is out of range. -/

theorem bytesToBoolList_eq {bytes : HexBytes} {count : Option ℕ}
    (h : count.getD (bytes.length * 8) ≤ 8 * bytes.length) :
    (bytesToBoolList bytes count : Py χ (List Bool)) =
      .ok (PackedBits.unpack (count.getD (bytes.length * 8)) bytes) := by
  refine ExceptRun.mapM_of_ok fun i hi => ?_
  have hk : i / 8 < bytes.length := by
    have := List.mem_range.mp hi
    omega
  have hbyte : (Py.listItem bytes (i / 8) : Py χ UInt8) = .ok (bytes.getD (i / 8) 0) := by
    rw [Py.listItem_eq_ok, List.getD_eq_getElem _ _ hk, List.getElem?_eq_getElem hk]
  rw [hbyte, Except.ok_bind, PackedBits.bitAt, Nat.testBit_eq_decide_div_mod_eq, Nat.shiftRight_eq_div_pow]
  generalize (bytes.getD (i / 8) 0).toNat / 2 ^ (i % 8) = q
  have hodd : q % 2 ≠ 0 ↔ q % 2 = 1 := by omega
  simp only [hodd]
  rfl

theorem hexBitvectorToList_eq {bitvector : HexStr} {bytes : HexBytes}
    (h : (hexStrToBytes bitvector : Py χ HexBytes) = .ok bytes) :
    (hexBitvectorToList bitvector : Py χ (List Bool)) = .ok (PackedBits.unpack (8 * bytes.length) bytes) := by
  rw [hexBitvectorToList, h, Except.ok_bind, bytesToBoolList_eq (by rw [Option.getD_none, Nat.mul_comm]),
    Option.getD_none, Nat.mul_comm]

theorem hexBitlistToList_raises {bitlist : HexStr} {bytes : HexBytes}
    (h : (hexStrToBytes bitlist : Py χ HexBytes) = .ok bytes) (hbad : bytes = [] ∨ bytes.getLast? = some 0) :
    (hexBitlistToList bitlist : Py χ (List Bool)) = .error .valueError := by
  rw [hexBitlistToList, h, Except.ok_bind, if_pos hbad]
  rfl

theorem hexBitlistToList_eq {bitlist : HexStr} {bytes : HexBytes}
    (h : (hexStrToBytes bitlist : Py χ HexBytes) = .ok bytes) (hne : bytes ≠ [])
    (hlast : bytes.getLast? ≠ some 0) :
    (hexBitlistToList bitlist : Py χ (List Bool)) =
      .ok (PackedBits.unpack ((PackedBits.fromBytes bytes).size - 1) bytes) := by
  have hsize := (PackedBits.size_fromBytes hne hlast).2
  rw [hexBitlistToList, h, Except.ok_bind, if_neg (by simp [hne, hlast])]
  exact bytesToBoolList_eq (by rw [Option.getD_some]; omega)

/-- A bit list is decoded exactly from its encoding, and what is no encoding is refused. -/
theorem hexBitlistToList_ok_iff {bitlist : HexStr} {bytes : HexBytes} {bits : List Bool}
    (h : (hexStrToBytes bitlist : Py χ HexBytes) = .ok bytes) :
    (hexBitlistToList bitlist : Py χ (List Bool)) = .ok bits ↔ PackedBits.packDelimited bits = bytes := by
  by_cases hbytes : bytes ≠ [] ∧ bytes.getLast? ≠ some 0
  · rw [hexBitlistToList_eq h hbytes.1 hbytes.2, Except.ok.injEq]
    refine ⟨fun hbits => ?_, fun hpack => ?_⟩
    · rw [← hbits, PackedBits.packDelimited_unpack hbytes.1 hbytes.2]
    · rw [← hpack, PackedBits.size_packDelimited, Nat.add_sub_cancel, PackedBits.unpack_packDelimited]
  · have hbad : bytes = [] ∨ bytes.getLast? = some 0 := by
      rw [not_and_or, not_not, not_not] at hbytes
      exact hbytes
    rw [hexBitlistToList_raises h hbad]
    refine ⟨fun herror => (by cases herror), fun hpack => ?_⟩
    exact absurd ((PackedBits.exists_packDelimited_iff bytes).mp ⟨bits, hpack⟩) hbytes

theorem hexBitlistToList_error_iff {bitlist : HexStr} {bytes : HexBytes} {error : PyError χ}
    (h : (hexStrToBytes bitlist : Py χ HexBytes) = .ok bytes) :
    (hexBitlistToList bitlist : Py χ (List Bool)) = .error error ↔
      (bytes = [] ∨ bytes.getLast? = some 0) ∧ error = .valueError := by
  by_cases hbad : bytes = [] ∨ bytes.getLast? = some 0
  · rw [hexBitlistToList_raises h hbad, Except.error.injEq]
    simp only [hbad, true_and, eq_comm]
  · obtain ⟨hne, hlast⟩ := not_or.mp hbad
    rw [hexBitlistToList_eq h hne hlast]
    simp [hbad]

/-- Below the delimiter the two readings agree. -/
theorem hexBitvectorToList_agrees {bitlist : HexStr} {bytes : HexBytes} {bits : List Bool}
    (h : (hexStrToBytes bitlist : Py χ HexBytes) = .ok bytes)
    (hbits : (hexBitlistToList bitlist : Py χ (List Bool)) = .ok bits) :
    ∃ vector, (hexBitvectorToList bitlist : Py χ (List Bool)) = .ok vector ∧
      ∀ i < bits.length, vector[i]? = bits[i]? := by
  have hpack := (hexBitlistToList_ok_iff h).mp hbits
  refine ⟨_, hexBitvectorToList_eq h, fun i hi => ?_⟩
  have hlen : bytes.length = bits.length / 8 + 1 := by rw [← hpack, PackedBits.length_packDelimited]
  have hin : i < 8 * bytes.length := by omega
  have hbit : PackedBits.bitAt bytes i = bits[i] := by
    rw [← hpack, PackedBits.bitAt_packDelimited, if_pos hi, List.getD_eq_getElem _ _ hi]
  rw [List.getElem?_eq_getElem hi, List.getElem?_eq_getElem (by rwa [PackedBits.length_unpack]), ← hbit,
    ← PackedBits.getD_unpack hin, List.getD_eq_getElem _ _ (by rwa [PackedBits.length_unpack])]

/-- Decoding a bit list inverts its encoding, on exactly the byte strings that are one, and reads the same
bits as the vector. -/
theorem hexBitlistToList_inverts :
    (∀ bits, (hexBitlistToList (HexBytes.to0xHex (PackedBits.packDelimited bits)) : Py χ _) = .ok bits) ∧
    ∀ bitlist bytes, (hexStrToBytes bitlist : Py χ HexBytes) = .ok bytes →
      (∀ bits, bytes = PackedBits.packDelimited bits → (hexBitlistToList bitlist : Py χ _) = .ok bits) ∧
      (∀ bits, (hexBitlistToList bitlist : Py χ _) = .ok bits → PackedBits.packDelimited bits = bytes ∧
        ∃ vector, (hexBitvectorToList bitlist : Py χ _) = .ok vector ∧
          ∀ i < bits.length, vector[i]? = bits[i]?) ∧
      ((hexBitlistToList bitlist : Py χ (List Bool)) = .error .valueError ↔
        bytes = [] ∨ bytes.getLast? = some 0) ∧
      ((∃ error, (hexBitlistToList bitlist : Py χ (List Bool)) = .error error) ↔
        ¬ ∃ bits, PackedBits.packDelimited bits = bytes) := by
  refine ⟨fun bits => (hexBitlistToList_ok_iff (hexStrToBytes_to0xHex _)).mpr rfl, fun bitlist bytes h => ?_⟩
  refine ⟨fun bits hbytes => (hexBitlistToList_ok_iff h).mpr hbytes.symm,
    fun bits hbits => ⟨(hexBitlistToList_ok_iff h).mp hbits, hexBitvectorToList_agrees h hbits⟩, ?_, ?_⟩
  · rw [hexBitlistToList_error_iff h]
    exact and_iff_left rfl
  · have hraises : (∃ error, (hexBitlistToList bitlist : Py χ (List Bool)) = .error error) ↔
        bytes = [] ∨ bytes.getLast? = some 0 := by
      simp only [hexBitlistToList_error_iff h, exists_and_left, exists_eq, and_true]
    rw [hraises, PackedBits.exists_packDelimited_iff, not_and_or, not_not, not_not]

/-- Four bits, the delimiter above them, in one byte -/
theorem hexBitlistToList_inverts_sample :
    (hexStrToBytes "0x17" : Py Empty HexBytes) = .ok [0x17] ∧
      (hexBitlistToList "0x17" : Py Empty _) = .ok [true, true, true, false] := by
  have hbytes : (hexStrToBytes "0x17" : Py Empty HexBytes) = .ok [0x17] := by decide +kernel
  exact ⟨hbytes, ((@hexBitlistToList_inverts Empty).2 "0x17" [0x17] hbytes).1 _ (by decide +kernel)⟩

/-! The indices of a field are the positions of its set bits, in ascending order. -/

theorem mem_getSetIndices {bits : List Bool} {i : ℕ} : i ∈ getSetIndices bits ↔ bits[i]? = some true := by
  simp [getSetIndices, List.mem_zipIdx_iff_getElem?]

theorem mem_getUnsetIndices {bits : List Bool} {i : ℕ} : i ∈ getUnsetIndices bits ↔ bits[i]? = some false := by
  simp [getUnsetIndices, List.mem_zipIdx_iff_getElem?]

theorem pairwise_filter_zipIdx (bits : List Bool) (p : Bool × ℕ → Bool) :
    ((bits.zipIdx.filter p).map Prod.snd).Pairwise (· < ·) := by
  have hsub : ((bits.zipIdx.filter p).map Prod.snd).Sublist (bits.zipIdx.map Prod.snd) :=
    List.filter_sublist.map _
  rw [List.zipIdx_map_snd] at hsub
  exact (List.pairwise_lt_range' _ one_pos).sublist hsub

/-- The committees of an attestation, each once -/
theorem getCommitteeIndices_eq {attestation : BlockAttestation} {bytes : HexBytes}
    (h : (hexStrToBytes attestation.committeeBits : Py χ HexBytes) = .ok bytes) :
    ∃ indices, (getCommitteeIndices attestation : Py χ _) = .ok indices ∧ indices.Pairwise (· < ·) ∧
      ∀ i : ℕ, i ∈ indices ↔ PackedBits.bitAt bytes i = true := by
  refine ⟨getSetIndices (PackedBits.unpack (8 * bytes.length) bytes), ?_, pairwise_filter_zipIdx _ _, fun i => ?_⟩
  · rw [getCommitteeIndices, hexBitvectorToList_eq h]
    rfl
  · rw [mem_getSetIndices]
    by_cases hi : i < 8 * bytes.length
    · rw [List.getElem?_eq_getElem (by rwa [PackedBits.length_unpack]), ← PackedBits.getD_unpack hi,
        List.getD_eq_getElem _ _ (by rwa [PackedBits.length_unpack]), Option.some.injEq]
    · rw [List.getElem?_eq_none (by rw [PackedBits.length_unpack]; omega), PackedBits.bitAt,
        List.getD_eq_default _ _ (by omega)]
      simp

end Performance

end LidoOracle
