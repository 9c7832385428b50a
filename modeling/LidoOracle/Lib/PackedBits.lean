import Mathlib

/-! Bits packed into bytes, least significant bit first: bit `i` of the list is bit
`i % 8` of byte `i / 8`. A list of any length is delimited by one set bit after its
last element, and its length is read back from the little-endian number. -/

namespace PackedBits

/-- The unsigned number a byte string denotes, least significant byte first. -/
def fromBytes : List UInt8 → ℕ
  | [] => 0
  | b :: bytes => 2 ^ 8 * fromBytes bytes + b.toNat

/-- Bit `i` of a byte string; the positions past its end are unset. -/
def bitAt (bytes : List UInt8) (i : ℕ) : Bool := (bytes.getD (i / 8) 0).toNat.testBit (i % 8)

/-- Byte `k` of a list of bits -/
def packByte (bits : List Bool) (k : ℕ) : UInt8 :=
  UInt8.ofNat (Nat.ofBits fun r : Fin 8 => bits.getD (8 * k + r) false)

def pack (bits : List Bool) : List UInt8 :=
  (List.range ((bits.length + 7) / 8)).map (packByte bits)

/-- The bits with one set bit after the last of them -/
def packDelimited (bits : List Bool) : List UInt8 := pack (bits ++ [true])

/-- The first `count` bits of a byte string -/
def unpack (count : ℕ) (bytes : List UInt8) : List Bool := (List.range count).map (bitAt bytes)

theorem fromBytes_lt (bytes : List UInt8) : fromBytes bytes < 2 ^ (8 * bytes.length) := by
  induction bytes with
  | nil => decide
  | cons b bytes ih =>
    have hb : b.toNat < 256 := b.toNat_lt
    rw [fromBytes, List.length_cons, Nat.mul_add, Nat.mul_one, pow_add]
    omega

theorem testBit_fromBytes (bytes : List UInt8) (i : ℕ) :
    (fromBytes bytes).testBit i = bitAt bytes i := by
  induction bytes generalizing i with
  | nil => simp [fromBytes, bitAt]
  | cons b bytes ih =>
    have hb : b.toNat < 2 ^ 8 := b.toNat_lt
    rw [fromBytes, Nat.testBit_two_pow_mul_add _ hb, bitAt]
    split_ifs with hi
    · rw [Nat.div_eq_of_lt hi, Nat.mod_eq_of_lt hi, List.getD_cons_zero]
    · obtain ⟨j, rfl⟩ : ∃ j, i = j + 8 := ⟨i - 8, by omega⟩
      rw [Nat.add_sub_cancel, ih, bitAt, Nat.add_div_right j (by decide), List.getD_cons_succ,
        Nat.add_mod_right]

/-- A byte string is determined by its length and its bits. -/
theorem ext_bitAt {bytes bytes' : List UInt8} (hlen : bytes.length = bytes'.length)
    (hbits : ∀ i, bitAt bytes i = bitAt bytes' i) : bytes = bytes' := by
  refine List.ext_getElem hlen fun k hk hk' => UInt8.toNat_inj.mp (Nat.eq_of_testBit_eq fun r => ?_)
  by_cases hr : r < 8
  · have hbit := hbits (8 * k + r)
    have hdiv : (8 * k + r) / 8 = k := by omega
    have hmod : (8 * k + r) % 8 = r := by omega
    rwa [bitAt, bitAt, hdiv, hmod, List.getD_eq_getElem _ _ hk, List.getD_eq_getElem _ _ hk'] at hbit
  · have hunset : ∀ b : UInt8, b.toNat.testBit r = false := fun b =>
      Nat.testBit_lt_two_pow (b.toNat_lt.trans_le (Nat.pow_le_pow_right (by decide) (by omega)))
    rw [hunset, hunset]

@[simp] theorem length_pack (bits : List Bool) : (pack bits).length = (bits.length + 7) / 8 := by
  rw [pack, List.length_map, List.length_range]

@[simp] theorem length_packDelimited (bits : List Bool) :
    (packDelimited bits).length = bits.length / 8 + 1 := by
  rw [packDelimited, length_pack, List.length_append, List.length_singleton]
  omega

@[simp] theorem length_unpack (count : ℕ) (bytes : List UInt8) : (unpack count bytes).length = count := by
  rw [unpack, List.length_map, List.length_range]

theorem getD_unpack {count i : ℕ} (hi : i < count) (bytes : List UInt8) :
    (unpack count bytes).getD i false = bitAt bytes i := by
  rw [List.getD_eq_getElem _ _ (by rwa [length_unpack])]
  simp [unpack]

theorem testBit_packByte {r : ℕ} (hr : r < 8) (bits : List Bool) (k : ℕ) :
    (packByte bits k).toNat.testBit r = bits.getD (8 * k + r) false := by
  rw [packByte, UInt8.toNat_ofNat_of_lt' (Nat.ofBits_lt_two_pow _), Nat.testBit_ofBits_lt _ r hr]

theorem bitAt_pack (bits : List Bool) (i : ℕ) : bitAt (pack bits) i = bits.getD i false := by
  have hr : i % 8 < 8 := Nat.mod_lt i (by decide)
  by_cases hk : i / 8 < (bits.length + 7) / 8
  · rw [bitAt, List.getD_eq_getElem _ _ (by rwa [length_pack])]
    simp only [pack, List.getElem_map, List.getElem_range]
    rw [testBit_packByte hr, Nat.div_add_mod]
  · rw [bitAt, List.getD_eq_default _ _ (by rw [length_pack]; omega),
      List.getD_eq_default _ _ (by omega)]
    exact Nat.zero_testBit _

theorem bitAt_packDelimited (bits : List Bool) (i : ℕ) :
    bitAt (packDelimited bits) i =
      if i < bits.length then bits.getD i false else decide (i = bits.length) := by
  rw [packDelimited, bitAt_pack]
  split_ifs with hi
  · rw [List.getD_append _ _ _ _ hi]
  · rw [List.getD_append_right _ _ _ _ (by omega)]
    rcases Nat.lt_trichotomy i bits.length with h | rfl | h
    · exact absurd h hi
    · simp
    · rw [List.getD_eq_default _ _ (by rw [List.length_singleton]; omega)]
      simp [h.ne']

/-- The number's length in bits is the list's length and the delimiter. -/
theorem size_packDelimited (bits : List Bool) :
    (fromBytes (packDelimited bits)).size = bits.length + 1 := by
  have hset : (fromBytes (packDelimited bits)).testBit bits.length = true := by
    rw [testBit_fromBytes, bitAt_packDelimited]
    simp
  have hunset : ∀ i ≥ bits.length + 1, (fromBytes (packDelimited bits)).testBit i = false := by
    intro i hi
    rw [testBit_fromBytes, bitAt_packDelimited, if_neg (by omega)]
    exact decide_eq_false (by omega)
  exact le_antisymm (Nat.size_le.mpr (Nat.lt_pow_two_of_testBit _ hunset))
    (Nat.lt_size.mpr (Nat.ge_two_pow_of_testBit hset))

/-- The delimiter sits in the last byte. -/
theorem getLast?_packDelimited (bits : List Bool) : (packDelimited bits).getLast? ≠ some 0 := by
  intro hzero
  have hset := bitAt_packDelimited bits bits.length
  have hlast : (packDelimited bits)[bits.length / 8]? = some 0 := by
    rw [List.getLast?_eq_getElem?, length_packDelimited] at hzero
    exact hzero
  rw [bitAt, List.getD_eq_getElem?_getD, hlast] at hset
  simp at hset

/-- The delimited list reads back. -/
theorem unpack_packDelimited (bits : List Bool) :
    unpack bits.length (packDelimited bits) = bits := by
  refine List.ext_getElem (length_unpack _ _) fun i hi hi' => ?_
  rw [← List.getD_eq_getElem _ false hi, getD_unpack hi', bitAt_packDelimited, if_pos hi',
    List.getD_eq_getElem _ _ hi']

theorem fromBytes_append (xs ys : List UInt8) :
    fromBytes (xs ++ ys) = 2 ^ (8 * xs.length) * fromBytes ys + fromBytes xs := by
  induction xs with
  | nil => simp [fromBytes]
  | cons b xs ih =>
    have hshift : 8 * (xs.length + 1) = 8 * xs.length + 8 := by ring
    rw [List.cons_append, fromBytes, ih, fromBytes, List.length_cons, hshift, pow_add]
    ring

/-- A last byte that is not zero gives the number its full length in bytes. -/
theorem size_fromBytes {bytes : List UInt8} (hne : bytes ≠ []) (hlast : bytes.getLast? ≠ some 0) :
    8 * (bytes.length - 1) < (fromBytes bytes).size ∧ (fromBytes bytes).size ≤ 8 * bytes.length := by
  refine ⟨?_, Nat.size_le.mpr (fromBytes_lt bytes)⟩
  obtain ⟨front, last, rfl⟩ := (List.eq_nil_or_concat' bytes).resolve_left hne
  have hpos : 0 < last.toNat := by
    rw [List.getLast?_concat, Ne, Option.some.injEq] at hlast
    exact Nat.pos_of_ne_zero fun h => hlast (UInt8.toNat_inj.mp h)
  rw [Nat.lt_size, List.length_append, List.length_singleton, Nat.add_sub_cancel, fromBytes_append, fromBytes,
    fromBytes, Nat.mul_zero, Nat.zero_add]
  have hle : 2 ^ (8 * front.length) * 1 ≤ 2 ^ (8 * front.length) * last.toNat := Nat.mul_le_mul_left _ hpos
  omega

/-- The bits below the highest set one, delimited again, are the bytes they came from. -/
theorem packDelimited_unpack {bytes : List UInt8} (hne : bytes ≠ []) (hlast : bytes.getLast? ≠ some 0) :
    packDelimited (unpack ((fromBytes bytes).size - 1) bytes) = bytes := by
  obtain ⟨hlow, hhigh⟩ := size_fromBytes hne hlast
  have hlen := List.length_pos_of_ne_nil hne
  generalize hcount : (fromBytes bytes).size - 1 = count
  have hsize : (fromBytes bytes).size = count + 1 := by omega
  have hge : 2 ^ count ≤ fromBytes bytes := Nat.lt_size.mp (by omega)
  have hlt : fromBytes bytes < 2 ^ (count + 1) := Nat.size_le.mp hsize.le
  refine ext_bitAt (by rw [length_packDelimited, length_unpack]; omega) fun i => ?_
  rw [bitAt_packDelimited, length_unpack]
  rcases Nat.lt_trichotomy i count with hi | rfl | hi
  · rw [if_pos hi, getD_unpack hi]
  · rw [if_neg (lt_irrefl i), ← testBit_fromBytes]
    obtain ⟨top, htop, hset⟩ := Nat.exists_ge_and_testBit_of_ge_two_pow hge
    have htop' : top = i := by
      have := (Nat.pow_lt_pow_iff_right (by decide : 1 < 2)).mp ((Nat.ge_two_pow_of_testBit hset).trans_lt hlt)
      omega
    simp [← htop', hset]
  · rw [if_neg (by omega), ← testBit_fromBytes,
      Nat.testBit_lt_two_pow (hlt.trans_le (Nat.pow_le_pow_right (by decide) hi))]
    exact decide_eq_false (by omega)

/-- The encodings are the byte strings whose last byte is not zero. -/
theorem exists_packDelimited_iff (bytes : List UInt8) :
    (∃ bits, packDelimited bits = bytes) ↔ bytes ≠ [] ∧ bytes.getLast? ≠ some 0 := by
  refine ⟨?_, fun ⟨hne, hlast⟩ => ⟨_, packDelimited_unpack hne hlast⟩⟩
  rintro ⟨bits, rfl⟩
  refine ⟨List.ne_nil_of_length_pos ?_, getLast?_packDelimited bits⟩
  rw [length_packDelimited]
  exact Nat.succ_pos _

end PackedBits
