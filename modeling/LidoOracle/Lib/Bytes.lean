import LidoOracle.Lib.BigEndian
import LidoOracle.Lib.Python

/-! Byte strings: fixed-width fields, hexadecimal text, and cutting a string
into records of one width. -/

namespace Py

variable {χ : Type}

/-- `n.to_bytes(len)` -/
def toBytes (len n : ℕ) : Py χ (List UInt8) :=
  match BigEndian.toBytes len n with
  | some bytes => .ok bytes
  | none => .error .overflowError

/-- `text.encode('ascii')`, for text that is ASCII -/
def encodeAscii (text : String) : List UInt8 := text.toList.map fun c => UInt8.ofNat c.toNat

def isSpace (c : Char) : Bool := c.toNat = 32 || (9 ≤ c.toNat && c.toNat ≤ 13)

def hexDigit (c : Char) : Option ℕ :=
  if '0' ≤ c ∧ c ≤ '9' then some (c.toNat - '0'.toNat)
  else if 'a' ≤ c ∧ c ≤ 'f' then some (c.toNat - 'a'.toNat + 10)
  else if 'A' ≤ c ∧ c ≤ 'F' then some (c.toNat - 'A'.toNat + 10)
  else none

/-- `bytes.fromhex(text)`: pairs of digits, with blanks allowed between the pairs -/
def fromHex : List Char → Py χ (List UInt8)
  | [] => .ok []
  | c :: rest =>
    if isSpace c then fromHex rest
    else match hexDigit c, rest with
      | some high, d :: rest =>
        match hexDigit d with
        | some low => do
          let bytes ← fromHex rest
          .ok (UInt8.ofNat (high * 16 + low) :: bytes)
        | none => .error .valueError
      | _, _ => .error .valueError

/-- Text that does not read as bytes is a wrong value. -/
theorem fromHex_eq_error {text : List Char} {e : PyError χ} (h : fromHex text = .error e) : e = .valueError := by
  fun_induction fromHex text with
  | case1 => cases h
  | case2 c rest hspace ih => exact ih h
  | case3 c hspace high d rest hhigh low hlow ih =>
    rcases Except.bind_eq_error.mp h with h | ⟨bytes, -, h⟩
    · exact ih h
    · cases h
  | case4 => exact (Except.error.inj h).symm
  | case5 => exact (Except.error.inj h).symm

/-- `bytes.hex()` -/
def toHex (bytes : List UInt8) : List Char :=
  bytes.flatMap fun b => [Nat.digitChar (b.toNat / 16), Nat.digitChar (b.toNat % 16)]

theorem hexDigit_digitChar : ∀ n < 16, isSpace n.digitChar = false ∧ hexDigit n.digitChar = some n := by decide

/-- Hexadecimal text reads back as the bytes it was written for. -/
theorem fromHex_toHex (bytes : List UInt8) : (fromHex (toHex bytes) : Py χ _) = .ok bytes := by
  induction bytes with
  | nil => rfl
  | cons b bytes ih =>
    have hb : b.toNat < 256 := b.toNat_lt
    obtain ⟨hblank, hhigh⟩ := hexDigit_digitChar (b.toNat / 16) (by omega)
    obtain ⟨-, hlow⟩ := hexDigit_digitChar (b.toNat % 16) (by omega)
    have hbyte : b.toNat / 16 * 16 + b.toNat % 16 = b.toNat := by omega
    have hstep : (fromHex (toHex (b :: bytes)) : Py χ _) =
        (fromHex (toHex bytes) >>= fun rest => .ok (UInt8.ofNat (b.toNat / 16 * 16 + b.toNat % 16) :: rest)) := by
      rw [toHex, List.flatMap_cons, ← toHex]
      simp only [List.cons_append, List.nil_append]
      rw [fromHex.eq_def]
      simp only [hblank, hhigh, hlow, Bool.false_eq_true, if_false]
    rw [hstep, ih, Except.ok_bind, hbyte, UInt8.ofNat_toNat]

theorem toHex_injective {bytes bytes' : List UInt8} (h : toHex bytes = toHex bytes') : bytes = bytes' := by
  have hread : (fromHex (toHex bytes) : Py Empty _) = fromHex (toHex bytes') := congrArg fromHex h
  rw [fromHex_toHex, fromHex_toHex] at hread
  exact Except.ok.inj hread

theorem toBytes_eq_ok {len n : ℕ} {bytes : List UInt8} :
    (toBytes len n : Py χ _) = .ok bytes ↔ n < 256 ^ len ∧ bytes = BigEndian.digits len n := by
  unfold toBytes BigEndian.toBytes
  split_ifs with h
  · simp [h, eq_comm]
  · simp [h]

end Py

namespace Bytes

variable {α : Type}

/-- Consecutive pieces of `width` elements; a remainder is dropped. -/
def cut (width : ℕ) (l : List α) : List (List α) :=
  (List.range (l.length / width)).map fun i => (l.drop (width * i)).take width

theorem length_flatten_of_width {width : ℕ} {records : List (List α)}
    (h : ∀ r ∈ records, r.length = width) : records.flatten.length = width * records.length := by
  induction records with
  | nil => rfl
  | cons r records ih =>
    rw [List.forall_mem_cons] at h
    rw [List.flatten_cons, List.length_append, h.1, ih h.2, List.length_cons]
    ring

/-- Cutting undoes the concatenation of records of one width. -/
theorem cut_flatten {width : ℕ} (hw : 0 < width) {records : List (List α)}
    (h : ∀ r ∈ records, r.length = width) : cut width records.flatten = records := by
  rw [cut, length_flatten_of_width h, Nat.mul_div_cancel_left _ hw]
  induction records with
  | nil => rfl
  | cons r records ih =>
    rw [List.forall_mem_cons] at h
    rw [List.length_cons, List.range_succ_eq_map, List.map_cons, List.map_map, List.flatten_cons]
    congr 1
    · rw [Nat.mul_zero, List.drop_zero, List.take_left' h.1]
    · have hshift : ∀ i, ((r ++ records.flatten).drop (width * (i + 1))).take width =
          (records.flatten.drop (width * i)).take width := by
        intro i
        have hoff : width * (i + 1) = r.length + width * i := by rw [h.1]; ring
        rw [hoff, List.drop_length_add_append]
      refine Eq.trans (List.map_congr_left fun i _ => hshift i) (ih h.2)

end Bytes
