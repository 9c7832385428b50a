import Mathlib

/-! Big-endian byte strings of fixed width: encoding, decoding, the round trip
between them, and the order they preserve. -/

namespace BigEndian

/-- The unsigned number a byte string denotes, most significant byte first. -/
def fromBytes (bytes : List UInt8) : ℕ := bytes.foldl (fun acc b => acc * 256 + b.toNat) 0

/-- The last `len` base-256 digits of `n`. -/
def digits : ℕ → ℕ → List UInt8
  | 0, _ => []
  | len + 1, n => digits len (n / 256) ++ [UInt8.ofNat (n % 256)]

/-- Fixed-width encoding; a number that does not fit has none. -/
def toBytes (len n : ℕ) : Option (List UInt8) := if n < 256 ^ len then some (digits len n) else none

@[simp] theorem digits_length (len n : ℕ) : (digits len n).length = len := by
  induction len generalizing n with
  | zero => rfl
  | succ len ih => rw [digits, List.length_append, ih]; rfl

theorem fromBytes_append (xs ys : List UInt8) :
    fromBytes (xs ++ ys) = fromBytes xs * 256 ^ ys.length + fromBytes ys := by
  have hacc : ∀ (zs : List UInt8) (acc : ℕ),
      zs.foldl (fun acc b => acc * 256 + b.toNat) acc =
        acc * 256 ^ zs.length + fromBytes zs := by
    intro zs
    induction zs with
    | nil => intro acc; simp [fromBytes]
    | cons z zs ih =>
      intro acc
      rw [fromBytes, List.foldl_cons, List.foldl_cons, ih, ih (0 * 256 + z.toNat), List.length_cons,
        pow_succ]
      ring
  rw [fromBytes, List.foldl_append, hacc]
  rfl

theorem fromBytes_singleton (b : UInt8) : fromBytes [b] = b.toNat := by simp [fromBytes]

theorem fromBytes_digits (len n : ℕ) : fromBytes (digits len n) = n % 256 ^ len := by
  induction len generalizing n with
  | zero => simp [digits, fromBytes, Nat.mod_one]
  | succ len ih =>
    rw [digits, fromBytes_append, ih, fromBytes_singleton, List.length_singleton, pow_one,
      UInt8.toNat_ofNat_of_lt' (Nat.mod_lt _ (by decide)), pow_succ', Nat.mod_mul]
    ring

theorem fromBytes_lt (bytes : List UInt8) : fromBytes bytes < 256 ^ bytes.length := by
  induction bytes using List.reverseRecOn with
  | nil => decide
  | append_singleton bs b ih =>
    rw [fromBytes_append, fromBytes_singleton, List.length_append, List.length_singleton, pow_one,
      pow_succ]
    have hb : b.toNat < 256 := b.toNat_lt
    omega

/-- Two fields that fit their widths fit together. -/
theorem append_lt {a c j k : ℕ} (ha : a < 256 ^ j) (hc : c < 256 ^ k) :
    a * 256 ^ k + c < 256 ^ (j + k) := by
  rw [pow_add]
  generalize 256 ^ j = m at ha
  generalize 256 ^ k = n at hc
  have : (a + 1) * n ≤ m * n := Nat.mul_le_mul_right n ha
  rw [add_mul, one_mul] at this
  omega

/-- Concatenating fixed-width fields orders like the pair of their values. -/
theorem append_lt_append_iff {a b c d k : ℕ} (hc : c < 256 ^ k) (hd : d < 256 ^ k) :
    a * 256 ^ k + c < b * 256 ^ k + d ↔ a < b ∨ a = b ∧ c < d := by
  generalize 256 ^ k = m at hc hd
  rcases lt_trichotomy a b with hab | rfl | hab
  · have : (a + 1) * m ≤ b * m := Nat.mul_le_mul_right m hab
    rw [add_mul, one_mul] at this
    simp only [hab, true_or, iff_true]
    omega
  · simp
  · have : (b + 1) * m ≤ a * m := Nat.mul_le_mul_right m hab
    rw [add_mul, one_mul] at this
    simp only [hab.not_gt, hab.ne', false_and, or_self, iff_false]
    omega

end BigEndian
