import LidoOracle.Lib.Bytes

/-! Integers as decimal text, the way `str` writes and `int` reads them. -/

namespace Py

variable {χ : Type}

/-- `str(n)` -/
def strOfInt (n : ℤ) : String :=
  match n with
  | .ofNat m => String.ofList (Nat.toDigits 10 m)
  | .negSucc m => String.ofList ('-' :: Nat.toDigits 10 (m + 1))

/-- Digits, with single underscores between them -/
def readDigits (acc : ℕ) : List Char → Option ℕ
  | [] => some acc
  | '_' :: c :: rest => if c.isDigit then readDigits (10 * acc + (c.toNat - '0'.toNat)) rest else none
  | c :: rest => if c.isDigit then readDigits (10 * acc + (c.toNat - '0'.toNat)) rest else none

def readNat : List Char → Option ℕ
  | c :: rest => if c.isDigit then readDigits (c.toNat - '0'.toNat) rest else none
  | [] => none

def strip (text : List Char) : List Char := (text.dropWhile isSpace).rdropWhile isSpace

def readInt (text : List Char) : Option ℤ :=
  match strip text with
  | '-' :: digits => (readNat digits).map fun n : ℕ => -(n : ℤ)
  | '+' :: digits => (readNat digits).map fun n : ℕ => (n : ℤ)
  | digits => (readNat digits).map fun n : ℕ => (n : ℤ)

/-- `int(text)`, of ASCII text -/
def intOfStr (text : String) : Py χ ℤ :=
  match readInt text.toList with
  | some n => .ok n
  | none => .error .valueError

theorem readDigits_eq {digits : List Char} (h : ∀ c ∈ digits, c.isDigit) (acc : ℕ) :
    readDigits acc digits = some (Nat.ofDigitChars 10 digits acc) := by
  induction digits generalizing acc with
  | nil => simp [readDigits]
  | cons c digits ih =>
    have hc : c.isDigit := h c List.mem_cons_self
    have hne : c ≠ '_' := by
      rintro rfl
      cases hc
    rw [readDigits.eq_3 _ _ _ (fun _ _ hc _ => hne hc), if_pos hc, ih fun c' hc' => h c' (List.mem_cons_of_mem _ hc'),
      Nat.ofDigitChars_cons]

theorem readNat_toDigits (n : ℕ) : readNat (Nat.toDigits 10 n) = some n := by
  have hdigits : ∀ c ∈ Nat.toDigits 10 n, c.isDigit := fun c hc =>
    Nat.isDigit_of_mem_toDigits (by decide) (by decide) hc
  have hvalue : Nat.ofDigitChars 10 (Nat.toDigits 10 n) 0 = n := Nat.ofDigitChars_ten_toDigits
  cases htext : Nat.toDigits 10 n with
  | nil => exact absurd htext Nat.toDigits_ne_nil
  | cons c rest =>
    rw [htext] at hdigits hvalue
    rw [readNat, if_pos (hdigits c List.mem_cons_self),
      readDigits_eq fun c' hc' => hdigits c' (List.mem_cons_of_mem _ hc')]
    rw [Nat.ofDigitChars_cons] at hvalue
    exact congrArg some (by simpa using hvalue)

theorem isSpace_of_isDigit {c : Char} (h : c.isDigit) : isSpace c = false := by
  have hrange : 48 ≤ c.toNat := by
    have hdigit := (Char.isDigit_iff_toNat.mp h).1
    exact hdigit
  unfold isSpace
  simp only [Bool.or_eq_false_iff, decide_eq_false_iff_not, Bool.and_eq_false_iff]
  omega

/-- Text without blanks is not stripped. -/
theorem strip_eq_self {text : List Char} (h : ∀ c ∈ text, isSpace c = false) : strip text = text := by
  have hleft : text.dropWhile isSpace = text := List.dropWhile_eq_self_iff.mpr fun hlen => by
    rw [h _ (List.getElem_mem hlen)]
    exact Bool.false_ne_true
  rw [strip, hleft]
  exact List.rdropWhile_eq_self_iff.mpr fun hne => by
    rw [h _ (List.getLast_mem hne)]
    exact Bool.false_ne_true

theorem readInt_toDigits (n : ℕ) : readInt (Nat.toDigits 10 n) = some (n : ℤ) := by
  have hdigits : ∀ c ∈ Nat.toDigits 10 n, c.isDigit := fun c hc =>
    Nat.isDigit_of_mem_toDigits (by decide) (by decide) hc
  have hread := readNat_toDigits n
  unfold readInt
  rw [strip_eq_self fun c hc => isSpace_of_isDigit (hdigits c hc)]
  split
  · rename_i htext
    rw [htext] at hdigits
    cases hdigits '-' List.mem_cons_self
  · rename_i htext
    rw [htext] at hdigits
    cases hdigits '+' List.mem_cons_self
  · rw [hread]
    rfl

theorem readInt_neg_toDigits (n : ℕ) : readInt ('-' :: Nat.toDigits 10 n) = some (-(n : ℤ)) := by
  have hdigits : ∀ c ∈ Nat.toDigits 10 n, c.isDigit := fun c hc =>
    Nat.isDigit_of_mem_toDigits (by decide) (by decide) hc
  have hspace : ∀ c ∈ '-' :: Nat.toDigits 10 n, isSpace c = false := by
    refine List.forall_mem_cons.mpr ⟨by decide, fun c hc => isSpace_of_isDigit (hdigits c hc)⟩
  unfold readInt
  rw [strip_eq_self hspace]
  simp only [readNat_toDigits, Option.map_some]

/-- What is written reads back. -/
theorem intOfStr_strOfInt (n : ℤ) : (intOfStr (strOfInt n) : Py χ ℤ) = .ok n := by
  unfold intOfStr strOfInt
  cases n with
  | ofNat m =>
    simp only [String.toList_ofList, readInt_toDigits]
    rfl
  | negSucc m =>
    simp only [String.toList_ofList, readInt_neg_toDigits]
    rfl

end Py
