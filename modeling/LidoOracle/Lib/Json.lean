import Mathlib

/-! JSON documents, and the text that stands for them. -/

inductive Json where
  | null
  | bool (b : Bool)
  | int (n : ℤ)
  | str (s : String)
  | list (items : List Json)
  | dict (entries : List (String × Json))

namespace Json

/-! Equality of documents is decided along their structure. -/

mutual

def beq : Json → Json → Bool
  | .null, .null => true
  | .bool b, .bool b' => b == b'
  | .int n, .int n' => n == n'
  | .str s, .str s' => s == s'
  | .list items, .list items' => beqItems items items'
  | .dict entries, .dict entries' => beqEntries entries entries'
  | _, _ => false

def beqItems : List Json → List Json → Bool
  | [], [] => true
  | j :: items, j' :: items' => beq j j' && beqItems items items'
  | _, _ => false

def beqEntries : List (String × Json) → List (String × Json) → Bool
  | [], [] => true
  | (key, j) :: entries, (key', j') :: entries' => key == key' && beq j j' && beqEntries entries entries'
  | _, _ => false

end

mutual

theorem beq_iff (j j' : Json) : beq j j' = true ↔ j = j' := by
  cases j with
  | list items => cases j' <;> simp [beq, beqItems_iff items]
  | dict entries => cases j' <;> simp [beq, beqEntries_iff entries]
  | _ => cases j' <;> simp [beq]

theorem beqItems_iff (items items' : List Json) : beqItems items items' = true ↔ items = items' := by
  cases items with
  | nil => cases items' <;> simp [beqItems]
  | cons j items => cases items' <;> simp [beqItems, beq_iff j, beqItems_iff items]

theorem beqEntries_iff (entries entries' : List (String × Json)) :
    beqEntries entries entries' = true ↔ entries = entries' := by
  cases entries with
  | nil => cases entries' <;> simp [beqEntries]
  | cons e entries =>
    obtain ⟨key, j⟩ := e
    cases entries' with
    | nil => simp [beqEntries]
    | cons e' entries' => simp [beqEntries, Prod.ext_iff, beq_iff j, beqEntries_iff entries]

end

instance : DecidableEq Json := fun j j' => decidable_of_iff (beq j j' = true) (beq_iff j j')

/-- No dictionary in the document has a key twice. -/
inductive WellFormed : Json → Prop where
  | null : WellFormed .null
  | bool (b : Bool) : WellFormed (.bool b)
  | int (n : ℤ) : WellFormed (.int n)
  | str (s : String) : WellFormed (.str s)
  | list {items : List Json} (hitems : ∀ j ∈ items, WellFormed j) : WellFormed (.list items)
  | dict {entries : List (String × Json)} (hkeys : (entries.map Prod.fst).Nodup)
      (hvalues : ∀ e ∈ entries, WellFormed e.2) : WellFormed (.dict entries)

theorem wellFormed_map {α : Type} {f : α → Json} (h : ∀ a, WellFormed (f a)) (items : List α) :
    WellFormed (.list (items.map f)) := by
  refine .list fun j hj => ?_
  obtain ⟨a, -, rfl⟩ := List.mem_map.mp hj
  exact h a

/-- Writing and reading text, where either may fail -/
structure Text where
  dumps : Json → Option (List UInt8)
  loads : List UInt8 → Option Json

/-- Text that was written for a document reads back as that document. -/
def Text.RoundTrip (text : Text) : Prop :=
  ∀ j raw, WellFormed j → text.dumps j = some raw → text.loads raw = some j

/-! Every document has a text. -/

def codeStr (s : String) : ℕ := Encodable.encode (s.toList.map Char.toNat)

theorem codeStr_inj (s s' : String) : codeStr s = codeStr s' ↔ s = s' := by
  refine ⟨fun h => String.toList_injective ?_, fun h => h ▸ rfl⟩
  exact List.map_injective_iff.mpr (fun _ _ => Char.toNat_inj.mp) (Encodable.encode_injective h)

mutual

def code : Json → ℕ
  | .null => Nat.pair 0 0
  | .bool b => Nat.pair 1 (Encodable.encode b)
  | .int n => Nat.pair 2 (Encodable.encode n)
  | .str s => Nat.pair 3 (codeStr s)
  | .list items => Nat.pair 4 (codeItems items)
  | .dict entries => Nat.pair 5 (codeEntries entries)

def codeItems : List Json → ℕ
  | [] => 0
  | j :: items => Nat.pair (code j) (codeItems items) + 1

def codeEntries : List (String × Json) → ℕ
  | [] => 0
  | (key, j) :: entries => Nat.pair (codeStr key) (Nat.pair (code j) (codeEntries entries)) + 1

end

mutual

theorem code_inj (j j' : Json) : code j = code j' ↔ j = j' := by
  cases j with
  | list items => cases j' <;> simp [code, Nat.pair_eq_pair, codeItems_inj items]
  | dict entries => cases j' <;> simp [code, Nat.pair_eq_pair, codeEntries_inj entries]
  | _ => cases j' <;> simp [code, Nat.pair_eq_pair, codeStr_inj]

theorem codeItems_inj (items items' : List Json) : codeItems items = codeItems items' ↔ items = items' := by
  cases items with
  | nil => cases items' <;> simp [codeItems]
  | cons j items => cases items' <;> simp [codeItems, Nat.pair_eq_pair, code_inj j, codeItems_inj items]

theorem codeEntries_inj (entries entries' : List (String × Json)) :
    codeEntries entries = codeEntries entries' ↔ entries = entries' := by
  cases entries with
  | nil => cases entries' <;> simp [codeEntries]
  | cons e entries =>
    obtain ⟨key, j⟩ := e
    cases entries' with
    | nil => simp [codeEntries]
    | cons e' entries' =>
      simp [codeEntries, Nat.pair_eq_pair, Prod.ext_iff, codeStr_inj, code_inj j, codeEntries_inj entries, and_assoc]

end

end Json
