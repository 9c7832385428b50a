import LidoOracle.Lib.Dict
import LidoOracle.Lib.ExceptRun
import LidoOracle.Lib.Sorted

/-! The built-in operations of Python that can raise, over a type of the
exceptions a program raises itself. Numbers are exact: true division is
division of rationals. -/

/-- A built-in exception, or one of the program's own. -/
inductive PyError (χ : Type) where
  | keyError
  | indexError
  | zeroDivisionError
  | overflowError
  | valueError
  | raised (exc : χ)
  deriving DecidableEq, Repr

abbrev Py (χ : Type) (α : Type) := Except (PyError χ) α

/-- A built-in exception stays what it is, whatever the program raises itself. -/
def PyError.map {χ χ' : Type} (f : χ → χ') : PyError χ → PyError χ'
  | .keyError => .keyError
  | .indexError => .indexError
  | .zeroDivisionError => .zeroDivisionError
  | .overflowError => .overflowError
  | .valueError => .valueError
  | .raised exc => .raised (f exc)

namespace Py

variable {χ : Type} {κ : Type} {ν : Type} [DecidableEq κ]

/-- A call into code with exceptions of its own -/
def lift {χ' α : Type} (f : χ → χ') : Py χ α → Py χ' α
  | .ok a => .ok a
  | .error e => .error (e.map f)

/-- `d[k]` -/
def getItem (d : Dict κ ν) (k : κ) : Py χ ν :=
  match d.get? k with
  | some v => .ok v
  | none => .error .keyError

/-- `d[k] = f(d[k])`, or the in-place update of the object stored at `k` -/
def updateItem (d : Dict κ ν) (k : κ) (f : ν → ν) : Py χ (Dict κ ν) :=
  if k ∈ d then .ok (d.modify k f) else .error .keyError

/-- `l[i]` for an index that is not negative -/
def listItem (l : List ν) (i : ℕ) : Py χ ν :=
  match l[i]? with
  | some v => .ok v
  | none => .error .indexError

/-- `l.index(v)` -/
def index (l : List κ) (v : κ) : Py χ ℕ :=
  if v ∈ l then .ok (l.idxOf v) else .error .valueError

/-- `min(l)` -/
def minOf (l : List ℤ) : Py χ ℤ :=
  match l.min? with
  | some v => .ok v
  | none => .error .valueError

/-- A number that is there and counts as true -/
def truthy (n : Option ℤ) : Option ℤ := n.filter fun n => n ≠ 0

/-- `a / b` -/
def trueDiv (a b : ℚ) : Py χ ℚ :=
  if b = 0 then .error .zeroDivisionError else .ok (a / b)

/-- `a // b` on integers -/
def floorDiv (a b : ℤ) : Py χ ℤ :=
  if b = 0 then .error .zeroDivisionError else .ok (a.fdiv b)

/-- `int(q)` drops the fractional part -/
def int (q : ℚ) : ℤ := if 0 ≤ q then ⌊q⌋ else ⌈q⌉

/-- `sorted(l, key=key)` when computing a key can raise -/
def sortedByM {α : Type} {ι : Type} [LinearOrder ι] (key : α → Py χ ι) (l : List α) :
    Py χ (List α) := do
  let keyed ← l.mapM fun a => do
    let k ← key a
    return (k, a)
  return (Sorted.sortedBy Prod.fst keyed).map Prod.snd

/-- `filter(p, l)` when the predicate can raise -/
def filterM {α : Type} (p : α → Py χ Bool) : List α → Py χ (List α)
  | [] => return []
  | a :: l => do
    let keep ← p a
    let rest ← filterM p l
    return if keep then a :: rest else rest

@[simp] theorem lift_eq_ok {χ' α : Type} {f : χ → χ'} {x : Py χ α} {a : α} :
    lift f x = .ok a ↔ x = .ok a := by
  cases x <;> simp [lift]

theorem lift_eq_error {χ' α : Type} {f : χ → χ'} {x : Py χ α} {e : PyError χ'} :
    lift f x = .error e ↔ ∃ e', x = .error e' ∧ e'.map f = e := by
  cases x <;> simp [lift]

@[simp] theorem getItem_eq_ok {d : Dict κ ν} {k : κ} {v : ν} :
    (getItem d k : Py χ ν) = .ok v ↔ d.get? k = some v := by
  unfold getItem
  cases d.get? k <;> simp

@[simp] theorem getItem_eq_error {d : Dict κ ν} {k : κ} {e : PyError χ} :
    (getItem d k : Py χ ν) = .error e ↔ k ∉ d ∧ e = .keyError := by
  unfold getItem
  rw [← Dict.get?_eq_none_iff]
  cases d.get? k <;> simp [eq_comm]

@[simp] theorem updateItem_eq_ok {d d' : Dict κ ν} {k : κ} {f : ν → ν} :
    (updateItem d k f : Py χ (Dict κ ν)) = .ok d' ↔ k ∈ d ∧ d' = d.modify k f := by
  unfold updateItem
  split_ifs with h <;> simp [h, eq_comm]

@[simp] theorem updateItem_eq_error {d : Dict κ ν} {k : κ} {f : ν → ν} {e : PyError χ} :
    (updateItem d k f : Py χ (Dict κ ν)) = .error e ↔ k ∉ d ∧ e = .keyError := by
  unfold updateItem
  split_ifs with h <;> simp [h, eq_comm]

@[simp] theorem listItem_eq_ok {l : List ν} {i : ℕ} {v : ν} :
    (listItem l i : Py χ ν) = .ok v ↔ l[i]? = some v := by
  unfold listItem
  cases l[i]? <;> simp

@[simp] theorem listItem_eq_error {l : List ν} {i : ℕ} {e : PyError χ} :
    (listItem l i : Py χ ν) = .error e ↔ l.length ≤ i ∧ e = .indexError := by
  unfold listItem
  rw [← List.getElem?_eq_none_iff]
  cases l[i]? <;> simp [eq_comm]

theorem minOf_eq {l : List ℤ} {m : ℤ} (h : IsLeast {v | v ∈ l} m) : (minOf l : Py χ ℤ) = .ok m := by
  unfold minOf
  rw [List.min?_eq_some_iff.mpr ⟨h.1, fun v hv => h.2 hv⟩]

@[simp] theorem trueDiv_eq_ok {a b q : ℚ} :
    (trueDiv a b : Py χ ℚ) = .ok q ↔ b ≠ 0 ∧ q = a / b := by
  unfold trueDiv
  split_ifs with h <;> simp [h, eq_comm]

@[simp] theorem trueDiv_eq_error {a b : ℚ} {e : PyError χ} :
    (trueDiv a b : Py χ ℚ) = .error e ↔ b = 0 ∧ e = .zeroDivisionError := by
  unfold trueDiv
  split_ifs with h <;> simp [h, eq_comm]

@[simp] theorem floorDiv_eq_ok {a b q : ℤ} :
    (floorDiv a b : Py χ ℤ) = .ok q ↔ b ≠ 0 ∧ q = a.fdiv b := by
  unfold floorDiv
  split_ifs with h <;> simp [h, eq_comm]

@[simp] theorem floorDiv_eq_error {a b : ℤ} {e : PyError χ} :
    (floorDiv a b : Py χ ℤ) = .error e ↔ b = 0 ∧ e = .zeroDivisionError := by
  unfold floorDiv
  split_ifs with h <;> simp [h, eq_comm]

theorem filterM_of_ok {α : Type} {p : α → Py χ Bool} {b : α → Bool} {l : List α}
    (h : ∀ a ∈ l, p a = .ok (b a)) : filterM p l = .ok (l.filter b) := by
  induction l with
  | nil => rfl
  | cons a l ih =>
    rw [List.forall_mem_cons] at h
    rw [filterM, h.1, Except.ok_bind, ih h.2, Except.ok_bind, List.filter_cons]
    rfl

/-- A keyed sort that returns gives back its input, reordered, and computed every key. -/
theorem sortedByM_ok {α : Type} {ι : Type} [LinearOrder ι] {key : α → Py χ ι}
    {l r : List α} (h : sortedByM key l = .ok r) :
    r.Perm l ∧ ∀ a ∈ l, ∃ k, key a = .ok k := by
  obtain ⟨keyed, hk, hr⟩ := Except.bind_eq_ok.mp h
  rw [Except.pure_eq_ok] at hr
  have hf := ExceptRun.mapM_ok_iff.mp hk
  have hsnd : keyed.map Prod.snd = l ∧ ∀ a ∈ l, ∃ k, key a = .ok k := by
    clear hk hr h
    induction hf with
    | nil => exact ⟨rfl, by simp⟩
    | cons hp _ ih =>
      obtain ⟨k, hk, hp⟩ := Except.bind_eq_ok.mp hp
      rw [Except.pure_eq_ok] at hp
      subst hp
      exact ⟨by rw [List.map_cons, ih.1], List.forall_mem_cons.mpr ⟨⟨k, hk⟩, ih.2⟩⟩
  refine ⟨?_, hsnd.2⟩
  rw [← hr, ← hsnd.1]
  exact Sorted.perm_sortedBy.map _

/-- A keyed sort whose keys can all be computed is the plain one. -/
theorem sortedByM_of_ok {α : Type} {ι : Type} [LinearOrder ι] {key : α → Py χ ι} {k : α → ι} {l : List α}
    (h : ∀ a ∈ l, key a = .ok (k a)) : sortedByM key l = .ok (Sorted.sortedBy k l) := by
  have hkeyed : (l.mapM fun a => do
      let k ← key a
      return (k, a) : Py χ (List (ι × α))) = .ok (l.map fun a => (k a, a)) :=
    ExceptRun.mapM_of_ok fun a ha => by rw [h a ha]; rfl
  have hsorted : (Sorted.sortedBy Prod.fst (l.map fun a => (k a, a))).map Prod.snd = Sorted.sortedBy k l := by
    have hmap := List.map_insertionSort (fun p q : ι × α => p.1 ≤ q.1) (fun a b => k a ≤ k b) Prod.snd
      (l.map fun a => (k a, a)) (by simp)
    rw [List.map_map] at hmap
    exact hmap.trans (congrArg _ (List.map_id' l))
  rw [sortedByM, hkeyed, Except.ok_bind, hsorted]
  rfl

/-- A keyed sort fails only where computing some key fails. -/
theorem sortedByM_error {α : Type} {ι : Type} [LinearOrder ι] {key : α → Py χ ι}
    {l : List α} {e : PyError χ} (h : sortedByM key l = .error e) : ∃ a ∈ l, key a = .error e := by
  rcases Except.bind_eq_error.mp h with h | ⟨keyed, -, h⟩
  · obtain ⟨a, ha, h⟩ := ExceptRun.mapM_error h
    rcases Except.bind_eq_error.mp h with h | ⟨k, -, h⟩
    · exact ⟨a, ha, h⟩
    · cases h
  · cases h

/-! Which operations cannot raise a division by zero -/

section ZeroDivision

open ExceptRun

theorem lift_avoids {χ' α : Type} {f : χ → χ'} {exc : χ'} (h : ∀ e, f e ≠ exc) (x : Py χ α) :
    Avoids (.raised exc) (lift f x) := by
  intro herror
  obtain ⟨e, -, he⟩ := lift_eq_error.mp herror
  cases e with
  | raised e => exact h e (PyError.raised.inj he)
  | _ => cases he

theorem getItem_avoids (d : Dict κ ν) (k : κ) :
    Avoids .zeroDivisionError (getItem d k : Py χ ν) := by
  intro h
  cases (getItem_eq_error.mp h).2

theorem updateItem_avoids (d : Dict κ ν) (k : κ) (f : ν → ν) :
    Avoids .zeroDivisionError (updateItem d k f : Py χ (Dict κ ν)) := by
  intro h
  cases (updateItem_eq_error.mp h).2

theorem listItem_avoids (l : List ν) (i : ℕ) :
    Avoids .zeroDivisionError (listItem l i : Py χ ν) := by
  intro h
  cases (listItem_eq_error.mp h).2

theorem filterM_avoids {α : Type} {error : PyError χ} {p : α → Py χ Bool} (h : ∀ a, Avoids error (p a))
    (l : List α) : Avoids error (filterM p l) := by
  induction l with
  | nil => exact avoids_ok _
  | cons a l ih => exact (h a).bind fun keep _ => ih.bind fun rest _ => avoids_ok _

end ZeroDivision

end Py
