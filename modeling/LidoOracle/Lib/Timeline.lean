import Mathlib

/-! A value that changes at points of an interval of time. Every change is given
with the value after it; the segments are the stretches of the interval between
two changes, each with the value in force and its length. -/

namespace Timeline

variable {σ ε : Type} (time : ε → ℤ)

def segments (value : σ) (start : ℤ) : List (ε × σ) → ℤ → List (σ × ℤ)
  | [], stop => [(value, stop - start)]
  | change :: changes, stop => (value, time change.1 - start) :: segments change.2 (time change.1) changes stop

/-- The value after all changes -/
def last (value : σ) (changes : List (ε × σ)) : σ := changes.foldl (fun _ change => change.2) value

/-- The changes come in order, within the interval. -/
structure Within (start : ℤ) (changes : List (ε × σ)) (stop : ℤ) : Prop where
  ordered : changes.Pairwise fun a b => time a.1 ≤ time b.1
  start_le : ∀ change ∈ changes, start ≤ time change.1
  le_stop : ∀ change ∈ changes, time change.1 ≤ stop
  nonempty : start ≤ stop

variable {time} {value : σ} {start stop : ℤ} {changes before after : List (ε × σ)} {change : ε × σ}

/-- The last change closes the segment before it. -/
theorem segments_concat : segments time value start (changes ++ [change]) stop =
    segments time value start changes (time change.1) ++ [(change.2, stop - time change.1)] := by
  induction changes generalizing value start with
  | nil => rfl
  | cons c changes ih => rw [List.cons_append, segments, segments, ih, List.cons_append]

theorem last_concat : last value (changes ++ [change]) = change.2 := by
  rw [last, List.foldl_append]
  rfl

theorem last_append_cons : last value (before ++ change :: after) = last change.2 after := by
  rw [last, List.foldl_append]
  rfl

theorem Within.concat (h : Within time start (changes ++ [change]) stop) :
    Within time start changes (time change.1) ∧ time change.1 ≤ stop := by
  have hlast : change ∈ changes ++ [change] := List.mem_append_right _ List.mem_cons_self
  obtain ⟨hordered, -, hbefore⟩ := List.pairwise_append.mp h.ordered
  exact ⟨⟨hordered, fun c hc => h.start_le c (List.mem_append_left _ hc),
    fun c hc => hbefore c hc change List.mem_cons_self, h.start_le change hlast⟩, h.le_stop change hlast⟩

/-- What follows a change stays within the rest of the interval. -/
theorem Within.rest (h : Within time start (before ++ change :: after) stop) :
    Within time (time change.1) after stop := by
  have hmem : ∀ c ∈ after, c ∈ before ++ change :: after := fun c hc =>
    List.mem_append_right _ (List.mem_cons_of_mem _ hc)
  obtain ⟨-, hordered, -⟩ := List.pairwise_append.mp h.ordered
  rw [List.pairwise_cons] at hordered
  exact ⟨hordered.2, hordered.1, fun c hc => h.le_stop c (hmem c hc),
    h.le_stop change (List.mem_append_right _ List.mem_cons_self)⟩

theorem Within.congr {time' : ε → ℤ} (hcongr : ∀ change ∈ changes, time change.1 = time' change.1)
    (h : Within time start changes stop) : Within time' start changes stop where
  ordered := h.ordered.imp_of_mem fun hc hc' hle => hcongr _ hc ▸ hcongr _ hc' ▸ hle
  start_le := fun change hchange => hcongr change hchange ▸ h.start_le change hchange
  le_stop := fun change hchange => hcongr change hchange ▸ h.le_stop change hchange
  nonempty := h.nonempty

theorem last_eq (value : σ) (changes : List (ε × σ)) :
    last value changes = value ∨ ∃ change ∈ changes, last value changes = change.2 := by
  induction changes using List.reverseRecOn with
  | nil => exact Or.inl rfl
  | append_singleton changes change _ =>
    exact Or.inr ⟨change, List.mem_append_right _ List.mem_cons_self, last_concat⟩

/-! The changes up to a place, and those of a window -/

section Window

variable (place : ε → ℕ)

def upTo (changes : List (ε × σ)) (a : ℕ) : List (ε × σ) := changes.filter fun change => place change.1 ≤ a

def window (changes : List (ε × σ)) (a b : ℕ) : List (ε × σ) :=
  changes.filter fun change => a < place change.1 ∧ place change.1 ≤ b

/-- The value in force at a place -/
def valueAt (value : σ) (changes : List (ε × σ)) (a : ℕ) : σ := last value (upTo place changes a)

variable {place} {a b : ℕ}

end Window

end Timeline
