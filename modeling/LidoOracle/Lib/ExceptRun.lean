import Mathlib

/-! Reasoning about loops in an error monad: inversion of sequencing, and the
invariant rules of a fold whose step can fail. -/

universe u v w

namespace Except

variable {ε : Type u} {α : Type v} {β : Type v}

theorem bind_eq_ok {x : Except ε α} {f : α → Except ε β} {b : β} :
    x >>= f = .ok b ↔ ∃ a, x = .ok a ∧ f a = .ok b := by
  cases x <;> simp [Bind.bind, Except.bind]

theorem bind_eq_error {x : Except ε α} {f : α → Except ε β} {e : ε} :
    x >>= f = .error e ↔ x = .error e ∨ ∃ a, x = .ok a ∧ f a = .error e := by
  cases x <;> simp [Bind.bind, Except.bind]

theorem toOption_eq_some {x : Except ε α} {a : α} : x.toOption = some a ↔ x = .ok a := by
  cases x <;> simp [Except.toOption]

theorem pure_eq_ok {a b : α} : (pure a : Except ε α) = .ok b ↔ a = b := by
  simp [pure, Except.pure]

@[simp] theorem ok_bind (a : α) (f : α → Except ε β) : (Except.ok a : Except ε α) >>= f = f a := rfl

@[simp] theorem error_bind (e : ε) (f : α → Except ε β) :
    (Except.error e : Except ε α) >>= f = .error e := rfl

/-- `if p: raise e` before the rest of a block -/
theorem guard_eq_ok {p : Prop} [Decidable p] {e : ε} {f : α → Except ε β} {x : Except ε β} {b : β} :
    (if p then (throw e : Except ε α) >>= f else x) = .ok b ↔ ¬p ∧ x = .ok b := by
  split_ifs with h <;> simp [h, throw, throwThe, MonadExceptOf.throw, Bind.bind, Except.bind]

theorem guard_eq_error {p : Prop} [Decidable p] {e e' : ε} {f : α → Except ε β}
    {x : Except ε β} :
    (if p then (throw e : Except ε α) >>= f else x) = .error e' ↔
      (p ∧ e' = e) ∨ (¬p ∧ x = .error e') := by
  split_ifs with h <;> simp [h, throw, throwThe, MonadExceptOf.throw, Bind.bind, Except.bind, eq_comm]

end Except

namespace ExceptRun

variable {ε : Type u} {σ : Type v} {α : Type w} {step : σ → α → Except ε σ}

theorem foldlM_cons_ok {x : α} {xs : List α} {s s' : σ} :
    (x :: xs).foldlM step s = .ok s' ↔ ∃ t, step s x = .ok t ∧ xs.foldlM step t = .ok s' := by
  rw [List.foldlM_cons, Except.bind_eq_ok]

theorem foldlM_append_ok {xs ys : List α} {s s' : σ} :
    (xs ++ ys).foldlM step s = .ok s' ↔
      ∃ t, xs.foldlM step s = .ok t ∧ ys.foldlM step t = .ok s' := by
  rw [List.foldlM_append, Except.bind_eq_ok]

/-- The loop rule: a predicate on the elements consumed and the state reached. -/
theorem foldlM_invariant (Inv : List α → σ → Prop)
    (hstep : ∀ pre x s s', Inv pre s → step s x = .ok s' → Inv (pre ++ [x]) s')
    {xs : List α} {s s' : σ} (h0 : Inv [] s) (h : xs.foldlM step s = .ok s') : Inv xs s' := by
  suffices hgen : ∀ (pre : List α) (t : σ), Inv pre t → xs.foldlM step t = .ok s' →
      Inv (pre ++ xs) s' from hgen [] s h0 h
  clear h0 h
  induction xs with
  | nil =>
    intro pre t ht h
    cases h
    simpa using ht
  | cons x xs ih =>
    intro pre t ht h
    obtain ⟨u, hu, h⟩ := foldlM_cons_ok.mp h
    simpa using ih (pre ++ [x]) u (hstep pre x t u ht hu) h

/-- A predicate on states that every successful step keeps. -/
theorem foldlM_preserves (P : σ → Prop)
    (hstep : ∀ s x s', P s → step s x = .ok s' → P s')
    {xs : List α} {s s' : σ} (h0 : P s) (h : xs.foldlM step s = .ok s') : P s' :=
  foldlM_invariant (fun _ => P) (fun _ x s s' => hstep s x s') h0 h

/-- A loop whose step succeeds under a fixed condition is a plain fold. -/
theorem foldlM_ok_iff {C : α → Prop} {f : σ → α → σ} (P : σ → Prop)
    (hstep : ∀ s x s', P s → (step s x = .ok s' ↔ C x ∧ s' = f s x))
    (hP : ∀ s x, P s → P (f s x)) {xs : List α} {s s' : σ} (h0 : P s) :
    xs.foldlM step s = .ok s' ↔ (∀ x ∈ xs, C x) ∧ s' = xs.foldl f s := by
  induction xs generalizing s with
  | nil =>
    rw [List.foldlM_nil, Except.pure_eq_ok]
    simp [eq_comm]
  | cons x xs ih =>
    rw [foldlM_cons_ok, List.forall_mem_cons, List.foldl_cons]
    constructor
    · rintro ⟨t, ht, h⟩
      obtain ⟨hx, rfl⟩ := (hstep s x t h0).mp ht
      obtain ⟨hxs, rfl⟩ := (ih (hP s x h0)).mp h
      exact ⟨⟨hx, hxs⟩, rfl⟩
    · rintro ⟨⟨hx, hxs⟩, rfl⟩
      exact ⟨f s x, (hstep s x _ h0).mpr ⟨hx, rfl⟩, (ih (hP s x h0)).mpr ⟨hxs, rfl⟩⟩

/-- A loop that never fails computes, on the states that `abs` represents, a plain fold. -/
theorem foldlM_of_ok {τ : Type*} {abs : τ → σ} {f : τ → α → τ} {xs : List α}
    (h : ∀ x ∈ xs, ∀ t, step (abs t) x = .ok (abs (f t x))) (t : τ) :
    xs.foldlM step (abs t) = .ok (abs (xs.foldl f t)) := by
  induction xs generalizing t with
  | nil => rfl
  | cons x xs ih =>
    rw [List.forall_mem_cons] at h
    rw [List.foldlM_cons, h.1, Except.ok_bind, ih h.2, List.foldl_cons]

/-- A failing loop fails at one of its steps, in a state the loop reached. -/
theorem foldlM_error {xs : List α} {s : σ} {e : ε} (h : xs.foldlM step s = .error e) :
    ∃ pre x post t, xs = pre ++ x :: post ∧ pre.foldlM step s = .ok t ∧ step t x = .error e := by
  induction xs generalizing s with
  | nil => cases h
  | cons x xs ih =>
    rw [List.foldlM_cons, Except.bind_eq_error] at h
    rcases h with h | ⟨t, ht, h⟩
    · exact ⟨[], x, xs, s, rfl, rfl, h⟩
    · obtain ⟨pre, y, post, u, rfl, hpre, hy⟩ := ih h
      exact ⟨x :: pre, y, post, u, rfl, foldlM_cons_ok.mpr ⟨t, ht, hpre⟩, hy⟩

/-- A loop whose elements each change the entry of a table at their own key -/
theorem foldlM_updateBy {κ : Type*} {β : Type*} [DecidableEq κ] {key : α → κ} {v : σ → κ → β} {C : α → β → Prop}
    {g : α → β → β}
    (hstep : ∀ s a, C a (v s (key a)) →
      ∃ s', step s a = .ok s' ∧ v s' = Function.update (v s) (key a) (g a (v s (key a))))
    {xs : List α} (hnodup : (xs.map key).Nodup) {s : σ} (hC : ∀ a ∈ xs, C a (v s (key a))) :
    ∃ s', xs.foldlM step s = .ok s' ∧ (∀ a ∈ xs, v s' (key a) = g a (v s (key a))) ∧
      ∀ k ∉ xs.map key, v s' k = v s k := by
  induction xs generalizing s with
  | nil => exact ⟨s, rfl, fun _ ha => absurd ha List.not_mem_nil, fun _ _ => rfl⟩
  | cons a xs ih =>
    rw [List.map_cons, List.nodup_cons] at hnodup
    rw [List.forall_mem_cons] at hC
    obtain ⟨t, ht, hv⟩ := hstep s a hC.1
    have hother : ∀ k ≠ key a, v t k = v s k := fun k hne => by rw [hv, Function.update_of_ne hne]
    have hrest : ∀ b ∈ xs, v t (key b) = v s (key b) := fun b hb =>
      hother _ fun heq => hnodup.1 (heq ▸ List.mem_map_of_mem hb)
    obtain ⟨s', hs', hmem, hnot⟩ := ih hnodup.2 fun b hb => (hrest b hb).symm ▸ hC.2 b hb
    refine ⟨s', foldlM_cons_ok.mpr ⟨t, ht, hs'⟩, List.forall_mem_cons.mpr ⟨?_, fun b hb => ?_⟩, fun k hk => ?_⟩
    · rw [hnot _ hnodup.1, hv, Function.update_self]
    · rw [hmem b hb, hrest b hb]
    · rw [List.map_cons, List.mem_cons, not_or] at hk
      rw [hnot k hk.2, hother k hk.1]

/-- A loop that changes one entry of a table at each step, over distinct keys -/
theorem foldlM_update {κ : Type w} {β : Type w} [DecidableEq κ] {step : σ → κ → Except ε σ}
    {v : σ → κ → β} {C : κ → β → Prop} {g : κ → β → β} (P : σ → Prop)
    (hstep : ∀ s k, P s → C k (v s k) →
      ∃ s', step s k = .ok s' ∧ P s' ∧ v s' = Function.update (v s) k (g k (v s k)))
    {keys : List κ} (hnodup : keys.Nodup) {s : σ} (hP : P s) (hC : ∀ k ∈ keys, C k (v s k)) :
    ∃ s', keys.foldlM step s = .ok s' ∧ P s' ∧
      v s' = fun k => if k ∈ keys then g k (v s k) else v s k := by
  induction keys generalizing s with
  | nil => exact ⟨s, rfl, hP, by simp⟩
  | cons key keys ih =>
    rw [List.nodup_cons] at hnodup
    rw [List.forall_mem_cons] at hC
    obtain ⟨t, ht, hPt, hv⟩ := hstep s key hP hC.1
    have hrest : ∀ k ∈ keys, v t k = v s k := by
      intro k hk
      have hne : k ≠ key := fun heq => hnodup.1 (heq ▸ hk)
      rw [hv, Function.update_of_ne hne]
    obtain ⟨s', hs', hPs', hall⟩ := ih hnodup.2 hPt fun k hk => (hrest k hk).symm ▸ hC.2 k hk
    refine ⟨s', foldlM_cons_ok.mpr ⟨t, ht, hs'⟩, hPs', ?_⟩
    rw [hall]
    funext k
    by_cases hk : k ∈ keys
    · rw [if_pos hk, if_pos (List.mem_cons_of_mem _ hk), hrest k hk]
    · by_cases heq : k = key
      · rw [if_neg hk, if_pos (heq ▸ List.mem_cons_self), hv, heq, Function.update_self]
      · rw [if_neg hk, if_neg fun hmem => (List.mem_cons.mp hmem).elim heq hk, hv,
          Function.update_of_ne heq]

/-- A loop whose steps each take some members out leaves the members that no step takes. -/
theorem foldlM_removes {β : Type*} (mem : σ → β → Prop) {Q : α → β → Prop} {xs : List α}
    (h : ∀ x ∈ xs, ∀ s, ∃ s', step s x = .ok s' ∧ ∀ b, mem s' b ↔ mem s b ∧ ¬Q x b) (s : σ) :
    ∃ s', xs.foldlM step s = .ok s' ∧ ∀ b, mem s' b ↔ mem s b ∧ ∀ x ∈ xs, ¬Q x b := by
  induction xs generalizing s with
  | nil => exact ⟨s, rfl, fun b => by simp⟩
  | cons x xs ih =>
    rw [List.forall_mem_cons] at h
    obtain ⟨t, ht, hmem⟩ := h.1 s
    obtain ⟨s', hs', hrest⟩ := ih h.2 t
    refine ⟨s', foldlM_cons_ok.mpr ⟨t, ht, hs'⟩, fun b => ?_⟩
    rw [hrest, hmem, List.forall_mem_cons, and_assoc]

section MapM

variable {β : Type v} {γ : Type v} {f : β → Except ε γ}

theorem mapM_ok_iff {xs : List β} {ys : List γ} :
    xs.mapM f = .ok ys ↔ List.Forall₂ (fun x y => f x = .ok y) xs ys := by
  induction xs generalizing ys with
  | nil => cases ys <;> simp [Except.pure_eq_ok]
  | cons x xs ih =>
    rw [List.mapM_cons, Except.bind_eq_ok]
    constructor
    · rintro ⟨y, hy, h⟩
      obtain ⟨zs, hzs, h⟩ := Except.bind_eq_ok.mp h
      rw [Except.pure_eq_ok] at h
      exact h ▸ .cons hy (ih.mp hzs)
    · intro h
      cases h with
      | cons hy hzs => exact ⟨_, hy, Except.bind_eq_ok.mpr ⟨_, ih.mpr hzs, rfl⟩⟩

theorem mapM_ok_of_mem {xs : List β} {ys : List γ} (h : xs.mapM f = .ok ys) {x : β} (hx : x ∈ xs) :
    ∃ y, f x = .ok y := by
  have hall := mapM_ok_iff.mp h
  clear h
  induction hall with
  | nil => exact absurd hx List.not_mem_nil
  | cons hy _ ih =>
    rcases List.mem_cons.mp hx with rfl | hx
    · exact ⟨_, hy⟩
    · exact ih hx

theorem exists_of_mem_mapM {xs : List β} {ys : List γ} (h : xs.mapM f = .ok ys) {y : γ} (hy : y ∈ ys) :
    ∃ x ∈ xs, f x = .ok y := by
  have hall := mapM_ok_iff.mp h
  clear h
  induction hall with
  | nil => exact absurd hy List.not_mem_nil
  | cons hx _ ih =>
    rcases List.mem_cons.mp hy with rfl | hy
    · exact ⟨_, List.mem_cons_self, hx⟩
    · obtain ⟨x, hmem, hx⟩ := ih hy
      exact ⟨x, List.mem_cons_of_mem _ hmem, hx⟩

theorem mapM_of_ok {g : β → γ} {xs : List β} (h : ∀ x ∈ xs, f x = .ok (g x)) :
    xs.mapM f = .ok (xs.map g) :=
  mapM_ok_iff.mpr (List.forall₂_map_right_iff.mpr (List.forall₂_same.mpr h))

/-- A map whose step succeeds under a fixed condition is a plain map. -/
theorem mapM_eq_ok_iff {C : β → Prop} {g : β → γ} (hf : ∀ x y, f x = .ok y ↔ C x ∧ y = g x) {xs : List β}
    {ys : List γ} : xs.mapM f = .ok ys ↔ (∀ x ∈ xs, C x) ∧ ys = xs.map g := by
  constructor
  · intro h
    have hall : ∀ x ∈ xs, C x := fun x hx => by
      obtain ⟨y, hy⟩ := mapM_ok_of_mem h hx
      exact ((hf x y).mp hy).1
    rw [mapM_of_ok fun x hx => (hf x (g x)).mpr ⟨hall x hx, rfl⟩] at h
    exact ⟨hall, (Except.ok.inj h).symm⟩
  · rintro ⟨hall, rfl⟩
    exact mapM_of_ok fun x hx => (hf x (g x)).mpr ⟨hall x hx, rfl⟩

theorem mapM_error {xs : List β} {e : ε} (h : xs.mapM f = .error e) : ∃ x ∈ xs, f x = .error e := by
  induction xs with
  | nil => cases h
  | cons x xs ih =>
    rw [List.mapM_cons, Except.bind_eq_error] at h
    rcases h with h | ⟨y, -, h⟩
    · exact ⟨x, List.mem_cons_self, h⟩
    · rcases Except.bind_eq_error.mp h with h | ⟨zs, -, h⟩
      · obtain ⟨z, hz, hf⟩ := ih h
        exact ⟨z, List.mem_cons_of_mem x hz, hf⟩
      · cases h

end MapM

/-! Computations that never fail with a given error. -/

section Avoids

/-- `x` does not fail with `e`. -/
def Avoids {α : Type v} (e : ε) (x : Except ε α) : Prop := x ≠ .error e

variable {e : ε} {α : Type v} {β : Type v}

theorem avoids_ok (a : α) : Avoids e (.ok a : Except ε α) := fun h => by cases h

theorem avoids_error {e' : ε} (h : e' ≠ e) : Avoids e (.error e' : Except ε α) :=
  fun he => h (Except.error.inj he)

theorem Avoids.bind {x : Except ε α} {f : α → Except ε β} (hx : Avoids e x)
    (hf : ∀ a, x = .ok a → Avoids e (f a)) : Avoids e (x >>= f) := by
  intro h
  rcases Except.bind_eq_error.mp h with h | ⟨a, ha, h⟩
  · exact hx h
  · exact hf a ha h

/-- A guard that raises something else -/
theorem Avoids.guard {p : Prop} [Decidable p] {e' : ε} {f : α → Except ε β} {x : Except ε β} (h : e' ≠ e)
    (hx : Avoids e x) : Avoids e (if p then (throw e' : Except ε α) >>= f else x) := by
  intro herror
  rcases Except.guard_eq_error.mp herror with ⟨-, heq⟩ | ⟨-, heq⟩
  · exact h heq.symm
  · exact hx heq

theorem avoids_foldlM {γ : Type w} {step : α → γ → Except ε α} (hstep : ∀ s x, Avoids e (step s x))
    (xs : List γ) (s : α) : Avoids e (xs.foldlM step s) := by
  intro h
  obtain ⟨_, x, _, t, -, -, hx⟩ := foldlM_error h
  exact hstep t x hx

end Avoids

/-! Postconditions for both outcomes: what is returned, and what may be raised. -/

section Ensures

/-- A returned value satisfies `P`, a raised error `E`. -/
def Ensures {α : Type v} (E : ε → Prop) (P : α → Prop) : Except ε α → Prop
  | .ok a => P a
  | .error e => E e

variable {E : ε → Prop} {α : Type v} {β : Type v} {P : α → Prop} {Q : β → Prop}

theorem ensures_iff {x : Except ε α} :
    Ensures E P x ↔ (∀ a, x = .ok a → P a) ∧ ∀ e, x = .error e → E e := by
  cases x with
  | ok a => exact ⟨fun h => ⟨fun _ ha => Except.ok.inj ha ▸ h, fun _ he => by cases he⟩, fun h => h.1 a rfl⟩
  | error e => exact ⟨fun h => ⟨fun _ ha => (by cases ha), fun _ he => Except.error.inj he ▸ h⟩, fun h => h.2 e rfl⟩

theorem Ensures.of_ok {x : Except ε α} (h : Ensures E P x) {a : α} (hx : x = .ok a) : P a := (ensures_iff.mp h).1 a hx

theorem Ensures.of_error {x : Except ε α} (h : Ensures E P x) {e : ε} (hx : x = .error e) : E e :=
  (ensures_iff.mp h).2 e hx

theorem Ensures.imp {P' : α → Prop} {x : Except ε α} (h : Ensures E P x) (hP : ∀ a, P a → P' a) : Ensures E P' x :=
  ensures_iff.mpr ⟨fun _ ha => hP _ (h.of_ok ha), fun _ he => h.of_error he⟩

theorem Ensures.bind {x : Except ε α} {f : α → Except ε β} (hx : Ensures E P x)
    (hf : ∀ a, P a → Ensures E Q (f a)) : Ensures E Q (x >>= f) := by
  cases x with
  | ok a => exact hf a hx
  | error e => exact hx

/-- A guard whose error may be raised: afterwards its condition is false. -/
theorem Ensures.guard {p : Prop} [Decidable p] {e : ε} {f : α → Except ε β} {x : Except ε β} (he : p → E e)
    (hx : ¬p → Ensures E Q x) : Ensures E Q (if p then (throw e : Except ε α) >>= f else x) := by
  split_ifs with hp
  · exact he hp
  · exact hx hp

/-- The loop rule: an invariant of the state and the elements still to come. -/
theorem ensures_foldlM {γ : Type w} {step : α → γ → Except ε α} (Inv : List γ → α → Prop)
    (hstep : ∀ x rest s, Inv (x :: rest) s → Ensures E (Inv rest) (step s x)) {xs : List γ} {s : α} (h : Inv xs s) :
    Ensures E (Inv []) (xs.foldlM step s) := by
  induction xs generalizing s with
  | nil => exact h
  | cons x xs ih =>
    rw [List.foldlM_cons]
    exact (hstep x xs s h).bind fun t ht => ih ht

end Ensures

end ExceptRun
