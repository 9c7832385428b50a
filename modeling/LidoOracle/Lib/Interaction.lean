import Mathlib

/-! Programs that read a shared state and act on it, and the system of many of
them. A program goes on while the others do: each of its reads finds whatever
state has been reached, and an action takes effect some time after it was taken,
or never. -/

universe u

inductive Program (View Action ε α : Type u) where
  | done (result : α)
  | raised (error : ε)
  | read (next : View → Program View Action ε α)
  | act (action : Action) (next : Program View Action ε α)

namespace Program

variable {View Action ε α β : Type u}

protected def bind : Program View Action ε α → (α → Program View Action ε β) → Program View Action ε β
  | done result, f => f result
  | raised error, _ => raised error
  | read next, f => read fun view => (next view).bind f
  | act action next, f => act action (next.bind f)

instance : Monad (Program View Action ε) where
  pure := done
  bind := Program.bind

/-- The state as it is now -/
def latest : Program View Action ε View := read done

def perform (action : Action) : Program View Action ε PUnit := act action (done ⟨⟩)

/-- A computation that neither reads nor acts -/
def ofExcept : Except ε α → Program View Action ε α
  | .ok result => done result
  | .error error => raised error

/-- Every action of the program meets `P`, whatever it reads, and its result meets `Q`. -/
def Meets (P : Action → Prop) (Q : α → Prop) : Program View Action ε α → Prop
  | done result => Q result
  | raised _ => True
  | read next => ∀ view, (next view).Meets P Q
  | act action next => P action ∧ next.Meets P Q

/-- The outcome and the actions when the read number `k` finds `views k`; an action stands with the number of the read
that follows it. -/
def follow (views : ℕ → View) : ℕ → Program View Action ε α → Except ε α × List (Action × ℕ)
  | _, done result => (.ok result, [])
  | _, raised error => (.error error, [])
  | k, read next => follow views (k + 1) (next (views k))
  | k, act action next => ((follow views k next).1, (action, k) :: (follow views k next).2)

section Meets

variable {P : Action → Prop} {Q : α → Prop}

@[simp] theorem pure_bind_eq (result : α) (f : α → Program View Action ε β) : pure result >>= f = f result := rfl

@[simp] theorem latest_bind_eq (f : View → Program View Action ε β) : latest >>= f = read f := rfl

@[simp] theorem meets_pure {result : α} : (pure result : Program View Action ε α).Meets P Q ↔ Q result := Iff.rfl

@[simp] theorem meets_raised {error : ε} : (raised error : Program View Action ε α).Meets P Q ↔ True := Iff.rfl

@[simp] theorem meets_read {next : View → Program View Action ε α} :
    (read next).Meets P Q ↔ ∀ view, (next view).Meets P Q := Iff.rfl

@[simp] theorem meets_perform {action : Action} {Q : PUnit → Prop} :
    (perform action : Program View Action ε PUnit).Meets P Q ↔ P action ∧ Q ⟨⟩ := Iff.rfl

theorem meets_ofExcept {x : Except ε α} :
    (ofExcept x : Program View Action ε α).Meets P Q ↔ ∀ result, x = .ok result → Q result := by
  cases x <;> simp [ofExcept, Meets]

@[simp] theorem ofExcept_ok_bind (result : α) (f : α → Program View Action ε β) :
    ofExcept (.ok result) >>= f = f result := rfl

@[simp] theorem ofExcept_error_bind (error : ε) (f : α → Program View Action ε β) :
    ofExcept (.error error) >>= f = raised error := rfl

/-- The rule of sequencing -/
@[simp] theorem meets_bind {p : Program View Action ε α} {f : α → Program View Action ε β} {Q : β → Prop} :
    (p >>= f).Meets P Q ↔ p.Meets P fun result => (f result).Meets P Q := by
  induction p with
  | done result => rfl
  | raised error => rfl
  | read next ih => exact forall_congr' ih
  | act action next ih => exact and_congr_right fun _ => ih

theorem Meets.mono {Q' : α → Prop} (hQ : ∀ result, Q result → Q' result) {p : Program View Action ε α}
    (h : p.Meets P Q) : p.Meets P Q' := by
  induction p with
  | done result => exact hQ result h
  | raised error => trivial
  | read next ih => exact fun view => ih view (h view)
  | act action next ih => exact ⟨h.1, ih h.2⟩

end Meets

end Program

/-- Parties that run programs on a shared state. What an action does to the state is up to its party and to the state
that it meets; the rest of the world changes the state too. -/
structure Interaction (ι σ View Action ε : Type u) where
  view : σ → View
  starts : ι → Program View Action ε PUnit → Prop
  effect : ι → Action → σ → σ → Prop
  others : σ → σ → Prop

namespace Interaction

variable {ι σ View Action ε : Type u}

structure Config (ι σ View Action ε : Type u) where
  shared : σ
  running : ι → Option (Program View Action ε PUnit)
  /-- The actions that were taken and have had no effect yet -/
  pending : List (ι × Action)

/-- Nothing runs, and nothing is on its way. -/
def Config.quiet (s : σ) : Config ι σ View Action ε := ⟨s, fun _ => none, []⟩

/-- The state meets `Inv`, and the parties take no actions but those that meet `P`. -/
structure Keeps (P : ι → Action → Prop) (Inv : σ → Prop) (c : Config ι σ View Action ε) : Prop where
  shared : Inv c.shared
  running : ∀ i p, c.running i = some p → p.Meets (P i) fun _ => True
  pending : ∀ e ∈ c.pending, P e.1 e.2

theorem keeps_quiet {P : ι → Action → Prop} {Inv : σ → Prop} {s : σ} (h : Inv s) :
    Keeps P Inv (Config.quiet s : Config ι σ View Action ε) :=
  ⟨h, fun _ _ hnone => absurd hnone (by simp [Config.quiet]), fun _ hmem => absurd hmem List.not_mem_nil⟩

variable (sys : Interaction ι σ View Action ε) [DecidableEq ι]

/-- One step of one party, or of the world. A party may be stopped anywhere and start again. -/
inductive Step : Config ι σ View Action ε → Config ι σ View Action ε → Prop where
  | start {c} (i) {p} : sys.starts i p → Step c { c with running := Function.update c.running i (some p) }
  | read {c} (i) {next} : c.running i = some (.read next) →
      Step c { c with running := Function.update c.running i (some (next (sys.view c.shared))) }
  | act {c} (i) {action next} : c.running i = some (.act action next) →
      Step c { c with running := Function.update c.running i (some next), pending := c.pending ++ [(i, action)] }
  | stop {c} (i) : Step c { c with running := Function.update c.running i none }
  | effect {c} {i action before after s'} : c.pending = before ++ (i, action) :: after →
      sys.effect i action c.shared s' → Step c { c with shared := s', pending := before ++ after }
  | lose {c} {i action before after} : c.pending = before ++ (i, action) :: after →
      Step c { c with pending := before ++ after }
  | others {c s'} : sys.others c.shared s' → Step c { c with shared := s' }

def Run : Config ι σ View Action ε → Config ι σ View Action ε → Prop := Relation.ReflTransGen sys.Step

variable {sys} {P : ι → Action → Prop} {Inv Assumed : σ → Prop} {c c' : Config ι σ View Action ε}

theorem Keeps.update (h : Keeps P Inv c) {i : ι} {p : Option (Program View Action ε PUnit)}
    (hp : ∀ q, p = some q → q.Meets (P i) fun _ => True) :
    Keeps P Inv { c with running := Function.update c.running i p } where
  shared := h.shared
  pending := h.pending
  running j q hq := by
    by_cases hj : j = i
    · subst hj
      exact hp q (by simpa using hq)
    · exact h.running j q (by simpa [Function.update_of_ne hj] using hq)

section Rule

variable (hstarts : ∀ i p, sys.starts i p → p.Meets (P i) fun _ => True)
  (heffect : ∀ i action s s', Assumed s → P i action → Inv s → sys.effect i action s s' → Inv s')
  (hothers : ∀ s s', Assumed s → Inv s → sys.others s s' → Inv s')
include hstarts heffect hothers

theorem Keeps.step (hassumed : Assumed c.shared) (h : Keeps P Inv c) (hstep : sys.Step c c') : Keeps P Inv c' := by
  cases hstep with
  | start i hstart => exact h.update fun q hq => Option.some.inj hq ▸ hstarts i _ hstart
  | read i hrunning => exact h.update fun q hq => Option.some.inj hq ▸ h.running i _ hrunning _
  | @act i action next hrunning =>
    obtain ⟨haction, hnext⟩ := h.running i _ hrunning
    have hupdate : Keeps P Inv { c with running := Function.update c.running i (some next) } :=
      h.update fun q hq => Option.some.inj hq ▸ hnext
    refine ⟨h.shared, hupdate.running, fun e he => ?_⟩
    rcases List.mem_append.mp he with he | he
    · exact h.pending e he
    · rw [List.mem_singleton.mp he]
      exact haction
  | stop i => exact h.update fun q hq => absurd hq (by simp)
  | effect hpending heff =>
    have hmem := h.pending
    rw [hpending, List.forall_mem_append, List.forall_mem_cons] at hmem
    exact ⟨heffect _ _ _ _ hassumed hmem.2.1 h.shared heff, h.running,
      List.forall_mem_append.mpr ⟨hmem.1, hmem.2.2⟩⟩
  | lose hpending =>
    have hmem := h.pending
    rw [hpending, List.forall_mem_append, List.forall_mem_cons] at hmem
    exact ⟨h.shared, h.running, List.forall_mem_append.mpr ⟨hmem.1, hmem.2.2⟩⟩
  | others hother => exact ⟨hothers _ _ hassumed h.shared hother, h.running, h.pending⟩

/-- The rule of the system: what every allowed action and the world keep holds in every state that is reached, as long
as the assumption does. -/
theorem Keeps.run (hassumed : ∀ c', sys.Run c c' → Assumed c'.shared) (h : Keeps P Inv c) (hrun : sys.Run c c') :
    Keeps P Inv c' := by
  induction hrun with
  | refl => exact h
  | tail hrun hstep ih => exact Keeps.step hstarts heffect hothers (hassumed _ hrun) ih hstep

end Rule

section Alone

variable (sys)

/-- The party runs on to its end while nobody else moves. All its actions are on their way then. -/
theorem exists_run_uninterrupted (i : ι) (p : Program View Action ε PUnit) :
    ∀ (k : ℕ) (c : Config ι σ View Action ε), c.running i = some p → ∃ c', sys.Run c c' ∧ c'.shared = c.shared ∧
      (∀ j, j ≠ i → c'.running j = c.running j) ∧
      c'.pending = c.pending ++ ((p.follow (fun _ => sys.view c.shared) k).2.map Prod.fst).map fun a => (i, a) := by
  induction p with
  | done result => exact fun k c _ => ⟨c, .refl, rfl, fun _ _ => rfl, by simp [Program.follow]⟩
  | raised error => exact fun k c _ => ⟨c, .refl, rfl, fun _ _ => rfl, by simp [Program.follow]⟩
  | read next ih =>
    intro k c hrunning
    obtain ⟨c', hrun, hshared, hothers, hpending⟩ := ih (sys.view c.shared) (k + 1)
      { c with running := Function.update c.running i (some (next (sys.view c.shared))) } (by simp)
    exact ⟨c', .head (.read i hrunning) hrun, hshared,
      fun j hj => (hothers j hj).trans (Function.update_of_ne hj _ _), hpending⟩
  | act action next ih =>
    intro k c hrunning
    obtain ⟨c', hrun, hshared, hothers, hpending⟩ := ih k { c with
      running := Function.update c.running i (some next), pending := c.pending ++ [(i, action)] } (by simp)
    exact ⟨c', .head (.act i hrunning) hrun, hshared,
      fun j hj => (hothers j hj).trans (Function.update_of_ne hj _ _), by rw [hpending]; simp [Program.follow]⟩

/-- A whole program, from its start -/
theorem exists_run_started {c : Config ι σ View Action ε} {i : ι} {p : Program View Action ε PUnit}
    (hstart : sys.starts i p) : ∃ c', sys.Run c c' ∧ c'.shared = c.shared ∧
      (∀ j, j ≠ i → c'.running j = c.running j) ∧
      c'.pending = c.pending ++ ((p.follow (fun _ => sys.view c.shared) 0).2.map Prod.fst).map fun a => (i, a) := by
  obtain ⟨c', hrun, hshared, hothers, hpending⟩ := exists_run_uninterrupted sys i p 0
    { c with running := Function.update c.running i (some p) } (by simp)
  exact ⟨c', .head (.start i hstart) hrun, hshared,
    fun j hj => (hothers j hj).trans (Function.update_of_ne hj _ _), hpending⟩

end Alone

end Interaction
