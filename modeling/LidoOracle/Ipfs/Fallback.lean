import Mathlib

/-! Fetching from several providers. A provider that fails hands over to the next
one in rotation; the call gives up when the turn comes back to the provider that
worked last. Both indexes survive the call, and a new frame sets them anew. -/

namespace LidoOracle

namespace Ipfs

/-- What an attempt comes to; only an `IPFSError` is worth another one. -/
inductive Attempt (α : Type) where
  | success (result : α)
  | ipfsError
  | otherError

inductive Failure where
  | maxRetry
  | other
  | noMoreProviders
  | providerConsistency
  deriving DecidableEq

/-- The loop of `retry`, over a function that has a state: its outcome and the attempts it made -/
def retryLoop {σ α : Type} (fn : σ → ℕ → Attempt α × σ) : (retriesLeft made : ℕ) → σ → Except Failure α × ℕ × σ
  | 0, made, s => (.error .maxRetry, made, s)
  | retriesLeft + 1, made, s =>
    match fn s made with
    | (.success result, s') => (.ok result, made + 1, s')
    | (.otherError, s') => (.error .other, made + 1, s')
    | (.ipfsError, s') =>
      if retriesLeft = 0 then (.error .maxRetry, made + 1, s') else retryLoop fn retriesLeft (made + 1) s'

structure State where
  currentProviderIndex : ℕ
  lastWorkingProviderIndex : ℕ
  currentFrame : Option ℤ
  deriving DecidableEq

/-- As `__init__` leaves it -/
def State.init : State := ⟨0, 0, none⟩

variable {α : Type} (providers retries : ℕ)

def State.setProviderForFrame (st : State) (providerRotationFrame : ℤ) : State :=
  if st.currentFrame ≠ some providerRotationFrame then
    let currentProviderIndex := (providerRotationFrame % providers).toNat
    { currentFrame := some providerRotationFrame
      currentProviderIndex := currentProviderIndex
      lastWorkingProviderIndex := currentProviderIndex }
  else st

/-- The body of `fetch`, with what the provider does at each attempt -/
def fetchOnce (providerRotationFrame : ℤ) (attempts : ℕ → Attempt α) (st : State) (attempt : ℕ) : Attempt α × State :=
  (attempts attempt, st.setProviderForFrame providers providerRotationFrame)

/-- One provider's part in a call -/
structure Turn (α : Type) where
  providerIndex : ℕ
  attempts : ℕ
  result : Except Failure α

/-- A call of `fetch`: its result, the state it leaves and the turns of the providers. The attempts are numbered
within the turns, and the turns within the call. -/
def fetch (providerRotationFrame : ℤ) (outcomes : ℕ → ℕ → Attempt α) :
    (fuel turn : ℕ) → State → Option (Except Failure α × State × List (Turn α))
  | 0, _, _ => none
  | fuel + 1, turn, st =>
    match retryLoop (fetchOnce providers providerRotationFrame (outcomes turn)) retries 0 st with
    | (.ok result, made, st') =>
      some (.ok result, { st' with lastWorkingProviderIndex := st'.currentProviderIndex },
        [⟨st'.currentProviderIndex, made, .ok result⟩])
    | (.error failure, made, st') =>
      let currentProviderIndex := (st'.currentProviderIndex + 1) % providers
      if st'.lastWorkingProviderIndex = currentProviderIndex then
        some (.error .noMoreProviders, { st' with currentProviderIndex := currentProviderIndex },
          [⟨st'.currentProviderIndex, made, .error failure⟩])
      else do
        let rest ← fetch providerRotationFrame outcomes fuel (turn + 1)
          { st' with currentProviderIndex := currentProviderIndex }
        return (rest.1, rest.2.1, ⟨st'.currentProviderIndex, made, .error failure⟩ :: rest.2.2)

/-- A call, with the frame it is for and what the providers do -/
structure Call (α : Type) where
  providerRotationFrame : ℤ
  outcomes : ℕ → ℕ → Attempt α

/-- A call that has been made -/
structure Record (α : Type) where
  call : Call α
  before : State
  result : Except Failure α
  after : State
  turns : List (Turn α)

def fetchAll (fuel : ℕ) : List (Call α) → State → Option (List (Record α) × State)
  | [], st => some ([], st)
  | call :: calls, st => do
    let made ← fetch providers retries call.providerRotationFrame call.outcomes fuel 0 st
    let rest ← fetchAll fuel calls made.2.1
    return (⟨call, st, made.1, made.2.1, made.2.2⟩ :: rest.1, rest.2)

/-- Attempts go on after an `IPFSError` only, and at most `retries` of them are made. -/
structure Turn.Follows (turn : Turn α) (attempts : ℕ → Attempt α) : Prop where
  pos : 0 < turn.attempts
  le : turn.attempts ≤ retries
  retried : ∀ k, k + 1 < turn.attempts → attempts k = .ipfsError
  success : ∀ result, turn.result = .ok result ↔ attempts (turn.attempts - 1) = .success result
  exhausted : attempts (turn.attempts - 1) = .ipfsError → turn.attempts = retries

def Turn.Failed (turn : Turn α) : Prop := ∃ failure, turn.result = .error failure

/-- The provider a call starts with -/
def startIndex (st : State) (providerRotationFrame : ℤ) : ℕ :=
  if st.currentFrame = some providerRotationFrame then st.lastWorkingProviderIndex
  else (providerRotationFrame % providers).toNat

/-- Between calls the provider in use is the one that worked last. -/
structure State.Settled (st : State) : Prop where
  same : st.currentProviderIndex = st.lastWorkingProviderIndex
  lt : st.lastWorkingProviderIndex < providers

/-- Every provider has one turn at most, in rotation order, until one succeeds or all have failed. -/
structure Record.Correct (record : Record α) : Prop where
  rotation : ∀ (k : ℕ) (turn : Turn α), record.turns[k]? = some turn →
    turn.providerIndex = (startIndex providers record.before record.call.providerRotationFrame + k) % providers
  once : (record.turns.map Turn.providerIndex).Nodup
  follows : ∀ (k : ℕ) (turn : Turn α), record.turns[k]? = some turn → turn.Follows retries (record.call.outcomes k)
  success : ∀ content, record.result = .ok content ↔
    ∃ failed last, record.turns = failed ++ [last] ∧ (∀ turn ∈ failed, Turn.Failed turn) ∧ last.result = .ok content
  failure : ∀ failure, record.result = .error failure ↔
    failure = .noMoreProviders ∧ record.turns.length = providers ∧ ∀ turn ∈ record.turns, Turn.Failed turn
  before : record.before.Settled providers
  after : record.after.Settled providers
  currentFrame : record.after.currentFrame = some record.call.providerRotationFrame
  lastWorking : ∀ turn ∈ record.turns, ¬Turn.Failed turn → record.after.lastWorkingProviderIndex = turn.providerIndex
  noneWorking : (∀ turn ∈ record.turns, Turn.Failed turn) → record.after.lastWorkingProviderIndex =
    startIndex providers record.before record.call.providerRotationFrame

/-- What is known of a call from its turn `k` on, where `start` is the provider it began with -/
structure Rotates (frame : ℤ) (outcomes : ℕ → ℕ → Attempt α) (start k : ℕ) (result : Except Failure α) (after : State)
    (turns : List (Turn α)) : Prop where
  rotation : ∀ (i : ℕ) (turn : Turn α), turns[i]? = some turn → turn.providerIndex = (start + (k + i)) % providers
  follows : ∀ (i : ℕ) (turn : Turn α), turns[i]? = some turn → turn.Follows retries (outcomes (k + i))
  length_le : k + turns.length ≤ providers
  ending : (∃ content failed last, result = .ok content ∧ turns = failed ++ [last] ∧
      (∀ turn ∈ failed, Turn.Failed turn) ∧ last.result = .ok content) ∨
    (result = .error .noMoreProviders ∧ k + turns.length = providers ∧ ∀ turn ∈ turns, Turn.Failed turn)
  settled : after.Settled providers
  currentFrame : after.currentFrame = some frame
  lastWorking : ∀ turn ∈ turns, ¬Turn.Failed turn → after.lastWorkingProviderIndex = turn.providerIndex
  noneWorking : (∀ turn ∈ turns, Turn.Failed turn) → after.lastWorkingProviderIndex = start

section Loop

variable {providers retries} {frame : ℤ} {st : State}

theorem setProviderForFrame_currentFrame (frame : ℤ) (st : State) :
    (st.setProviderForFrame providers frame).currentFrame = some frame := by
  unfold State.setProviderForFrame
  split
  · rfl
  · rename_i h
    simpa using h

theorem setProviderForFrame_of_eq (h : st.currentFrame = some frame) : st.setProviderForFrame providers frame = st := by
  simp [State.setProviderForFrame, h]

/-- A call starts with the provider that worked last in its frame, or with the frame's own. -/
theorem setProviderForFrame_settled (hsettled : st.Settled providers) (frame : ℤ) :
    st.setProviderForFrame providers frame =
      ⟨startIndex providers st frame, startIndex providers st frame, some frame⟩ := by
  obtain ⟨current, last, currentFrame⟩ := st
  have hsame : current = last := hsettled.same
  subst hsame
  by_cases h : currentFrame = some frame <;> simp [State.setProviderForFrame, startIndex, h]

theorem startIndex_lt (hpos : 0 < providers) (hsettled : st.Settled providers) (frame : ℤ) :
    startIndex providers st frame < providers := by
  unfold startIndex
  split
  · exact hsettled.lt
  · have hlt := Int.emod_lt_of_pos frame (Int.natCast_pos.mpr hpos)
    have hnonneg := Int.emod_nonneg frame (Int.natCast_pos.mpr hpos).ne'
    omega

/-- The attempts of one turn, made after `made` others that ended in an `IPFSError` -/
theorem retryLoop_fetchOnce (attempts : ℕ → Attempt α) (providerIndex : ℕ) {left made : ℕ} (hleft : 0 < left)
    (hsum : made + left = retries) (hmade : ∀ k < made, attempts k = .ipfsError) (st : State) :
    ∃ result total, retryLoop (fetchOnce providers frame attempts) left made st =
        (result, total, st.setProviderForFrame providers frame) ∧
      Turn.Follows retries ⟨providerIndex, total, result⟩ attempts := by
  induction left generalizing made st with
  | zero => exact absurd hleft (lt_irrefl 0)
  | succ left ih =>
    have hretried : ∀ k, k + 1 < made + 1 → attempts k = .ipfsError := fun k hk => hmade k (by omega)
    rcases hattempt : attempts made with content | _ | _
    · refine ⟨.ok content, made + 1, by simp [retryLoop, fetchOnce, hattempt], ?_⟩
      exact ⟨Nat.succ_pos made, by simp only; omega, hretried, fun result => by simp [hattempt], by simp [hattempt]⟩
    · rcases Nat.eq_zero_or_pos left with hzero | hpos
      · refine ⟨.error .maxRetry, made + 1, by simp [retryLoop, fetchOnce, hattempt, hzero], ?_⟩
        exact ⟨Nat.succ_pos made, by simp only; omega, hretried, fun result => by simp [hattempt],
          fun _ => by simp only; omega⟩
      · have hmade' : ∀ k < made + 1, attempts k = .ipfsError := by
          intro k hk
          rcases Nat.lt_succ_iff_lt_or_eq.mp hk with hlt | rfl
          · exact hmade k hlt
          · exact hattempt
        obtain ⟨result, total, heq, hfollows⟩ :=
          ih hpos (by omega) hmade' (st.setProviderForFrame providers frame)
        refine ⟨result, total, ?_, hfollows⟩
        rw [setProviderForFrame_of_eq (setProviderForFrame_currentFrame frame st)] at heq
        simp [retryLoop, fetchOnce, hattempt, hpos.ne', heq]
    · refine ⟨.error .other, made + 1, by simp [retryLoop, fetchOnce, hattempt], ?_⟩
      exact ⟨Nat.succ_pos made, by simp only; omega, hretried, fun result => by simp [hattempt], by simp [hattempt]⟩

/-- The turn comes back to its start after the last provider only. -/
theorem next_eq_start_iff {start k : ℕ} (hstart : start < providers) (hk : k < providers) :
    ((start + k) % providers + 1) % providers = start ↔ k + 1 = providers := by
  have hmod : ((start + k) % providers + 1) % providers = (start + (k + 1)) % providers := by
    rw [Nat.mod_add_mod, add_assoc]
  rw [hmod]
  refine ⟨fun h => ?_, fun h => by rw [h, Nat.add_mod_right, Nat.mod_eq_of_lt hstart]⟩
  have hcancel : (k + 1) % providers = 0 % providers :=
    Nat.ModEq.add_left_cancel' start (by simpa [Nat.ModEq, Nat.mod_eq_of_lt hstart] using h)
  rw [Nat.zero_mod] at hcancel
  have hdvd := Nat.dvd_of_mod_eq_zero hcancel
  exact le_antisymm hk (Nat.le_of_dvd (Nat.succ_pos k) hdvd)

variable {outcomes : ℕ → ℕ → Attempt α} {start k : ℕ} {result : Except Failure α} {after : State}
  {turns : List (Turn α)} {turn : Turn α}

/-- One more failed turn in front -/
theorem Rotates.cons (hrest : Rotates providers retries frame outcomes start (k + 1) result after turns)
    (hindex : turn.providerIndex = (start + k) % providers)
    (hfollows : turn.Follows retries (outcomes k)) (hfailed : Turn.Failed turn) :
    Rotates providers retries frame outcomes start k result after (turn :: turns) where
  rotation i t ht := by
    rcases i with _ | i
    · obtain rfl : turn = t := by simpa using ht
      exact hindex
    · rw [hrest.rotation i t (by simpa using ht)]
      congr 2
      omega
  follows i t ht := by
    rcases i with _ | i
    · obtain rfl : turn = t := by simpa using ht
      exact hfollows
    · have hrestFollows := hrest.follows i t (by simpa using ht)
      rwa [show k + 1 + i = k + (i + 1) by omega] at hrestFollows
  length_le := by
    have hle := hrest.length_le
    simp only [List.length_cons]
    omega
  ending := by
    rcases hrest.ending with ⟨content, failed, last, hresult, hturns, hall, hlast⟩ | ⟨hresult, hlength, hall⟩
    · exact .inl ⟨content, turn :: failed, last, hresult, by rw [hturns, List.cons_append],
        List.forall_mem_cons.mpr ⟨hfailed, hall⟩, hlast⟩
    · refine .inr ⟨hresult, ?_, List.forall_mem_cons.mpr ⟨hfailed, hall⟩⟩
      simp only [List.length_cons]
      omega
  settled := hrest.settled
  currentFrame := hrest.currentFrame
  lastWorking := List.forall_mem_cons.mpr ⟨fun hworked => absurd hfailed hworked, hrest.lastWorking⟩
  noneWorking hall := hrest.noneWorking (List.forall_mem_cons.mp hall).2

/-- A single turn is the whole rest of a call that ends with it. -/
theorem Rotates.single (hk : k < providers) (hindex : turn.providerIndex = (start + k) % providers)
    (hfollows : turn.Follows retries (outcomes k))
    (hending : (∃ content, result = .ok content ∧ turn.result = .ok content ∧
        after.lastWorkingProviderIndex = turn.providerIndex) ∨
      (result = .error .noMoreProviders ∧ k + 1 = providers ∧ Turn.Failed turn ∧
        after.lastWorkingProviderIndex = start))
    (hafter : after.Settled providers) (hframe : after.currentFrame = some frame) :
    Rotates providers retries frame outcomes start k result after [turn] where
  rotation i t ht := by
    obtain ⟨rfl, rfl⟩ : i = 0 ∧ turn = t := by simpa [List.getElem?_singleton] using ht
    exact hindex
  follows i t ht := by
    obtain ⟨rfl, rfl⟩ : i = 0 ∧ turn = t := by simpa [List.getElem?_singleton] using ht
    exact hfollows
  length_le := hk
  ending := by
    rcases hending with ⟨content, hresult, hturn, -⟩ | ⟨hresult, hlast, hturn, -⟩
    · exact .inl ⟨content, [], turn, hresult, rfl, by simp, hturn⟩
    · exact .inr ⟨hresult, hlast, by simpa using hturn⟩
  settled := hafter
  currentFrame := hframe
  lastWorking t ht hworked := by
    obtain rfl := List.mem_singleton.mp ht
    rcases hending with ⟨content, -, -, hindex⟩ | ⟨-, -, hfailed, -⟩
    · exact hindex
    · exact absurd hfailed hworked
  noneWorking hall := by
    rcases hending with ⟨content, -, hturn, -⟩ | ⟨-, -, -, hstart⟩
    · obtain ⟨failure, hfailure⟩ := hall turn (List.mem_singleton_self turn)
      rw [hturn] at hfailure
      cases hfailure
    · exact hstart

/-- From the turn `k` on, with enough fuel for the providers that are left -/
theorem fetch_rotates (hretries : 0 < retries) (outcomes : ℕ → ℕ → Attempt α) (hstart : start < providers)
    {fuel : ℕ} (hk : k < providers) (hfuel : providers ≤ k + fuel)
    (hset : st.setProviderForFrame providers frame = ⟨(start + k) % providers, start, some frame⟩) :
    ∃ result after turns, fetch providers retries frame outcomes fuel k st = some (result, after, turns) ∧
      Rotates providers retries frame outcomes start k result after turns := by
  induction fuel generalizing k st with
  | zero => omega
  | succ fuel ih =>
    obtain ⟨result, made, hloop, hfollows⟩ := @retryLoop_fetchOnce _ providers retries frame
      (outcomes k) ((start + k) % providers) retries 0 hretries (Nat.zero_add retries) (by simp) st
    rw [hset] at hloop
    have hmod : (start + k) % providers < providers := Nat.mod_lt _ (by omega)
    rcases result with failure | content
    · by_cases hlast : start = ((start + k) % providers + 1) % providers
      · refine ⟨_, _, _, by simp only [fetch, hloop]; rw [if_pos hlast], ?_⟩
        exact .single hk rfl hfollows (.inr ⟨rfl, (next_eq_start_iff hstart hk).mp hlast.symm, ⟨failure, rfl⟩, rfl⟩)
          ⟨hlast.symm, hstart⟩ rfl
      · have hne : k + 1 ≠ providers := fun h => hlast ((next_eq_start_iff hstart hk).mpr h).symm
        have hnext : (State.mk (((start + k) % providers + 1) % providers) start (some frame)).setProviderForFrame
            providers frame = ⟨(start + (k + 1)) % providers, start, some frame⟩ := by
          rw [setProviderForFrame_of_eq rfl, Nat.mod_add_mod, add_assoc]
        obtain ⟨result, after, turns, hrest, hrotates⟩ := ih (by omega) (by omega) hnext
        refine ⟨_, _, _, by simp only [fetch, hloop]; rw [if_neg hlast, hrest]; rfl, ?_⟩
        exact hrotates.cons rfl hfollows ⟨failure, rfl⟩
    · let index := (start + k) % providers
      refine ⟨.ok content, ⟨index, index, some frame⟩, [⟨index, made, .ok content⟩], by simp only [fetch, hloop, index],
        ?_⟩
      exact .single hk rfl hfollows (.inl ⟨content, rfl, rfl, rfl⟩) ⟨rfl, hmod⟩ rfl

theorem Rotates.once (h : Rotates providers retries frame outcomes start 0 result after turns) :
    (turns.map Turn.providerIndex).Nodup := by
  have hmap : turns.map Turn.providerIndex = (List.range turns.length).map fun i => (start + i) % providers := by
    refine List.ext_getElem (by simp) fun i hi _ => ?_
    have hlt : i < turns.length := by simpa using hi
    simpa using h.rotation i turns[i] (List.getElem?_eq_getElem hlt)
  rw [hmap]
  refine List.Nodup.map_on (fun i hi j hj hij => ?_) List.nodup_range
  have hle := h.length_le
  rw [List.mem_range] at hi hj
  have hcancel : i % providers = j % providers := Nat.ModEq.add_left_cancel' start hij
  rwa [Nat.mod_eq_of_lt (by omega), Nat.mod_eq_of_lt (by omega)] at hcancel

/-- The content is that of the last turn, which alone succeeded. -/
theorem Rotates.ok_iff (h : Rotates providers retries frame outcomes start k result after turns)
    (content : α) : result = .ok content ↔
      ∃ failed last, turns = failed ++ [last] ∧ (∀ turn ∈ failed, Turn.Failed turn) ∧ last.result = .ok content := by
  rcases h.ending with ⟨content', failed, last, rfl, rfl, hall, hlast⟩ | ⟨rfl, hlength, hall⟩
  · refine ⟨fun heq => ?_, fun ⟨failed', last', hturns, _, hlast'⟩ => ?_⟩
    · exact ⟨failed, last, rfl, hall, by rw [hlast, Except.ok.inj heq]⟩
    · obtain ⟨-, hsame⟩ := List.append_inj' hturns rfl
      obtain rfl : last = last' := by simpa using hsame
      rw [← hlast, hlast']
  · refine ⟨fun heq => (by cases heq), fun ⟨failed', last', hturns, _, hlast'⟩ => ?_⟩
    obtain ⟨failure, hfailure⟩ := hall last' (by simp [hturns])
    rw [hlast'] at hfailure
    cases hfailure

theorem Rotates.error_iff (h : Rotates providers retries frame outcomes start k result after turns)
    (failure : Failure) : result = .error failure ↔
      failure = .noMoreProviders ∧ k + turns.length = providers ∧ ∀ turn ∈ turns, Turn.Failed turn := by
  rcases h.ending with ⟨content, failed, last, rfl, rfl, -, hlast⟩ | ⟨rfl, hlength, hall⟩
  · refine ⟨fun heq => (by cases heq), fun hfailed => ?_⟩
    obtain ⟨failure', hfailure⟩ := hfailed.2.2 last (by simp)
    rw [hlast] at hfailure
    cases hfailure
  · exact ⟨fun heq => ⟨(Except.error.inj heq).symm, hlength, hall⟩, fun hfailed => by rw [hfailed.1]⟩

theorem Rotates.correct {call : Call α} {before : State} (hbefore : before.Settled providers)
    (h : Rotates providers retries call.providerRotationFrame call.outcomes
      (startIndex providers before call.providerRotationFrame) 0 result after turns) :
    Record.Correct providers retries ⟨call, before, result, after, turns⟩ where
  rotation k turn hturn := by simpa using h.rotation k turn hturn
  once := h.once
  follows k turn hturn := by simpa using h.follows k turn hturn
  success := h.ok_iff
  failure f := by simpa using h.error_iff f
  before := hbefore
  after := h.settled
  currentFrame := h.currentFrame
  lastWorking := h.lastWorking
  noneWorking := h.noneWorking

end Loop

/-- Every run of calls goes through: each one ends, with a turn for every provider at most. -/
theorem fetchAll_correct (hproviders : 0 < providers) (hretries : 0 < retries) (calls : List (Call α)) :
    ∃ records st, fetchAll providers retries providers calls State.init = some (records, st) ∧
      records.map Record.call = calls ∧ st.Settled providers ∧
      ∀ record ∈ records, Record.Correct providers retries record := by
  suffices hrun : ∀ st : State, st.Settled providers → ∃ records st',
      fetchAll providers retries providers calls st = some (records, st') ∧ records.map Record.call = calls ∧
      st'.Settled providers ∧ ∀ record ∈ records, Record.Correct providers retries record from
    hrun State.init ⟨rfl, hproviders⟩
  induction calls with
  | nil => exact fun st hsettled => ⟨[], st, rfl, rfl, hsettled, by simp⟩
  | cons call calls ih =>
    intro st hsettled
    have hstart := startIndex_lt hproviders hsettled call.providerRotationFrame
    have hset := setProviderForFrame_settled hsettled call.providerRotationFrame
    obtain ⟨result, after, turns, hfetch, hrotates⟩ := fetch_rotates hretries call.outcomes hstart hproviders
      (Nat.le_add_left providers 0) (by rw [hset, Nat.add_zero, Nat.mod_eq_of_lt hstart])
    obtain ⟨records, st', hrun, hcalls, hsettled', hall⟩ := ih after hrotates.settled
    refine ⟨⟨call, st, result, after, turns⟩ :: records, st', ?_, by rw [List.map_cons, hcalls], hsettled',
      List.forall_mem_cons.mpr ⟨hrotates.correct hsettled, hall⟩⟩
    simp [fetchAll, hfetch, hrun]

/-- Three providers, of which the second alone answers, and only at its second attempt; then all of them fail. -/
def secondProvider : List (Call ℕ) :=
  [⟨4, fun turn attempt => if turn = 0 ∧ attempt = 1 then .success 7 else .ipfsError⟩,
    ⟨4, fun _ _ => .otherError⟩, ⟨5, fun turn _ => if turn = 1 then .success 8 else .ipfsError⟩]

theorem fetchAll_correct_secondProvider :
    ∃ records st, fetchAll 3 2 3 secondProvider State.init = some (records, st) ∧
      records.map Record.call = secondProvider ∧ st.Settled 3 ∧ ∀ record ∈ records, Record.Correct 3 2 record :=
  fetchAll_correct 3 2 (by decide) (by decide) secondProvider

end Ipfs

end LidoOracle
