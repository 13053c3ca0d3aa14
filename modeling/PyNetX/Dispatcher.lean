import Mathlib.Data.List.Nodup
import PyNetX.Lib.LeadsTo
import PyNetX.WrapFuture
/-!
# Dispatcher — the run loop of `AsyncFutureDispatcher`, turn after turn

A poller is a name, and what a call of it comes to is any result.  A turn is a section under the dispatcher's mutex, or
what lies between two of them.  Every poller that was added is in one place, one that stays is called in the next round,
and one that is done never again (`dispatcher_keeps_pollers`); the awaits' dispatcher is this one with its pollers
(`AsyncFutureDispatcher.runDispatcher_shows`).
-/
namespace PyNetX

open Run (run)
open LeadsTo (after Leads)

/-- What a call of a poller comes to: it returns `false`, it returns `true`, or it throws. -/
inductive PollerResult where
  | pending
  | done
  | threw
  deriving DecidableEq

/-- Where the dispatcher's thread is in `run`. -/
inductive RunPc where
  /-- In front of the mutex, at the top of the loop. -/
  | top
  /-- In `cv_.wait`: it has found `pending_` empty. -/
  | blocked
  /-- Notified there, in front of the mutex again. -/
  | woken
  /-- In `cv_.wait_for`. -/
  | dozing
  /-- In the loop over the batch, in front of a poller or of the loop's end. -/
  | poll
  /-- In the call of the batch's first. -/
  | calling
  /-- Behind the loop, in front of the mutex. -/
  | insert
  deriving DecidableEq

/-- A call that has come back, and the round it was made in. -/
structure PollerCall where
  poller : Nat
  round : Nat
  result : PollerResult
  deriving DecidableEq

/-- The dispatcher.  `batch` is the part of the batch that the loop has not come past; the poller that is called is its
first.  `notifying` counts the calls of `add` that have left the mutex and not notified yet.  The rest is what has been:
the pollers that were added and those that are done, the rounds and the calls. -/
structure Dispatcher where
  pending : List Nat := []
  batch : List Nat := []
  stillPending : List Nat := []
  pc : RunPc := .top
  notifying : Nat := 0
  added : List Nat := []
  finished : List Nat := []
  round : Nat := 0
  calls : List PollerCall := []

inductive PollerTurn where
  /-- Under the mutex, a call of `add` with a new poller puts it behind the pending ones. -/
  | add (i : Nat)
  /-- `notify_one`, by a call of `add`. -/
  | notify
  /-- A wait that ends without a notification. -/
  | spurious
  /-- A turn of the dispatcher's thread.  `result` is what the call comes to, if it is in one. -/
  | worker (result : PollerResult)

namespace Dispatcher

def add (d : Dispatcher) (i : Nat) : Dispatcher :=
  if i ∈ d.added then d
  else { d with pending := d.pending ++ [i], notifying := d.notifying + 1, added := d.added ++ [i] }

/-- The wait ends: the thread is in front of the mutex. -/
def wake (d : Dispatcher) : Dispatcher := if d.pc = .blocked then { d with pc := .woken } else d

def notify (d : Dispatcher) : Dispatcher :=
  if d.notifying = 0 then d else { d.wake with notifying := d.notifying - 1 }

/-- `batch.swap(pending_)`. -/
def swap (d : Dispatcher) : Dispatcher :=
  { d with pending := d.batch, batch := d.pending, pc := .poll, round := d.round + 1 }

/-- The call of poller `i` is over. -/
def returns (d : Dispatcher) (i : Nat) (batch : List Nat) (result : PollerResult) : Dispatcher :=
  let call : PollerCall := { poller := i, round := d.round, result := result }
  let d := { d with batch := batch, pc := .poll, calls := d.calls ++ [call] }
  if result = .pending then { d with stillPending := d.stillPending ++ [i] } else { d with finished := d.finished ++ [i] }

def worker (d : Dispatcher) (result : PollerResult) : Dispatcher :=
  match d.pc, d.batch with
  | .top, _ => { d with pc := if d.pending = [] then .blocked else .dozing }
  | .blocked, _ => d
  | .woken, _ => if d.pending = [] then { d with pc := .blocked } else d.swap
  | .dozing, _ => d.swap
  | .poll, [] => { d with pc := if d.stillPending = [] then .top else .insert }
  | .poll, _ :: _ => { d with pc := .calling }
  | .calling, i :: batch => d.returns i batch result
  | .calling, [] => d
  | .insert, _ => { d with pending := d.pending ++ d.stillPending, stillPending := [], pc := .top }

def step (d : Dispatcher) : PollerTurn → Dispatcher
  | .add i => d.add i
  | .notify => d.notify
  | .spurious => d.wake
  | .worker result => d.worker result

/-- The dispatcher's thread is in a call of poller `i`. -/
def Calling (d : Dispatcher) (i : Nat) : Prop := d.pc = .calling ∧ d.batch.head? = some i

/-- In how many places poller `i` is, and how often. -/
def places (d : Dispatcher) (i : Nat) : Nat :=
  d.pending.count i + d.batch.count i + d.stillPending.count i + d.finished.count i

end Dispatcher

/-- The dispatcher after these turns. -/
def runPollers (turns : List PollerTurn) : Dispatcher := Run.run Dispatcher.step {} turns

namespace Dispatcher

/-! ## One place -/

/-- What holds between two turns: every poller that was added is in one place; a poller in the batch is not done and has
not been called in this round. -/
structure Sound (d : Dispatcher) : Prop where
  nodup : d.added.Nodup
  once : ∀ i, d.places i = d.added.count i
  batch : d.pc ≠ .poll → d.pc ≠ .calling → d.batch = []
  stillPending : d.pc = .top ∨ d.pc = .blocked ∨ d.pc = .woken ∨ d.pc = .dozing → d.stillPending = []
  calling : d.pc = .calling → d.batch ≠ []
  rounds : ∀ c ∈ d.calls, c.round ≤ d.round ∧ (c.poller ∈ d.batch → c.round < d.round)
  finished : ∀ i, i ∈ d.finished ↔ ∃ c ∈ d.calls, c.poller = i ∧ c.result ≠ .pending

variable {d : Dispatcher} {i r : Nat}

theorem sound_start : Sound {} := by
  constructor <;> simp [places]

theorem Sound.places_eq (h : d.Sound) (i : Nat) : d.places i = if i ∈ d.added then 1 else 0 := by
  rw [h.once]
  split
  · exact List.count_eq_one_of_mem h.nodup ‹_›
  · exact List.count_eq_zero_of_not_mem ‹_›

theorem Sound.places_le (h : d.Sound) (i : Nat) : d.places i ≤ 1 := by
  rw [h.places_eq]
  split <;> omega

theorem Sound.add (h : d.Sound) (i : Nat) : (d.add i).Sound := by
  unfold Dispatcher.add
  split
  · exact h
  · rename_i hnew
    refine ⟨?_, fun j => ?_, h.batch, h.stillPending, h.calling, h.rounds, h.finished⟩
    · exact List.nodup_append.2 ⟨h.nodup, List.nodup_singleton i, fun a ha b hb => by
        rw [List.mem_singleton.1 hb]
        rintro rfl
        exact hnew ha⟩
    · have := h.once j
      simp only [places, List.count_append] at this ⊢
      omega

theorem Sound.wake (h : d.Sound) : d.wake.Sound := by
  unfold Dispatcher.wake
  split
  · rename_i hpc
    have hstill := h.stillPending (Or.inr (Or.inl hpc))
    have hbatch := h.batch (by simp [hpc]) (by simp [hpc])
    exact ⟨h.nodup, h.once, fun _ _ => hbatch, fun _ => hstill, nofun, h.rounds, h.finished⟩
  · exact h

theorem Sound.notify (h : d.Sound) : d.notify.Sound := by
  unfold Dispatcher.notify
  split
  · exact h
  · have hw := h.wake
    exact ⟨hw.nodup, hw.once, hw.batch, hw.stillPending, hw.calling, hw.rounds, hw.finished⟩

/-- A turn that moves the thread on, and no poller. -/
theorem Sound.goto (h : d.Sound) (pc : RunPc) (hbatch : pc ≠ .poll → pc ≠ .calling → d.batch = [])
    (hstill : pc = .top ∨ pc = .blocked ∨ pc = .woken ∨ pc = .dozing → d.stillPending = [])
    (hcalling : pc = .calling → d.batch ≠ []) : Sound { d with pc := pc } :=
  ⟨h.nodup, h.once, hbatch, hstill, hcalling, h.rounds, h.finished⟩

theorem Sound.swap (h : d.Sound) (hbatch : d.batch = []) : d.swap.Sound := by
  refine ⟨h.nodup, fun i => ?_, nofun, nofun, nofun, fun c hc => ?_, h.finished⟩
  · have := h.once i
    simp only [places, Dispatcher.swap, hbatch] at this ⊢
    omega
  · have := (h.rounds c hc).1
    exact ⟨Nat.le_succ_of_le this, fun _ => Nat.lt_succ_of_le this⟩

section
variable (d : Dispatcher) (i : Nat) (batch : List Nat) (result : PollerResult)

@[simp] theorem returns_pc : (d.returns i batch result).pc = .poll := by
  unfold Dispatcher.returns
  split <;> rfl

@[simp] theorem returns_batch : (d.returns i batch result).batch = batch := by
  unfold Dispatcher.returns
  split <;> rfl

@[simp] theorem returns_pending : (d.returns i batch result).pending = d.pending := by
  unfold Dispatcher.returns
  split <;> rfl

@[simp] theorem returns_round : (d.returns i batch result).round = d.round := by
  unfold Dispatcher.returns
  split <;> rfl

@[simp] theorem returns_calls : (d.returns i batch result).calls =
    d.calls ++ [{ poller := i, round := d.round, result := result }] := by
  unfold Dispatcher.returns
  split <;> rfl

@[simp] theorem returns_stillPending : (d.returns i batch result).stillPending =
    if result = .pending then d.stillPending ++ [i] else d.stillPending := by
  unfold Dispatcher.returns
  split <;> rfl

end

/-- **A call that is over** leaves its poller behind in one place: among those that stay, or done. -/
theorem Sound.returns {batch : List Nat} (h : d.Sound) (hcut : d.batch = i :: batch) (result : PollerResult) :
    (d.returns i batch result).Sound := by
  have honce : i ∉ batch := fun hmem => by
    have hle := h.places_le i
    have := List.count_pos_iff.2 hmem
    rw [places, hcut, List.count_cons_self] at hle
    omega
  have hrounds : ∀ c ∈ d.calls ++ [⟨i, d.round, result⟩], c.round ≤ d.round ∧ (c.poller ∈ batch → c.round < d.round) := by
    intro c hc
    rcases List.mem_append.1 hc with hc | hc
    · exact ⟨(h.rounds c hc).1, fun hmem => (h.rounds c hc).2 (by rw [hcut]; exact List.mem_cons_of_mem i hmem)⟩
    · rw [List.mem_singleton.1 hc]
      exact ⟨Nat.le_refl _, fun hmem => absurd hmem honce⟩
  unfold Dispatcher.returns
  simp only
  split
  · rename_i hpending
    refine ⟨h.nodup, fun j => ?_, nofun, nofun, nofun, hrounds, fun j => ?_⟩
    · have := h.once j
      simp only [places, hcut, List.count_append, List.count_cons, List.count_nil] at this ⊢
      omega
    · rw [h.finished j]
      simp [or_and_right, exists_or, hpending]
  · rename_i hdone
    refine ⟨h.nodup, fun j => ?_, nofun, nofun, nofun, hrounds, fun j => ?_⟩
    · have := h.once j
      simp only [places, hcut, List.count_append, List.count_cons, List.count_nil] at this ⊢
      omega
    · rw [List.mem_append, h.finished j]
      simp [or_and_right, exists_or, hdone, eq_comm (a := i)]

theorem Sound.worker (h : d.Sound) (result : PollerResult) : (d.worker result).Sound := by
  unfold Dispatcher.worker
  split
  case h_1 hpc =>
    have hstill := h.stillPending (Or.inl hpc)
    have hbatch := h.batch (by simp [hpc]) (by simp [hpc])
    refine h.goto _ (fun _ _ => hbatch) (fun _ => hstill) (fun hc => ?_)
    split at hc <;> cases hc
  case h_2 => exact h
  case h_3 hpc =>
    have hbatch := h.batch (by simp [hpc]) (by simp [hpc])
    split
    · exact h.goto _ (fun _ _ => hbatch) (fun _ => h.stillPending (by simp [hpc])) nofun
    · exact h.swap hbatch
  case h_4 hpc => exact h.swap (h.batch (by simp [hpc]) (by simp [hpc]))
  case h_5 hpc hbatch =>
    refine h.goto _ (fun _ _ => hbatch) (fun hpc' => ?_) (fun hc => ?_)
    · by_contra hne
      simp [hne] at hpc'
    · split at hc <;> cases hc
  case h_6 hpc hbatch =>
    exact h.goto _ (fun _ hc => absurd rfl hc) nofun (fun _ => by rw [hbatch]; exact List.cons_ne_nil _ _)
  case h_7 hbatch => exact h.returns hbatch result
  case h_8 => exact h
  case h_9 hpc =>
    have hbatch := h.batch (by simp [hpc]) (by simp [hpc])
    refine ⟨h.nodup, fun i => ?_, fun _ _ => hbatch, fun _ => rfl, nofun, h.rounds, h.finished⟩
    have := h.once i
    simp only [places, List.count_append, List.count_nil] at this ⊢
    omega

/-- **Every turn keeps every poller in one place.** -/
theorem Sound.step (h : d.Sound) (t : PollerTurn) : (d.step t).Sound := by
  cases t with
  | add i => exact h.add i
  | notify => exact h.notify
  | spurious => exact h.wake
  | worker result => exact h.worker result

theorem sound_run (turns : List PollerTurn) : (runPollers turns).Sound :=
  Run.run_invariant (fun _ t h => h.step t) turns _ sound_start

/-- **A poller that is called was pending whenever it was called before**, in earlier rounds. -/
theorem Sound.calls (h : d.Sound) (hcalling : d.Calling i) {c : PollerCall} (hc : c ∈ d.calls) (hi : c.poller = i) :
    c.result = .pending ∧ c.round < d.round := by
  have hmem : i ∈ d.batch := List.mem_of_mem_head? hcalling.2
  refine ⟨?_, (h.rounds c hc).2 (hi ▸ hmem)⟩
  by_contra hne
  have hfinished := List.count_pos_iff.2 ((h.finished i).2 ⟨c, hc, hi, hne⟩)
  have hbatch := List.count_pos_iff.2 hmem
  have := h.places_le i
  rw [places] at this
  omega

/-! ## The next call -/

/-- A turn of the dispatcher's thread. -/
def IsWorker (t : PollerTurn) : Prop := ∃ result, t = .worker result

/-- Poller `i` waits for the round behind round `r`, and the thread is not in `cv_.wait`. -/
def Queued (i r : Nat) (d : Dispatcher) : Prop :=
  d.Sound ∧ d.round = r ∧ (i ∈ d.pending ∨ i ∈ d.stillPending) ∧ d.pc ≠ .blocked

/-- Poller `i` is still to be called in round `r`. -/
def Due (i r : Nat) (d : Dispatcher) : Prop :=
  d.Sound ∧ d.round = r ∧ i ∈ d.batch ∧ (d.pc = .poll ∨ d.pc = .calling ∧ d.batch.head? ≠ some i)

/-- The thread's turns in front of the next round, at most. -/
def turnsToRound (d : Dispatcher) : Nat :=
  match d.pc with
  | .poll => 2 * d.batch.length + 5
  | .calling => 2 * d.batch.length + 4
  | .insert => 3
  | .top => 2
  | .blocked | .woken | .dozing => 1

/-- The thread's turns in front of the call of poller `i`. -/
def turnsToCall (i : Nat) (d : Dispatcher) : Nat := 2 * d.batch.idxOf i + if d.pc = .poll then 1 else 0

/-- **A waiting poller waits on, one turn of the thread less**, or the round has come. -/
theorem Queued.worker (h : d.Queued i r) (result : PollerResult) : (d.worker result).Due i (r + 1) ∨
    (d.worker result).Queued i r ∧ (d.worker result).turnsToRound < d.turnsToRound := by
  obtain ⟨hsound, hround, hmem, hawake⟩ := h
  have hnext := hsound.worker result
  have hswap (hmem' : i ∈ d.pending) (he : d.worker result = d.swap) : (d.worker result).Due i (r + 1) := by
    rw [he] at hnext ⊢
    exact ⟨hnext, congrArg (· + 1) hround, hmem', Or.inl rfl⟩
  cases hpc : d.pc with
  | blocked => exact absurd hpc hawake
  | top =>
    have hpending := hmem.resolve_right (by simp [hsound.stillPending (Or.inl hpc)])
    have he : d.worker result = { d with pc := .dozing } := by
      simp [Dispatcher.worker, hpc, List.ne_nil_of_mem hpending]
    rw [he] at hnext ⊢
    exact Or.inr ⟨⟨hnext, hround, hmem, nofun⟩, by simp [turnsToRound, hpc]⟩
  | woken =>
    have hpending := hmem.resolve_right (by simp [hsound.stillPending (by simp [hpc])])
    exact Or.inl (hswap hpending (by simp [Dispatcher.worker, hpc, List.ne_nil_of_mem hpending]))
  | dozing =>
    have hpending := hmem.resolve_right (by simp [hsound.stillPending (by simp [hpc])])
    exact Or.inl (hswap hpending (by simp [Dispatcher.worker, hpc]))
  | poll =>
    right
    cases hbatch : d.batch with
    | nil =>
      have he : d.worker result = { d with pc := if d.stillPending = [] then .top else .insert } := by
        simp [Dispatcher.worker, hpc, hbatch]
      rw [he] at hnext ⊢
      refine ⟨⟨hnext, hround, hmem, ?_⟩, ?_⟩
      · simp only
        split <;> nofun
      · simp only [turnsToRound, hpc]
        split <;> (rename_i hto; split at hto <;> simp_all)
    | cons j batch =>
      have he : d.worker result = { d with pc := .calling } := by simp [Dispatcher.worker, hpc, hbatch]
      rw [he] at hnext ⊢
      exact ⟨⟨hnext, hround, hmem, nofun⟩, by simp [turnsToRound, hpc]⟩
  | calling =>
    right
    cases hbatch : d.batch with
    | nil => exact absurd hbatch (hsound.calling hpc)
    | cons j batch =>
      have he : d.worker result = d.returns j batch result := by simp [Dispatcher.worker, hpc, hbatch]
      rw [he] at hnext ⊢
      refine ⟨⟨hnext, by rw [returns_round, hround], ?_, by simp⟩, ?_⟩
      · rw [returns_pending, returns_stillPending]
        split
        · exact hmem.imp_right (List.mem_append_left [j])
        · exact hmem
      · simp [turnsToRound, hpc, hbatch]
        omega
  | insert =>
    right
    have he : d.worker result = { d with pending := d.pending ++ d.stillPending, stillPending := [], pc := .top } := by
      simp [Dispatcher.worker, hpc]
    rw [he] at hnext ⊢
    exact ⟨⟨hnext, hround, Or.inl (List.mem_append.2 hmem), nofun⟩, by simp [turnsToRound, hpc]⟩

/-- What the other threads do leaves the round, the batch and a thread that is not in `cv_.wait` as they are. -/
theorem step_other {t : PollerTurn} (ht : ¬ IsWorker t) : (d.step t).round = d.round ∧ (d.step t).batch = d.batch ∧
    (d.step t).stillPending = d.stillPending ∧ d.pending <+: (d.step t).pending ∧ (d.step t).calls = d.calls ∧
    (d.pc ≠ .blocked → (d.step t).pc = d.pc) := by
  have hwake : d.wake.round = d.round ∧ d.wake.batch = d.batch ∧ d.wake.stillPending = d.stillPending ∧
      d.pending <+: d.wake.pending ∧ d.wake.calls = d.calls ∧ (d.pc ≠ .blocked → d.wake.pc = d.pc) := by
    unfold Dispatcher.wake
    split
    · exact ⟨rfl, rfl, rfl, List.prefix_refl _, rfl, fun hne => absurd ‹_› hne⟩
    · exact ⟨rfl, rfl, rfl, List.prefix_refl _, rfl, fun _ => rfl⟩
  cases t with
  | worker result => exact absurd ⟨result, rfl⟩ ht
  | spurious => exact hwake
  | add i =>
    simp only [step, Dispatcher.add]
    split
    · exact ⟨rfl, rfl, rfl, List.prefix_refl _, rfl, fun _ => rfl⟩
    · exact ⟨rfl, rfl, rfl, List.prefix_append _ _, rfl, fun _ => rfl⟩
  | notify =>
    simp only [step, Dispatcher.notify]
    split
    · exact ⟨rfl, rfl, rfl, List.prefix_refl _, rfl, fun _ => rfl⟩
    · exact hwake

theorem Queued.step (h : d.Queued i r) (t : PollerTurn) : (d.step t).Due i (r + 1) ∨
    ((d.step t).Queued i r ∧ (d.step t).turnsToRound ≤ d.turnsToRound ∧
      (IsWorker t → (d.step t).turnsToRound < d.turnsToRound)) := by
  by_cases ht : IsWorker t
  · obtain ⟨result, rfl⟩ := ht
    exact (h.worker result).imp id fun ⟨hqueued, hlt⟩ => ⟨hqueued, Nat.le_of_lt hlt, fun _ => hlt⟩
  · obtain ⟨hround, hbatch, hstill, hpending, -, hpc⟩ := step_other (d := d) ht
    obtain ⟨hsound, hr, hmem, hawake⟩ := h
    refine Or.inr ⟨⟨hsound.step t, hround.trans hr, ?_, by rwa [hpc hawake]⟩, ?_, fun hw => absurd hw ht⟩
    · rw [hstill]
      exact hmem.imp_left (fun hi => hpending.subset hi)
    · rw [turnsToRound, turnsToRound, hpc hawake, hbatch]

/-- **A poller that is due stays due, one turn of the thread less**, or is called. -/
theorem Due.worker (h : d.Due i r) (result : PollerResult) :
    (d.worker result).Calling i ∧ (d.worker result).round = r ∨
    (d.worker result).Due i r ∧ (d.worker result).turnsToCall i < d.turnsToCall i := by
  obtain ⟨hsound, hround, hmem, hpc⟩ := h
  have hnext := hsound.worker result
  obtain ⟨j, batch, hbatch⟩ := List.exists_cons_of_ne_nil (List.ne_nil_of_mem hmem)
  rcases hpc with hpc | ⟨hpc, hother⟩
  · have he : d.worker result = { d with pc := .calling } := by simp [Dispatcher.worker, hpc, hbatch]
    rw [he] at hnext ⊢
    by_cases hj : d.batch.head? = some i
    · exact Or.inl ⟨⟨rfl, hj⟩, hround⟩
    · exact Or.inr ⟨⟨hnext, hround, hmem, Or.inr ⟨rfl, hj⟩⟩, by simp [turnsToCall, hpc]⟩
  · have he : d.worker result = d.returns j batch result := by simp [Dispatcher.worker, hpc, hbatch]
    have hne : j ≠ i := fun hji => hother (by rw [hbatch, hji]; rfl)
    rw [he] at hnext ⊢
    refine Or.inr ⟨⟨hnext, by rw [returns_round, hround], ?_, Or.inl (returns_pc ..)⟩, ?_⟩
    · rw [returns_batch]
      exact (List.mem_cons.1 (hbatch ▸ hmem)).resolve_left hne.symm
    · simp only [turnsToCall, returns_batch, returns_pc, hbatch, hpc, List.idxOf_cons_ne batch hne]
      simp
      omega

theorem Due.step (h : d.Due i r) (t : PollerTurn) : ((d.step t).Calling i ∧ (d.step t).round = r) ∨
    ((d.step t).Due i r ∧ (d.step t).turnsToCall i ≤ d.turnsToCall i ∧
      (IsWorker t → (d.step t).turnsToCall i < d.turnsToCall i)) := by
  by_cases ht : IsWorker t
  · obtain ⟨result, rfl⟩ := ht
    exact (h.worker result).imp id fun ⟨hdue, hlt⟩ => ⟨hdue, Nat.le_of_lt hlt, fun _ => hlt⟩
  · obtain ⟨hround, hbatch, -, -, -, hpc⟩ := step_other (d := d) ht
    obtain ⟨hsound, hr, hmem, hloop⟩ := h
    have hawake : d.pc ≠ .blocked := fun hb => by simp [hb] at hloop
    refine Or.inr ⟨⟨hsound.step t, hround.trans hr, by rwa [hbatch], by rwa [hbatch, hpc hawake]⟩, ?_,
      fun hw => absurd hw ht⟩
    rw [turnsToCall, turnsToCall, hpc hawake, hbatch]

/-! ## Schedules -/

/-- The dispatcher's thread is never kept out for ever. -/
def Fair (schedule : Nat → PollerTurn) : Prop := ∀ n, ∃ m, n ≤ m ∧ IsWorker (schedule m)

/-- The dispatcher in front of turn `n` of a schedule. -/
def upTo (schedule : Nat → PollerTurn) (n : Nat) : Dispatcher := after step {} schedule n

variable {schedule : Nat → PollerTurn}

theorem upTo_eq (schedule : Nat → PollerTurn) (n : Nat) :
    upTo schedule n = runPollers ((List.range n).map schedule) := rfl

theorem upTo_succ (schedule : Nat → PollerTurn) (n : Nat) :
    upTo schedule (n + 1) = (upTo schedule n).step (schedule n) :=
  LeadsTo.after_succ n

theorem sound_upTo (schedule : Nat → PollerTurn) (n : Nat) : (upTo schedule n).Sound := by
  rw [upTo_eq]
  exact sound_run _

/-- **A poller that is due is called**, sooner or later. -/
theorem due_leads (hfair : Fair schedule) (i r : Nat) :
    Leads step {} schedule (Due i r) (fun d => d.Calling i ∧ d.round = r) :=
  LeadsTo.leadsTo_of_rank (turnsToCall i) (fun _ t => IsWorker t) (fun _ t h => h.step t) (fun n _ => hfair n)

theorem queued_leads (hfair : Fair schedule) (i r : Nat) :
    Leads step {} schedule (Queued i r) (fun d => d.Calling i ∧ d.round = r + 1) :=
  (LeadsTo.leadsTo_of_rank turnsToRound (fun _ t => IsWorker t) (fun _ t h => h.step t) (fun n _ => hfair n)).trans
    (due_leads hfair i (r + 1))

/-- What a turn of the thread makes of the log: it is as it was, or a call is over. -/
theorem worker_calls (d : Dispatcher) (result : PollerResult) : (d.worker result).calls = d.calls ∨
    ∃ i batch, d.batch = i :: batch ∧ d.worker result = d.returns i batch result := by
  unfold Dispatcher.worker
  split
  case h_7 i batch _ hbatch => exact Or.inr ⟨i, batch, hbatch, rfl⟩
  case h_3 => left; split <;> rfl
  all_goals exact Or.inl rfl

/-- **A poller that stays is among the waiting ones** when its call is over. -/
theorem exists_queued {c : PollerCall} (hpending : c.result = .pending) : ∀ {n : Nat}, c ∈ (upTo schedule n).calls →
    ∃ m, (upTo schedule m).Queued c.poller c.round
  | 0, h => by cases h
  | n + 1, h => by
    have hnext := sound_upTo schedule (n + 1)
    rw [upTo_succ] at h
    by_cases ht : IsWorker (schedule n)
    · obtain ⟨result, ht⟩ := ht
      rw [ht] at h
      rcases (upTo schedule n).worker_calls result with he | ⟨i, batch, hbatch, he⟩
      · exact exists_queued hpending (he ▸ h)
      · rw [step, he, returns_calls, List.mem_append, List.mem_singleton] at h
        rcases h with h | rfl
        · exact exists_queued hpending h
        · refine ⟨n + 1, hnext, ?_, ?_, ?_⟩ <;> rw [upTo_succ, ht, step, he]
          · exact returns_round ..
          · rw [returns_stillPending, if_pos hpending]
            exact Or.inr (List.mem_append_right _ List.mem_cons_self)
          · rw [returns_pc]
            nofun
    · rw [(step_other ht).2.2.2.2.1] at h
      exact exists_queued hpending h

end Dispatcher

/-- **No poller is lost and none repeated.**  After any turns every poller that was added is in one place; it is done if a
call of it returned `true` or threw; and while it is called, all its calls before were pending ones, of earlier rounds.
On a schedule that lets the dispatcher's thread go on, a poller that stays is called in the next round. -/
theorem dispatcher_keeps_pollers :
    (∀ turns, (∀ i, (runPollers turns).places i = if i ∈ (runPollers turns).added then 1 else 0) ∧
      (∀ i, i ∈ (runPollers turns).finished ↔ ∃ c ∈ (runPollers turns).calls, c.poller = i ∧ c.result ≠ .pending) ∧
      ∀ i, (runPollers turns).Calling i → ∀ c ∈ (runPollers turns).calls, c.poller = i →
        c.result = .pending ∧ c.round < (runPollers turns).round) ∧
    ∀ schedule, Dispatcher.Fair schedule → ∀ n, ∀ c ∈ (Dispatcher.upTo schedule n).calls, c.result = .pending →
      ∃ m, (Dispatcher.upTo schedule m).Calling c.poller ∧ (Dispatcher.upTo schedule m).round = c.round + 1 := by
  refine ⟨fun turns => ?_, fun schedule hfair n c hc hpending => ?_⟩
  · have hsound := Dispatcher.sound_run turns
    exact ⟨hsound.places_eq, hsound.finished, fun i hcalling c hc hi => hsound.calls hcalling hc hi⟩
  · obtain ⟨m, hqueued⟩ := Dispatcher.exists_queued hpending hc
    obtain ⟨k, -, hcalling⟩ := Dispatcher.queued_leads hfair c.poller c.round m hqueued
    exact ⟨k, hcalling⟩

/-- Poller 7 is called in round one and stays; during the call poller 8 is added.  The thread runs on. -/
def twoPollers (n : Nat) : PollerTurn :=
  if n = 0 then .add 7 else if n = 4 then .add 8 else if n = 5 then .notify else .worker .pending

theorem twoPollers_calledAgain : (Dispatcher.upTo twoPollers 4).Calling 7 ∧ 8 ∈ (Dispatcher.upTo twoPollers 5).pending ∧
    ∃ m, (Dispatcher.upTo twoPollers m).Calling 7 ∧ (Dispatcher.upTo twoPollers m).round = 2 := by
  have hfair : Dispatcher.Fair twoPollers := by
    intro n
    refine ⟨n + 6, Nat.le_add_right n 6, .pending, ?_⟩
    simp [twoPollers]
  exact ⟨⟨by decide, by decide⟩, by decide,
    dispatcher_keeps_pollers.2 twoPollers hfair 7 { poller := 7, round := 1, result := .pending } (by decide) rfl⟩

/-! ## The pollers of wrapped futures -/

namespace AsyncFutureDispatcher

variable {held : Nat → FutureOutcome} {s : AsyncFutureDispatcher} {d : Dispatcher} {i : Nat}

/-- Where the thread is, and what is in front of it in the batch. -/
def ShowsPc (s : AsyncFutureDispatcher) (d : Dispatcher) : Prop :=
  match s.pc with
  | .wait => d.pc = .top ∧ s.batch = [] ∧ d.batch = []
  | .poll => d.pc = .poll ∧ d.batch = s.batch
  | .callSoon i _ => d.pc = .calling ∧ d.batch = i :: s.batch

/-- `d` has the futures' pollers where `s` has them. -/
structure Shows (s : AsyncFutureDispatcher) (d : Dispatcher) : Prop where
  pending : d.pending = s.pending
  stillPending : d.stillPending = s.stillPending
  added : ∀ i, i ∈ d.added ↔ s.futures i ≠ none
  pc : s.ShowsPc d

theorem Shows.modify (h : s.Shows d) (i : Nat) (f : Wrapped → Wrapped) : (s.modify i f).Shows d := by
  refine ⟨h.pending, h.stillPending, fun j => ?_, h.pc⟩
  rw [h.added, futures_modify]
  split <;> simp

theorem Shows.wrap (h : s.Shows d) (i : Nat) : (s.step held (.wrap i)).Shows (d.step (.add i)) := by
  simp only [step, Dispatcher.step, Dispatcher.add, h.added]
  cases hfuture : s.futures i with
  | some w =>
    rw [if_pos (by simp)]
    exact h
  | none =>
    rw [if_neg (by simp)]
    refine ⟨congrArg (· ++ [i]) h.pending, h.stillPending, fun j => ?_, h.pc⟩
    simp only [List.mem_append, h.added, Function.update_apply, List.mem_singleton]
    split
    · rename_i hj
      simp [hj]
    · rename_i hj
      simp [hj]

/-- A call of a poller is two turns of the thread. -/
theorem run_call {batch : List Nat} (hpc : d.pc = .poll) (hbatch : d.batch = i :: batch) (result : PollerResult) :
    run Dispatcher.step d [.worker .pending, .worker result] = { d with pc := .calling }.returns i batch result := by
  have hcalling : d.step (.worker .pending) = { d with pc := .calling } := by
    simp [Dispatcher.step, Dispatcher.worker, hpc, hbatch]
  rw [Run.run_cons, hcalling, Run.run_cons, Run.run_nil]
  simp [Dispatcher.step, Dispatcher.worker, hbatch]

theorem Shows.of_run {turns : List PollerTurn} {d' : Dispatcher} (hrun : run Dispatcher.step d turns = d')
    (h : s.Shows d') : ∃ turns, s.Shows (run Dispatcher.step d turns) :=
  ⟨turns, hrun ▸ h⟩

theorem Shows.dispatcherStep (h : s.Shows d) (soon : Bool) :
    ∃ turns, (s.dispatcherStep held soon).Shows (run Dispatcher.step d turns) := by
  have hpc := h.pc
  unfold AsyncFutureDispatcher.dispatcherStep
  unfold ShowsPc at hpc
  split
  case h_1 hs =>
    rw [hs] at hpc
    obtain ⟨hd, hsbatch, hbatch⟩ := hpc
    split
    · exact ⟨[], h⟩
    · rename_i hne
      have hswap : run Dispatcher.step d [.worker .pending, .worker .pending] = { d with pc := .dozing }.swap := by
        simp [Dispatcher.step, Dispatcher.worker, hd, h.pending, hne]
      exact Shows.of_run hswap ⟨hbatch.trans hsbatch.symm, h.stillPending, h.added, rfl, h.pending⟩
  case h_2 i batch hs hsbatch =>
    rw [hs] at hpc
    obtain ⟨hd, hbatch⟩ := hpc
    rw [hsbatch] at hbatch
    obtain he | ⟨he, _⟩ | ⟨callback, _, he⟩ := s.poller_cases held i batch
    · rw [he]
      refine Shows.of_run (run_call hd hbatch .pending) ⟨h.pending, congrArg (· ++ [i]) h.stillPending, h.added, ?_⟩
      simp [ShowsPc, hs]
    · rw [he]
      refine Shows.of_run (run_call hd hbatch .done) ⟨h.pending, h.stillPending, h.added, ?_⟩
      simp [ShowsPc, hs]
    · have hcalling : run Dispatcher.step d [.worker .pending] = { d with pc := .calling } := by
        simp [Dispatcher.step, Dispatcher.worker, hd, hbatch]
      rw [he]
      exact Shows.of_run hcalling ⟨h.pending, h.stillPending, h.added, rfl, hbatch⟩
  case h_3 hs hsbatch =>
    rw [hs] at hpc
    obtain ⟨hd, hbatch⟩ := hpc
    rw [hsbatch] at hbatch
    by_cases hstill : d.stillPending = []
    · have htop : run Dispatcher.step d [.worker .pending] = { d with pc := .top } := by
        simp [Dispatcher.step, Dispatcher.worker, hd, hbatch, hstill]
      refine Shows.of_run htop ⟨?_, hstill, h.added, rfl, hsbatch, hbatch⟩
      rw [← h.stillPending, hstill, List.append_nil]
      exact h.pending
    · have hinsert : run Dispatcher.step d [.worker .pending, .worker .pending] =
          { d with pending := d.pending ++ d.stillPending, stillPending := [], pc := .top } := by
        simp [Dispatcher.step, Dispatcher.worker, hd, hbatch, hstill]
      refine Shows.of_run hinsert ⟨?_, rfl, h.added, rfl, hsbatch, hbatch⟩
      simp only [h.pending, h.stillPending]
  case h_4 i callback hs =>
    rw [hs] at hpc
    obtain ⟨hd, hbatch⟩ := hpc
    have hdone : run Dispatcher.step d [.worker .done] = d.returns i s.batch .done := by
      simp [Dispatcher.step, Dispatcher.worker, hd, hbatch]
    apply Shows.of_run hdone
    split
    · have hm := h.modify i (fun w => { w with scheduled := some callback })
      exact ⟨hm.pending, hm.stillPending, hm.added, rfl, rfl⟩
    · exact ⟨h.pending, h.stillPending, h.added, rfl, rfl⟩

/-- **Every turn of the awaits is turns of the run loop**, or none. -/
theorem Shows.step (h : s.Shows d) (t : DispatcherTurn) : ∃ turns, (s.step held t).Shows (run Dispatcher.step d turns) := by
  cases t with
  | wrap i => exact ⟨[.add i], h.wrap i⟩
  | fulfil i => exact ⟨[], h.modify i _⟩
  | cancel i => exact ⟨[], h.modify i _⟩
  | loop i => exact ⟨[], h.modify i _⟩
  | dispatcher soon => exact h.dispatcherStep soon

/-- **The dispatcher of wrapped futures is one of pollers.** -/
theorem runDispatcher_shows (held : Nat → FutureOutcome) (turns : List DispatcherTurn) :
    ∃ turns', (runDispatcher held turns).Shows (runPollers turns') := by
  induction turns using List.reverseRecOn with
  | nil => exact ⟨[], rfl, rfl, fun i => by simp [runPollers, runDispatcher], rfl, rfl, rfl⟩
  | append_singleton turns t ih =>
    obtain ⟨turns', h⟩ := ih
    obtain ⟨more, hmore⟩ := h.step t
    rw [runPollers, ← Run.run_append] at hmore
    exact ⟨turns' ++ more, by rwa [runDispatcher, Run.run_concat]⟩

end AsyncFutureDispatcher

end PyNetX
