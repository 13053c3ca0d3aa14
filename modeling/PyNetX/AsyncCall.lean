import Mathlib.Data.Prod.Lex
import PyNetX.Dispatcher
import PyNetX.PoolLive
/-!
# AsyncCall — an awaited call, from the pool to the event loop

Every `*_async` method enqueues its task, and `wrap_future` hands its future to the dispatcher.  The pool and the
dispatcher take their turns beside each other; a task that ends makes its future ready, and that is all one does to the
other.  An await gets what its own task came to, and not before (`await_gets_its_task`); on a schedule that keeps nobody
out, it returns (`every_await_returns`, in AwaitLive).
-/
namespace PyNetX

open Run (run Along)
open LeadsTo (after Leads)

/-- The pool, the wrapped futures of its tasks, and the tasks that have come to their end. -/
structure AsyncCalls where
  pool : ThreadPool := {}
  awaits : AsyncFutureDispatcher := {}
  ended : List Nat := []

inductive AsyncTurn where
  | pool (t : PoolTurn)
  /-- The thread that has called `enqueue` wraps the future it returned. -/
  | wrap (p : Nat)
  | cancel (p : Nat)
  | dispatcher (soon : Bool)
  | loop (p : Nat)

/-- The task that the turn ends. -/
def PoolTurn.ends (n : Nat) (s : ThreadPool) : PoolTurn → Option Nat
  | .taskEnds i _ =>
    if i < n then
      match (s.workers i).pc with
      | .running p => some p
      | _ => none
    else none
  | _ => none

/-- What a turn is to the pool: `taskEnds n` is none of a pool of `n` workers. -/
def AsyncTurn.poolTurn (n : Nat) : AsyncTurn → PoolTurn
  | .pool t => t
  | _ => .taskEnds n false

namespace AsyncCalls

/-- What a turn is to the futures: the end of a task makes its future ready, and one that is wrapped behind its task's
end is ready at once. -/
def awaitTurns (n : Nat) (s : AsyncCalls) : AsyncTurn → List DispatcherTurn
  | .pool t =>
    match t.ends n s.pool with
    | some p => [.fulfil p]
    | none => []
  | .wrap p =>
    match s.pool.callers p with
    | .returned _ => if p ∈ s.ended then [.wrap p, .fulfil p] else [.wrap p]
    | _ => []
  | .cancel p => [.cancel p]
  | .dispatcher soon => [.dispatcher soon]
  | .loop p => [.loop p]

/-- A turn, when the future of call `p` holds `held p` once its task is over. -/
def step (n : Nat) (held : Nat → FutureOutcome) (s : AsyncCalls) (t : AsyncTurn) : AsyncCalls where
  pool := s.pool.step n (t.poolTurn n)
  awaits := run (AsyncFutureDispatcher.step held) s.awaits (s.awaitTurns n t)
  ended := s.ended ++ ((t.poolTurn n).ends n s.pool).toList

end AsyncCalls

def runAsync (n : Nat) (held : Nat → FutureOutcome) (turns : List AsyncTurn) : AsyncCalls :=
  run (AsyncCalls.step n held) {} turns

/-! ## What an await gets -/

/-- The future is not set, or to what its task came to. -/
def FutureState.Of (o : FutureOutcome) : FutureState → Prop
  | .pending | .cancelled => True
  | .result obj => ∃ v, o = .ok v ∧ v.toPython = some obj
  | .exception obj => ∃ e, o = .error e ∧ pythonExceptionFromCppException e = some obj

def FutureState.IsSet : FutureState → Prop
  | .result _ | .exception _ => True
  | .pending | .cancelled => False

/-- A callback that is set makes the future what its task came to. -/
theorem FutureState.of_set {o : FutureOutcome} {callback : FutureCallback} {future : FutureState}
    (hmade : AsyncFutureDispatcher.callbackOf o = some callback) (hset : callback.set = some future) : future.Of o := by
  cases o with
  | ok v =>
    obtain rfl := Option.some.inj hmade
    obtain ⟨obj, hobj, rfl⟩ := Option.map_eq_some_iff.1 hset
    exact ⟨v, rfl, hobj⟩
  | error e =>
    obtain ⟨obj, hobj, rfl⟩ := Option.map_eq_some_iff.1 hmade
    obtain rfl := Option.some.inj hset
    exact ⟨e, rfl, hobj⟩

/-- A future that has a callback, or is set, is a ready one, and what it is set to is its task's. -/
structure Wrapped.FromTask (o : FutureOutcome) (w : Wrapped) : Prop where
  value : w.future.Of o
  ready : w.scheduled.isSome ∨ w.future.IsSet → w.ready = true

namespace Wrapped

variable {o : FutureOutcome} {w : Wrapped}

theorem FromTask.cancel (h : w.FromTask o) : w.cancel.FromTask o := by
  obtain ⟨_, he⟩ | ⟨_, he⟩ := w.cancel_cases
  · rwa [he]
  · rw [he]
    exact ⟨trivial, fun hset => h.ready (hset.imp_right False.elim)⟩

theorem FromTask.runCallback (h : w.FromTask o) (hok : w.Ok o) : w.runCallback.FromTask o := by
  obtain ⟨_, he⟩ | ⟨callback, hscheduled, ⟨_, he⟩ | ⟨_, _, he⟩ | ⟨_, future, hset, he⟩⟩ := w.runCallback_cases
  · rwa [he]
  · rw [he]
    exact ⟨h.value, fun hset => h.ready (hset.imp_left fun hnone => by cases hnone)⟩
  · rw [he]
    exact ⟨h.value, fun hset => h.ready (hset.imp_left fun hnone => by cases hnone)⟩
  · rw [he]
    refine ⟨FutureState.of_set (hok.scheduled callback hscheduled) hset, fun _ => h.ready (Or.inl ?_)⟩
    rw [hscheduled]
    rfl

end Wrapped

namespace AsyncFutureDispatcher

variable {held : Nat → FutureOutcome} {s : AsyncFutureDispatcher} {i j : Nat}

/-- **The invariant** of future `i`: it is its task's, and so is a callback that a poller has in hand. -/
structure FromTask (held : Nat → FutureOutcome) (i : Nat) (s : AsyncFutureDispatcher) : Prop where
  sound : s.Sound held i
  wrapped : ∀ w, s.futures i = some w → w.FromTask (held i)
  inHand : ∀ callback, s.pc = .callSoon i callback → ∃ w, s.futures i = some w ∧ w.ready = true

theorem FromTask.wrapped_modify {f : Wrapped → Wrapped} (h : s.FromTask held i)
    (hf : ∀ w, s.futures i = some w → i = j → (f w).FromTask (held i)) {w : Wrapped}
    (hw : (s.modify j f).futures i = some w) : w.FromTask (held i) := by
  rw [futures_modify] at hw
  split at hw
  · obtain ⟨w, hold, rfl⟩ := Option.map_eq_some_iff.1 hw
    exact hf w hold ‹_›
  · exact h.wrapped w hw

theorem FromTask.modify {f : Wrapped → Wrapped} (h : s.FromTask held i) (hsound : (s.modify j f).Sound held i)
    (hf : ∀ w, w.Ok (held i) → w.FromTask (held i) → (f w).FromTask (held i))
    (hready : ∀ w, w.ready = true → (f w).ready = true) : (s.modify j f).FromTask held i := by
  refine ⟨hsound, fun _ => h.wrapped_modify fun w hw _ => hf w (h.sound.wrapped w hw) (h.wrapped w hw),
    fun callback hpc => ?_⟩
  obtain ⟨w, hw, hwready⟩ := h.inHand callback hpc
  rw [futures_modify, hw]
  split
  · exact ⟨f w, rfl, hready w hwready⟩
  · exact ⟨w, rfl, hwready⟩

/-- **What a turn of the dispatcher's thread does.** -/
inductive DispatcherMove (held : Nat → FutureOutcome) (s : AsyncFutureDispatcher) (soon : Bool) :
    AsyncFutureDispatcher → Prop where
  | idle (hpc : s.pc = .wait) (hnone : s.pending = []) : DispatcherMove held s soon s
  | swap (hpc : s.pc = .wait) :
      DispatcherMove held s soon { s with pending := s.batch, batch := s.pending, pc := .poll }
  /-- The task is not over: the poller stays. -/
  | stays {i : Nat} {batch : List Nat} (hpc : s.pc = .poll) (hbatch : s.batch = i :: batch)
      (hready : ∀ w, s.futures i = some w → w.ready = false) :
      DispatcherMove held s soon { s with batch := batch, stillPending := s.stillPending ++ [i] }
  /-- The future is done, or there is no callback for it. -/
  | drops {i : Nat} {batch : List Nat} (hpc : s.pc = .poll) (hbatch : s.batch = i :: batch)
      (hdone : ∀ w, s.futures i = some w → w.Done ∨ callbackOf (held i) = none) :
      DispatcherMove held s soon { s with batch := batch }
  | calls {i : Nat} {batch : List Nat} {w : Wrapped} {callback : FutureCallback} (hpc : s.pc = .poll)
      (hbatch : s.batch = i :: batch) (hw : s.futures i = some w) (hready : w.ready = true)
      (hcallback : callbackOf (held i) = some callback) :
      DispatcherMove held s soon { s with batch := batch, pc := .callSoon i callback }
  | ends (hpc : s.pc = .poll) (hbatch : s.batch = []) :
      DispatcherMove held s soon { s with pending := s.pending ++ s.stillPending, stillPending := [], pc := .wait }
  | soon {i : Nat} {callback : FutureCallback} (hpc : s.pc = .callSoon i callback) :
      DispatcherMove held s soon
        { (if soon then s.modify i (fun w => { w with scheduled := some callback }) else s) with pc := .poll }

theorem dispatcherStep_move (held : Nat → FutureOutcome) (s : AsyncFutureDispatcher) (soon : Bool) :
    DispatcherMove held s soon (s.dispatcherStep held soon) := by
  unfold AsyncFutureDispatcher.dispatcherStep
  split
  · rename_i hpc
    split
    · exact .idle hpc ‹_›
    · exact .swap hpc
  · rename_i j batch hpc hbatch
    unfold poller
    split
    · rename_i hnone
      exact .drops hpc hbatch fun w hw => by cases hnone.symm.trans hw
    · rename_i w hw
      have hsame {w'} (hw' : s.futures j = some w') : w' = w := Option.some.inj (hw'.symm.trans hw)
      split
      · rename_i hready
        exact .stays hpc hbatch fun w' hw' => hsame hw' ▸ hready
      · rename_i hready hpending
        split
        · exact .calls hpc hbatch hw hready ‹_›
        · exact .drops hpc hbatch fun _ _ => Or.inr ‹_›
      · rename_i hdone
        exact .drops hpc hbatch fun w' hw' => Or.inl (hsame hw' ▸ hdone)
  · exact .ends ‹_› ‹_›
  · exact .soon ‹_›

theorem FromTask.dispatcherStep (h : s.FromTask held i) (soon : Bool) : (s.dispatcherStep held soon).FromTask held i := by
  have hsound := h.sound.dispatcherStep soon
  have hmove := dispatcherStep_move held s soon
  generalize s.dispatcherStep held soon = s' at hsound hmove
  cases hmove with
  | idle => exact h
  | swap | ends => exact ⟨hsound, h.wrapped, fun _ hpc => DispatcherPc.noConfusion hpc⟩
  | stays | drops => exact ⟨hsound, h.wrapped, h.inHand⟩
  | calls _ _ hw hready =>
    refine ⟨hsound, h.wrapped, fun callback' hpc' => ?_⟩
    injection hpc' with hij
    exact ⟨_, hij ▸ hw, hready⟩
  | @soon j callback hpc =>
    refine ⟨hsound, fun w hw => ?_, fun _ hpc => DispatcherPc.noConfusion hpc⟩
    cases soon with
    | false => exact h.wrapped w hw
    | true =>
      have hw' : (s.modify j (fun w => { w with scheduled := some callback })).futures i = some w := hw
      refine h.wrapped_modify ?_ hw'
      refine fun w hold hij => ⟨(h.wrapped w hold).value, fun _ => ?_⟩
      -- the poller had found the future ready
      obtain ⟨w', hw', hready⟩ := h.inHand callback (hij ▸ hpc)
      exact Option.some.inj (hw'.symm.trans hold) ▸ hready

theorem FromTask.step (h : s.FromTask held i) (t : DispatcherTurn) : (s.step held t).FromTask held i := by
  have hsound := h.sound.step t
  cases t with
  | wrap j =>
    simp only [AsyncFutureDispatcher.step] at hsound ⊢
    cases hj : s.futures j with
    | some w => exact h
    | none =>
      rw [hj] at hsound
      refine ⟨hsound, fun w hw => ?_, fun callback hpc => ?_⟩
      · simp only [Function.update_apply] at hw
        split at hw
        · obtain rfl := Option.some.inj hw
          exact ⟨trivial, fun hset => by rcases hset with h | h <;> cases h⟩
        · exact h.wrapped w hw
      · obtain ⟨w, hw, hready⟩ := h.inHand callback hpc
        refine ⟨w, ?_, hready⟩
        simp only [Function.update_apply]
        split
        · rename_i hij
          cases (hij ▸ hw).symm.trans hj
        · exact hw
  | fulfil j => exact h.modify hsound (fun w _ hw => ⟨hw.value, fun _ => rfl⟩) fun _ _ => rfl
  | cancel j =>
    refine h.modify hsound (fun w _ hw => hw.cancel) fun w hw => ?_
    rcases w.cancel_cases with ⟨_, he⟩ | ⟨_, he⟩ <;> rw [he] <;> exact hw
  | dispatcher soon => exact h.dispatcherStep soon
  | loop j =>
    refine h.modify hsound (fun w hok hw => hw.runCallback hok) fun w hw => ?_
    obtain ⟨_, he⟩ | ⟨_, _, ⟨_, he⟩ | ⟨_, _, he⟩ | ⟨_, _, _, he⟩⟩ := w.runCallback_cases <;> rw [he] <;> exact hw

/-- What `wait_for` finds, of a future that is wrapped. -/
def ready (s : AsyncFutureDispatcher) (i : Nat) : Option Bool := (s.futures i).map Wrapped.ready

theorem ready_modify {f : Wrapped → Wrapped} (hf : ∀ w, (f w).ready = w.ready) : (s.modify j f).ready i = s.ready i := by
  unfold ready
  rw [futures_modify]
  split
  · rw [Option.map_map]
    exact congrArg (fun g => Option.map g (s.futures i)) (funext hf)
  · rfl

theorem ready_fulfil (held : Nat → FutureOutcome) :
    (s.step held (.fulfil j)).ready i = if i = j then (s.ready i).map (fun _ => true) else s.ready i := by
  unfold ready AsyncFutureDispatcher.step
  rw [futures_modify]
  split
  · rw [Option.map_map, Option.map_map]
    rfl
  · rfl

theorem ready_wrap (held : Nat → FutureOutcome) :
    (s.step held (.wrap j)).ready i = if i = j then some ((s.ready i).getD false) else s.ready i := by
  simp only [ready, AsyncFutureDispatcher.step]
  by_cases hij : i = j
  · subst hij
    cases hi : s.futures i <;> simp [hi]
  · cases hj : s.futures j <;> simp [hij]

theorem ready_cancel (held : Nat → FutureOutcome) : (s.step held (.cancel j)).ready i = s.ready i :=
  ready_modify fun w => by obtain ⟨_, he⟩ | ⟨_, he⟩ := w.cancel_cases <;> rw [he]

theorem ready_loop (held : Nat → FutureOutcome) : (s.step held (.loop j)).ready i = s.ready i :=
  ready_modify fun w => by
    obtain ⟨_, he⟩ | ⟨_, _, ⟨_, he⟩ | ⟨_, _, he⟩ | ⟨_, _, _, he⟩⟩ := w.runCallback_cases <;> rw [he]

theorem ready_dispatcher (held : Nat → FutureOutcome) (soon : Bool) :
    (s.step held (.dispatcher soon)).ready i = s.ready i := by
  have hmove := dispatcherStep_move held s soon
  simp only [AsyncFutureDispatcher.step]
  generalize s.dispatcherStep held soon = s' at hmove
  cases hmove with
  | idle | swap | stays | drops | calls | ends => rfl
  | soon =>
    cases soon with
    | false => rfl
    | true => exact ready_modify fun w => rfl

end AsyncFutureDispatcher

/-! ## What a pool's turn ends -/

namespace ThreadPool

variable {n i p q : Nat} {s : ThreadPool} {t : PoolTurn}

/-- Task `p` has come to its end, on worker `i`. -/
def FinishedAt (s : ThreadPool) (i p : Nat) : Prop := p ∈ (s.workers i).executed ∧ (s.workers i).pc ≠ .running p

def Finished (s : ThreadPool) (p : Nat) : Prop := ∃ i, s.FinishedAt i p

theorem ends_some (h : t.ends n s = some q) : ∃ i < n, (s.workers i).pc = .running q ∧
    s.step n t = s.setWorker i { s.workers i with pc := .lock } := by
  cases t with
  | taskEnds i threw =>
    simp only [PoolTurn.ends] at h
    split at h
    · rename_i hi
      split at h
      · rename_i task hpc
        obtain rfl := Option.some.inj h
        exact ⟨i, hi, hpc, by simp [ThreadPool.step, hi, taskEnds, hpc]⟩
      · cases h
    · cases h
  | worker | spurious | caller | destructor => cases h

/-- A turn that ends no task leaves a worker where it runs one. -/
theorem running_stays (h : t.ends n s = none) (hpc : (s.workers i).pc = .running p) :
    ((s.step n t).workers i).pc = .running p := by
  have hnotified : (s.workers i).notified.pc = .running p := by
    rw [Worker.notified, if_neg (by rw [hpc]; exact fun he => by cases he), hpc]
  cases t with
  | worker j =>
    simp only [ThreadPool.step]
    split
    · by_cases hij : i = j
      · subst hij
        simp [workerStep, hpc]
      · obtain he | ⟨w', _, he⟩ := workerStep_cases s j
        · rw [he, hpc]
        · rw [he, setWorker_ne hij, hpc]
    · exact hpc
  | spurious j =>
    simp only [ThreadPool.step]
    split
    · by_cases hij : i = j
      · subst hij
        exact (congrArg Worker.pc setWorker_self).trans hnotified
      · exact (congrArg Worker.pc (setWorker_ne hij)).trans hpc
    · exact hpc
  | taskEnds j threw =>
    simp only [ThreadPool.step]
    split
    · rename_i hj
      unfold taskEnds
      split
      · rename_i task hj'
        simp [PoolTurn.ends, hj, hj'] at h
      · exact hpc
    · exact hpc
  | caller q room =>
    obtain he | ⟨c', hm⟩ := callerStep_cases n s q room
    · rw [ThreadPool.step, he, hpc]
    · obtain ⟨_, _, hw⟩ := CallerMove.frame hm
      rcases hw i with he | he
      · exact he.trans hpc
      · exact he.trans hnotified
  | destructor =>
    obtain he | hm := destructorStep_cases n s
    · rw [ThreadPool.step, he, hpc]
    · rw [ThreadPool.step]
      generalize s.destructorStep n = s' at hm
      cases hm with
      | stop | notified | join | joined => exact hpc
      | @notify j _ _ =>
        by_cases hij : i = j
        · subst hij
          exact (congrArg Worker.pc setWorker_self).trans hnotified
        · exact (congrArg Worker.pc (setWorker_ne hij)).trans hpc

theorem notified_pc_running (w : Worker) : w.notified.pc = .running p ↔ w.pc = .running p := by
  unfold Worker.notified
  split
  · rename_i hpc
    simp [hpc]
  · rfl

theorem finishedAt_congr {s' : ThreadPool} (hexecuted : (s'.workers i).executed = (s.workers i).executed)
    (hpc : (s'.workers i).pc = .running p ↔ (s.workers i).pc = .running p) : s'.FinishedAt i p ↔ s.FinishedAt i p := by
  simp only [FinishedAt, hexecuted, ne_eq, hpc]

/-- **What a turn that ends no task is to the finished ones**: nothing. -/
theorem Sees.finishedAt {s' : ThreadPool} (hs : Sees s s' i) (hok : WorkerOk s i)
    (hstays : ∀ task, (s.workers i).pc = .running task → (s'.workers i).pc = .running task) :
    s'.FinishedAt i p ↔ s.FinishedAt i p := by
  have hnotified (hw : s'.workers i = (s.workers i).notified) : s'.FinishedAt i p ↔ s.FinishedAt i p :=
    finishedAt_congr (by rw [hw, notified_eq]) (by rw [hw]; exact notified_pc_running _)
  cases hs with
  | same _ hw | away _ hw _ _ => exact finishedAt_congr (by rw [hw]) (by rw [hw])
  | notified _ hw => exact hnotified hw
  | move _ hm =>
    generalize hw : s'.workers i = w' at hm
    cases hm with
    | enter hpc =>
      refine finishedAt_congr (by rw [hw]) ?_
      rcases hpc with hpc | hpc <;> simp [hw, hpc]
    | awake hpc | drowse hpc | block hpc | wake hpc | exit hpc | pop hpc =>
      exact finishedAt_congr (by rw [hw]) (by simp [hw, hpc])
    | ended hpc =>
      have := hstays _ hpc
      rw [hw] at this
      cases this
    | @countOff task hpc =>
      -- the task that begins was not among those that have run
      have hnew : task ∉ (s.workers i).executed := by
        have honce := hok.once
        rw [← hok.ordered, hpc, WorkerPc.popped, List.append_assoc] at honce
        exact fun hmem => (List.nodup_append.1 honce).2.2 task hmem task (by simp) rfl
      simp only [FinishedAt, hw, hpc, List.mem_append, List.mem_singleton]
      constructor
      · rintro ⟨hmem | rfl, hne⟩
        · exact ⟨hmem, fun he => by cases he⟩
        · exact absurd rfl hne
      · rintro ⟨hmem, _⟩
        exact ⟨Or.inl hmem, fun he => hnew (WorkerPc.running.inj he ▸ hmem)⟩
  | call _ hm =>
    generalize hw : s'.workers i = w' at hm
    generalize s.callers _ = c at hm
    cases hm with
    | enter | emplace | throw | count | leave => exact finishedAt_congr (by rw [hw]) (by rw [hw])
    | notify => exact hnotified hw

/-- A task that runs is among those that have been run. -/
theorem Sees.running {s' : ThreadPool} (hs : Sees s s' i)
    (h : ∀ task, (s.workers i).pc = .running task → task ∈ (s.workers i).executed) (task : Nat)
    (hpc : (s'.workers i).pc = .running task) : task ∈ (s'.workers i).executed := by
  have hnotified (hpc : (s.workers i).notified.pc = .running task) : task ∈ (s.workers i).notified.executed := by
    rw [notified_eq]
    exact h task ((notified_pc_running _).1 hpc)
  cases hs with
  | same _ hw | away _ hw _ _ =>
    rw [hw] at hpc ⊢
    exact h task hpc
  | notified _ hw =>
    rw [hw] at hpc ⊢
    exact hnotified hpc
  | move _ hm =>
    generalize s'.workers i = w' at hm hpc ⊢
    cases hm with
    | countOff => exact List.mem_append_right _ (List.mem_singleton.2 (WorkerPc.running.inj hpc).symm)
    | enter | awake | drowse | block | wake | exit | pop | ended => cases hpc
  | call _ hm =>
    generalize s'.workers i = w' at hm hpc ⊢
    generalize s.callers _ = c at hm
    cases hm with
    | enter | emplace | throw | count | leave => exact h task hpc
    | notify => exact hnotified hpc

theorem running_executed (turns : List PoolTurn) (i task : Nat) (hpc : ((runPool n turns).workers i).pc = .running task) :
    task ∈ ((runPool n turns).workers i).executed :=
  Run.run_invariant
    (I := fun s : ThreadPool => ∀ task, (s.workers i).pc = .running task → task ∈ (s.workers i).executed)
    (fun s t h => (step_sees n s t i).running h) turns {} (fun _ h => by cases h) task hpc

/-- A task is run by the one worker that its call has chosen. -/
theorem executed_placed (hs : Reached n s) (hi : p ∈ (s.workers i).executed) : (s.callers p).placed = some i := by
  refine ((hs.ok i).placed p).1 ?_
  rw [← (hs.ok i).ordered, List.append_assoc]
  exact List.mem_append_left _ hi

theorem executed_unique (hs : Reached n s) {j : Nat} (hi : p ∈ (s.workers i).executed) (hj : p ∈ (s.workers j).executed) :
    i = j :=
  Option.some.inj ((executed_placed hs hi).symm.trans (executed_placed hs hj))

theorem returned_executed (hs : Reached n s) {j : Nat} (hcall : s.callers p = .returned i)
    (hj : p ∈ (s.workers j).executed) : i = j := by
  have hplaced := executed_placed hs hj
  rw [hcall] at hplaced
  exact Option.some.inj hplaced

theorem finished_none (hs : Reached n s) (ht : t.ends n s = none) : (s.step n t).Finished p ↔ s.Finished p :=
  exists_congr fun i => (step_sees n s t i).finishedAt (hs.ok i) fun _ => running_stays ht

/-- **The turn that ends a task finishes it**, and no other. -/
theorem finished_some (hs : Reached n s) (ht : t.ends n s = some q) :
    ¬ s.Finished q ∧ ((s.step n t).Finished p ↔ s.Finished p ∨ p = q) := by
  obtain ⟨i, _, hpc, he⟩ := ends_some ht
  have hq : q ∈ (s.workers i).executed := by
    obtain ⟨turns, rfl⟩ := hs
    exact running_executed turns i q hpc
  constructor
  · rintro ⟨j, hj, hne⟩
    obtain rfl := executed_unique hs hq hj
    exact hne hpc
  · rw [he]
    constructor
    · rintro ⟨j, hj, hne⟩
      by_cases hji : j = i
      · subst hji
        rw [setWorker_self] at hj
        by_cases hpq : p = q
        · exact Or.inr hpq
        · exact Or.inl ⟨j, hj, by rw [hpc]; exact fun he => hpq (WorkerPc.running.inj he).symm⟩
      · rw [setWorker_ne hji] at hj hne
        exact Or.inl ⟨j, hj, hne⟩
    · rintro (⟨j, hj, hne⟩ | rfl)
      · refine ⟨j, ?_⟩
        by_cases hji : j = i
        · subst hji
          simpa [FinishedAt] using hj
        · simpa [FinishedAt, setWorker_ne hji] using ⟨hj, hne⟩
      · exact ⟨i, by simpa [FinishedAt] using hq⟩

end ThreadPool

/-! ## The two beside each other -/

namespace AsyncCalls

variable {n p : Nat} {held : Nat → FutureOutcome} {s : AsyncCalls} {t : AsyncTurn}

/-- **The invariant**: the ended tasks are the pool's finished ones, each once; a wrapped future is that of a call that
has returned, and it is ready if and only if its task has ended. -/
structure Sound (n : Nat) (held : Nat → FutureOutcome) (s : AsyncCalls) : Prop where
  pool : ThreadPool.Reached n s.pool
  futures : ∀ p, s.awaits.FromTask held p
  ended : ∀ p, p ∈ s.ended ↔ s.pool.Finished p
  once : s.ended.Nodup
  ready : ∀ p b, s.awaits.ready p = some b → (∃ i, s.pool.callers p = .returned i) ∧ (b = true ↔ p ∈ s.ended)

theorem Sound.ended_step (h : s.Sound n held) : (∀ p, p ∈ (s.step n held t).ended ↔ (s.step n held t).pool.Finished p) ∧
    (s.step n held t).ended.Nodup := by
  simp only [step]
  cases hends : (t.poolTurn n).ends n s.pool with
  | none =>
    rw [Option.toList_none, List.append_nil]
    exact ⟨fun p => (h.ended p).trans (ThreadPool.finished_none h.pool hends).symm, h.once⟩
  | some q =>
    have hfinished := fun p => ThreadPool.finished_some (p := p) h.pool hends
    constructor
    · intro p
      rw [(hfinished p).2, Option.toList_some, List.mem_append, List.mem_singleton, h.ended]
    · refine List.Nodup.append h.once (List.nodup_singleton q) ?_
      rw [Option.toList_some, List.disjoint_singleton, h.ended]
      exact (hfinished q).1

/-- **What a turn is to a wrapped future's readiness.** -/
theorem Sound.ready_step (h : s.Sound n held) {b : Bool} (hb : (s.step n held t).awaits.ready p = some b) :
    (∃ i, (s.step n held t).pool.callers p = .returned i) ∧ (b = true ↔ p ∈ (s.step n held t).ended) := by
  have hreturned (hcall : ∃ i, s.pool.callers p = .returned i) : ∃ i, (s.step n held t).pool.callers p = .returned i :=
    hcall.imp fun _ hi => ThreadPool.returned_stays hi _
  have hsame (ht : (t.poolTurn n).ends n s.pool = none) (hr : (s.step n held t).awaits.ready p = s.awaits.ready p) :
      (∃ i, (s.step n held t).pool.callers p = .returned i) ∧ (b = true ↔ p ∈ (s.step n held t).ended) := by
    obtain ⟨hcall, hiff⟩ := h.ready p b (hr ▸ hb)
    refine ⟨hreturned hcall, ?_⟩
    simpa [step, ht] using hiff
  have hnone : (PoolTurn.taskEnds n false).ends n s.pool = none := by simp [PoolTurn.ends]
  cases t with
  | cancel q => exact hsame hnone (AsyncFutureDispatcher.ready_cancel held)
  | loop q => exact hsame hnone (AsyncFutureDispatcher.ready_loop held)
  | dispatcher soon => exact hsame hnone (AsyncFutureDispatcher.ready_dispatcher held soon)
  | pool t =>
    cases hends : t.ends n s.pool with
    | none =>
      refine hsame hends ?_
      simp [step, awaitTurns, hends]
    | some q =>
      have hready : (s.step n held (.pool t)).awaits.ready p =
          if p = q then (s.awaits.ready p).map (fun _ => true) else s.awaits.ready p := by
        simp only [step, awaitTurns, hends]
        exact AsyncFutureDispatcher.ready_fulfil held
      rw [hready] at hb
      have hended : (s.step n held (.pool t)).ended = s.ended ++ [q] := by simp [step, AsyncTurn.poolTurn, hends]
      rw [hended, List.mem_append, List.mem_singleton]
      split at hb
      · obtain ⟨b', hb', rfl⟩ := Option.map_eq_some_iff.1 hb
        exact ⟨hreturned (h.ready p b' hb').1, fun _ => Or.inr ‹_›, fun _ => rfl⟩
      · rename_i hpq
        obtain ⟨hcall, hiff⟩ := h.ready p b hb
        exact ⟨hreturned hcall, hiff.trans (or_iff_left hpq).symm⟩
  | wrap q =>
    cases hq : s.pool.callers q with
    | returned i =>
      have hended : (s.step n held (.wrap q)).ended = s.ended := by simp [step, AsyncTurn.poolTurn, hnone]
      have hpool : (s.step n held (.wrap q)).pool.callers q = .returned i := ThreadPool.returned_stays hq _
      by_cases hpq : p = q
      · subst hpq
        refine ⟨⟨i, hpool⟩, ?_⟩
        rw [hended]
        by_cases hmem : p ∈ s.ended
        · have hready : (s.step n held (.wrap p)).awaits.ready p = some true := by
            simp [step, awaitTurns, hq, hmem, AsyncFutureDispatcher.ready_fulfil, AsyncFutureDispatcher.ready_wrap]
          rw [← Option.some.inj (hready.symm.trans hb)]
          exact iff_of_true rfl hmem
        · have hready : (s.step n held (.wrap p)).awaits.ready p = some ((s.awaits.ready p).getD false) := by
            simp [step, awaitTurns, hq, hmem, AsyncFutureDispatcher.ready_wrap]
          rw [← Option.some.inj (hready.symm.trans hb)]
          cases hold : s.awaits.ready p with
          | none => exact iff_of_false Bool.false_ne_true hmem
          | some b' => exact (h.ready p b' hold).2
      · refine hsame hnone ?_
        simp only [step, awaitTurns, hq]
        split <;> simp [AsyncFutureDispatcher.ready_fulfil, AsyncFutureDispatcher.ready_wrap, hpq]
    | _ => exact hsame hnone (by simp [step, awaitTurns, hq])

theorem Sound.step (h : s.Sound n held) (t : AsyncTurn) : (s.step n held t).Sound n held where
  pool := h.pool.step _
  futures _ := Run.run_invariant (I := AsyncFutureDispatcher.FromTask held _) (fun _ t h => h.step t) _ _ (h.futures _)
  ended := h.ended_step.1
  once := h.ended_step.2
  ready _ _ hb := h.ready_step hb

theorem sound_run (n : Nat) (held : Nat → FutureOutcome) (turns : List AsyncTurn) : (runAsync n held turns).Sound n held :=
  Run.run_invariant (I := Sound n held) (fun _ t h => h.step t) turns {} {
    pool := ⟨[], rfl⟩
    futures := fun p => ⟨AsyncFutureDispatcher.sound_run held p [], fun _ hw => (Option.some_ne_none _ hw.symm).elim,
      fun _ hpc => DispatcherPc.noConfusion hpc⟩
    ended := fun p => iff_of_false List.not_mem_nil fun h => List.not_mem_nil h.choose_spec.1
    once := List.nodup_nil
    ready := fun _ _ hb => by cases hb }

theorem runAsync_pool (n : Nat) (held : Nat → FutureOutcome) (turns : List AsyncTurn) :
    (runAsync n held turns).pool = runPool n (turns.map (AsyncTurn.poolTurn n)) := by
  induction turns using List.reverseRecOn with
  | nil => rfl
  | append_singleton turns t ih =>
    rw [runAsync, Run.run_concat, List.map_append]
    refine Eq.trans ?_ (Run.run_concat _ _).symm
    exact congrArg (fun s => s.step n (t.poolTurn n)) ih

end AsyncCalls

/-- **An await gets what its own task came to, and not before.**  Whatever turns the pool, the dispatcher, the event loop
and Python take: every task ends at most once; a future that is wrapped is that of a call that has returned; it is set at
most once, to what its own task came to, and only behind the end of this task, which one worker has run. -/
theorem await_gets_its_task (n : Nat) (held : Nat → FutureOutcome) (turns : List AsyncTurn) :
    (runAsync n held turns).pool = runPool n (turns.map (AsyncTurn.poolTurn n)) ∧
    (runAsync n held turns).ended.Nodup ∧
    ∀ p w, (runAsync n held turns).awaits.futures p = some w →
      w.future.Of (held p) ∧ (w.invoked = [] ∨ w.invoked = [.pending]) ∧
      ∃ i, (runAsync n held turns).pool.callers p = .returned i ∧
        (w.future.IsSet → p ∈ (runAsync n held turns).ended ∧ (runAsync n held turns).pool.FinishedAt i p) := by
  have hsound := AsyncCalls.sound_run n held turns
  refine ⟨AsyncCalls.runAsync_pool n held turns, hsound.once, fun p w hw => ?_⟩
  have hfrom := (hsound.futures p).wrapped w hw
  obtain ⟨⟨i, hcall⟩, hready⟩ := hsound.ready p w.ready (by rw [AsyncFutureDispatcher.ready, hw]; rfl)
  refine ⟨hfrom.value, ((hsound.futures p).sound.wrapped w hw).once.imp_right (·.1), i, hcall, fun hset => ?_⟩
  have hended := hready.1 (hfrom.ready (Or.inr hset))
  obtain ⟨j, hj, hne⟩ := (hsound.ended p).1 hended
  obtain rfl : i = j := ThreadPool.returned_executed hsound.pool hcall hj
  exact ⟨hended, hj, hne⟩

end PyNetX
