import PyNetX.Client
import PyNetX.Lib.Run
/-!
# WrapFuture — C++ futures awaited from Python

`wrap_future` hands a C++ future's poller to the dispatcher's thread and an asyncio future to Python.  Python, the
dispatcher's thread and the event loop meet under the GIL: a turn is a section under it or under the dispatcher's mutex.
-/
namespace PyNetX

open Run (run Along)

/-- What a future of the bindings holds when its task returned: of `void`, `bool`, `std::string` or
`NotificationHealthEvent`. -/
inductive CppValue where
  | void
  | bool (b : Bool)
  | string (bytes : Bytes)
  | event (e : NotificationHealthEvent)

/-- What it holds when its task threw: the class, and the bytes `what()` points to, up to the NUL. -/
inductive CppException where
  | connectionRefused (what : Bytes)
  | authError (what : Bytes)
  | channelError (what : Bytes)
  | netconf (what : Bytes)
  /-- Another `std::exception`. -/
  | std (what : Bytes)
  /-- Something thrown that is no `std::exception`. -/
  | unknown

/-- What `std::future::get` comes to. -/
abbrev FutureOutcome := Except CppException CppValue

inductive PyObject where
  | none
  | bool (b : Bool)
  | str (s : String)
  | event (e : NotificationHealthEvent)
  /-- An instance of an exception's class, with its argument. -/
  | exception (cls : String) (arg : String)

/-- pybind11's conversion of a `std::string` or a C string: `error_already_set` if the bytes are not valid UTF-8. -/
def pyStr (bytes : Bytes) : Option String := String.fromUTF8? ⟨bytes.toArray⟩

/-- pybind11's conversion of the argument of `set_result`. -/
def CppValue.toPython : CppValue → Option PyObject
  | .void => some .none
  | .bool b => some (.bool b)
  | .string bytes => (pyStr bytes).map .str
  | .event e => some (.event e)

/-- `python_exception_from_cpp_exception`. -/
def pythonExceptionFromCppException : CppException → Option PyObject
  | .connectionRefused what => (pyStr what).map (.exception "NetconfConnectionRefusedError")
  | .authError what => (pyStr what).map (.exception "NetconfAuthError")
  | .channelError what => (pyStr what).map (.exception "NetconfChannelError")
  | .netconf what => (pyStr what).map (.exception "NetconfException")
  | .std what => (pyStr what).map (.exception "RuntimeError")
  | .unknown => none

/-- The closure that `call_soon_threadsafe` takes: one sets a result that is converted when it is called, the other an
exception's object that has been made before. -/
inductive FutureCallback where
  | setResult (result : CppValue)
  | setException (exceptionObj : PyObject)

inductive FutureState where
  | pending
  | result (o : PyObject)
  | exception (o : PyObject)
  | cancelled

/-- What the call of `set_result` or `set_exception` makes of a pending future.  The conversion of a result throws in
front of the call; the loop logs what a callback throws. -/
def FutureCallback.set : FutureCallback → Option FutureState
  | .setResult result => result.toPython.map .result
  | .setException exceptionObj => some (.exception exceptionObj)

/-- A future that `wrap_future` returned, and the C++ future behind it: whether that is ready, the callback that the
event loop has to run, whether it has run it, and in which states `set_result` or `set_exception` was invoked. -/
structure Wrapped where
  ready : Bool := false
  future : FutureState := .pending
  scheduled : Option FutureCallback := none
  ran : Bool := false
  invoked : List FutureState := []

namespace Wrapped

def Done (w : Wrapped) : Prop := w.future ≠ .pending

/-- `cancel()`: a future that is done stays as it is. -/
def cancel (w : Wrapped) : Wrapped :=
  match w.future with
  | .pending => { w with future := .cancelled }
  | _ => w

def runCallback (w : Wrapped) : Wrapped :=
  match w.scheduled with
  | none => w
  | some callback =>
    let w := { w with scheduled := none, ran := true }
    match w.future with
    | .pending =>
      match callback.set with
      | some future => { w with future := future, invoked := w.invoked ++ [w.future] }
      | none => w
    | _ => w

end Wrapped

/-- Where the dispatcher's thread is in `run`. -/
inductive DispatcherPc where
  /-- In front of `batch.swap(pending_)`. -/
  | wait
  /-- In the loop over the batch. -/
  | poll
  /-- In the poller of future `i`, in front of `call_soon_threadsafe`. -/
  | callSoon (i : Nat) (callback : FutureCallback)

structure AsyncFutureDispatcher where
  futures : Nat → Option Wrapped := fun _ => none
  pending : List Nat := []
  batch : List Nat := []
  stillPending : List Nat := []
  pc : DispatcherPc := .wait

inductive DispatcherTurn where
  /-- `wrap_future` makes future `i` and adds its poller. -/
  | wrap (i : Nat)
  /-- The task behind future `i` returns or throws. -/
  | fulfil (i : Nat)
  | cancel (i : Nat)
  /-- A turn of the dispatcher's thread.  `soon` is whether `call_soon_threadsafe` takes a callback. -/
  | dispatcher (soon : Bool)
  | loop (i : Nat)

namespace AsyncFutureDispatcher

def modify (s : AsyncFutureDispatcher) (i : Nat) (f : Wrapped → Wrapped) : AsyncFutureDispatcher :=
  { s with futures := Function.update s.futures i ((s.futures i).map f) }

/-- The callback that the poller makes of what the C++ future holds; if it makes none, it is dropped. -/
def callbackOf : FutureOutcome → Option FutureCallback
  | .ok result => some (.setResult result)
  | .error e => (pythonExceptionFromCppException e).map .setException

/-- The poller of future `i`, the first of the batch: it stays in the dispatcher, is dropped, or has a callback. -/
def poller (s : AsyncFutureDispatcher) (held : Nat → FutureOutcome) (i : Nat) (batch : List Nat) : AsyncFutureDispatcher :=
  match s.futures i with
  | none => { s with batch := batch }
  | some w =>
    match w.ready, w.future with
    | false, _ => { s with batch := batch, stillPending := s.stillPending ++ [i] }
    | true, .pending =>
      match callbackOf (held i) with
      | some callback => { s with batch := batch, pc := .callSoon i callback }
      | none => { s with batch := batch }
    | true, _ => { s with batch := batch }

def dispatcherStep (s : AsyncFutureDispatcher) (held : Nat → FutureOutcome) (soon : Bool) : AsyncFutureDispatcher :=
  match s.pc, s.batch with
  | .wait, _ => if s.pending = [] then s else { s with pending := s.batch, batch := s.pending, pc := .poll }
  | .poll, i :: batch => s.poller held i batch
  | .poll, [] => { s with pending := s.pending ++ s.stillPending, stillPending := [], pc := .wait }
  | .callSoon i callback, _ =>
    { (if soon then s.modify i (fun w => { w with scheduled := some callback }) else s) with pc := .poll }

/-- A turn, when future `i` holds `held i` once its task is over. -/
def step (held : Nat → FutureOutcome) (s : AsyncFutureDispatcher) : DispatcherTurn → AsyncFutureDispatcher
  | .wrap i =>
    match s.futures i with
    | none => { s with futures := Function.update s.futures i (some {}), pending := s.pending ++ [i] }
    | some _ => s
  | .fulfil i => s.modify i (fun w => { w with ready := true })
  | .cancel i => s.modify i Wrapped.cancel
  | .dispatcher soon => s.dispatcherStep held soon
  | .loop i => s.modify i Wrapped.runCallback

end AsyncFutureDispatcher

def runDispatcher (held : Nat → FutureOutcome) (turns : List DispatcherTurn) : AsyncFutureDispatcher :=
  Run.run (AsyncFutureDispatcher.step held) {} turns

/-! ## What is claimed of a wrapped future -/

def FutureOutcome.ResultConverts (o : FutureOutcome) : Prop := ∀ result, o = .ok result → result.toPython.isSome

/-- What the C++ future holds converts: the result, or the text of a `std::exception`. -/
def FutureOutcome.Converts : FutureOutcome → Prop
  | .ok result => result.toPython.isSome
  | .error e => (pythonExceptionFromCppException e).isSome

namespace AsyncFutureDispatcher

/-- `set_result` and `set_exception` have been invoked at most once, and on the pending future. -/
def SetOnce (s : AsyncFutureDispatcher) (i : Nat) : Prop :=
  ∀ w, s.futures i = some w → w.invoked = [] ∨ w.invoked = [.pending]

def CallbackCompletes (s : AsyncFutureDispatcher) (i : Nat) : Prop :=
  ∀ w, s.futures i = some w → w.ran = true → w.Done

def Polls (s : AsyncFutureDispatcher) (i : Nat) : Prop :=
  i ∈ s.pending ∨ i ∈ s.batch ∨ i ∈ s.stillPending ∨ ∃ callback, s.pc = .callSoon i callback

/-- A future that neither the dispatcher nor the event loop will come back to is done: its await returns. -/
def AwaitReturns (s : AsyncFutureDispatcher) (i : Nat) : Prop :=
  ∀ w, s.futures i = some w → ¬ s.Polls i → w.scheduled = none → w.Done

def SoonTakes : DispatcherTurn → Prop
  | .dispatcher soon => soon = true
  | _ => True

variable {held : Nat → FutureOutcome} {s : AsyncFutureDispatcher} {i j : Nat}

end AsyncFutureDispatcher

theorem FutureCallback.set_ne_pending {callback : FutureCallback} {future : FutureState} (h : callback.set = some future) :
    future ≠ .pending := by
  rintro rfl
  cases callback with
  | setResult result =>
    obtain ⟨o, _, ho⟩ := Option.map_eq_some_iff.1 h
    cases ho
  | setException o => cases Option.some.inj h

/-- **A callback of a result that converts sets the future**, and so does every callback of an exception. -/
theorem FutureOutcome.ResultConverts.set_isSome {o : FutureOutcome} {callback : FutureCallback} (h : o.ResultConverts)
    (hcallback : AsyncFutureDispatcher.callbackOf o = some callback) : callback.set.isSome := by
  cases o with
  | ok result =>
    obtain rfl := Option.some.inj hcallback
    simpa [FutureCallback.set] using h result rfl
  | error e =>
    obtain ⟨obj, _, rfl⟩ := Option.map_eq_some_iff.1 hcallback
    rfl

theorem FutureOutcome.Converts.resultConverts {o : FutureOutcome} (h : o.Converts) : o.ResultConverts := by
  rintro result rfl
  exact h

theorem FutureOutcome.Converts.callbackOf_isSome {o : FutureOutcome} (h : o.Converts) :
    (AsyncFutureDispatcher.callbackOf o).isSome := by
  cases o with
  | ok result => rfl
  | error e =>
    have he : (pythonExceptionFromCppException e).isSome := h
    simpa [AsyncFutureDispatcher.callbackOf] using he

namespace Wrapped

/-- **What the event loop's callback does**: nothing was scheduled; or it finds the future done; or it sets it; or its
conversion throws. -/
theorem runCallback_cases (w : Wrapped) :
    (w.scheduled = none ∧ w.runCallback = w) ∨
    ∃ callback, w.scheduled = some callback ∧
      ((w.Done ∧ w.runCallback = { w with scheduled := none, ran := true }) ∨
        (w.future = .pending ∧ callback.set = none ∧ w.runCallback = { w with scheduled := none, ran := true }) ∨
        (w.future = .pending ∧ ∃ future, callback.set = some future ∧ w.runCallback =
          { w with scheduled := none, ran := true, future := future, invoked := w.invoked ++ [.pending] })) := by
  unfold runCallback Done
  cases hscheduled : w.scheduled with
  | none => exact Or.inl ⟨rfl, rfl⟩
  | some callback =>
    refine Or.inr ⟨callback, rfl, ?_⟩
    cases hfuture : w.future with
    | pending =>
      cases hset : callback.set with
      | none => exact Or.inr (Or.inl ⟨rfl, rfl, by simp [hset]⟩)
      | some future => exact Or.inr (Or.inr ⟨rfl, future, rfl, by simp [hset]⟩)
    | result o | exception o => exact Or.inl ⟨nofun, by simp⟩
    | cancelled => exact Or.inl ⟨nofun, by simp⟩

theorem cancel_cases (w : Wrapped) :
    (w.Done ∧ w.cancel = w) ∨ (w.future = .pending ∧ w.cancel = { w with future := .cancelled }) := by
  unfold cancel Done
  cases hfuture : w.future with
  | pending => exact Or.inr ⟨rfl, rfl⟩
  | result o | exception o => exact Or.inl ⟨nofun, rfl⟩
  | cancelled => exact Or.inl ⟨nofun, rfl⟩

/-- What holds of a future whose C++ future holds `o`: it is set at most once, and while it is pending; its callback is
the one made of `o`; and if the result converts, it is done once its callback has run. -/
structure Ok (o : FutureOutcome) (w : Wrapped) : Prop where
  once : w.invoked = [] ∨ w.invoked = [.pending] ∧ w.Done
  scheduled : ∀ callback, w.scheduled = some callback → AsyncFutureDispatcher.callbackOf o = some callback
  ran : o.ResultConverts → w.ran = true → w.Done

variable {o : FutureOutcome} {w : Wrapped}

theorem ok_start (o : FutureOutcome) : Ok o {} :=
  ⟨Or.inl rfl, fun _ h => (Option.some_ne_none _ h.symm).elim, fun _ h => (Bool.false_ne_true h).elim⟩

theorem Ok.fulfil (h : w.Ok o) : Ok o { w with ready := true } := ⟨h.once, h.scheduled, h.ran⟩

theorem Ok.schedule {callback : FutureCallback} (h : w.Ok o) (hmade : AsyncFutureDispatcher.callbackOf o = some callback) :
    Ok o { w with scheduled := some callback } :=
  ⟨h.once, fun _ hc => Option.some.inj hc ▸ hmade, h.ran⟩

theorem Ok.cancel (h : w.Ok o) : w.cancel.Ok o := by
  obtain ⟨_, he⟩ | ⟨hpending, he⟩ := w.cancel_cases
  · rw [he]
    exact h
  · rw [he]
    exact ⟨h.once.imp_right (fun hset => absurd hpending hset.2), h.scheduled, fun _ _ h => FutureState.noConfusion h⟩

theorem Ok.of_ran (hnone : w.scheduled = none) (honce : w.invoked = [] ∨ w.invoked = [.pending] ∧ w.Done)
    (hdone : o.ResultConverts → w.Done) : w.Ok o :=
  ⟨honce, fun _ h => (Option.some_ne_none _ (h.symm.trans hnone)).elim, fun hconverts _ => hdone hconverts⟩

theorem Ok.runCallback (h : w.Ok o) : w.runCallback.Ok o := by
  obtain ⟨_, he⟩ | ⟨callback, hscheduled, ⟨hdone, he⟩ | ⟨hpending, hset, he⟩ | ⟨hpending, future, hset, he⟩⟩ :=
    w.runCallback_cases
  · rw [he]
    exact h
  · rw [he]
    exact .of_ran rfl h.once (fun _ => hdone)
  · rw [he]
    refine .of_ran rfl h.once (fun hconverts => ?_)
    have hsome := hconverts.set_isSome (h.scheduled callback hscheduled)
    rw [hset] at hsome
    cases hsome
  · rw [he]
    have hnone : w.invoked = [] := h.once.resolve_right (fun hset => hset.2 hpending)
    have hdone := FutureCallback.set_ne_pending hset
    exact .of_ran rfl (Or.inr ⟨by rw [hnone]; rfl, hdone⟩) (fun _ => hdone)

theorem Done.runCallback (h : w.Done) : w.runCallback.Done := by
  obtain ⟨_, he⟩ | ⟨_, _, ⟨_, he⟩ | ⟨hpending, _⟩ | ⟨hpending, _⟩⟩ := w.runCallback_cases
  · rwa [he]
  · rw [he]
    exact h
  · exact absurd hpending h
  · exact absurd hpending h

theorem done_runCallback {callback : FutureCallback} (hscheduled : w.scheduled = some callback)
    (hset : callback.set.isSome) : w.runCallback.Done := by
  obtain ⟨hnone, _⟩ | ⟨callback', hc, ⟨hdone, he⟩ | ⟨_, hthrows, _⟩ | ⟨_, future, hset', he⟩⟩ := w.runCallback_cases
  · rw [hscheduled] at hnone
    cases hnone
  · rw [he]
    exact hdone
  · obtain rfl := Option.some.inj (hscheduled.symm.trans hc)
    rw [hthrows] at hset
    cases hset
  · rw [he]
    exact FutureCallback.set_ne_pending hset'

end Wrapped

namespace AsyncFutureDispatcher

variable {held : Nat → FutureOutcome} {s : AsyncFutureDispatcher} {i j : Nat}

theorem futures_modify (f : Wrapped → Wrapped) :
    (s.modify j f).futures i = if i = j then (s.futures i).map f else s.futures i := by
  simp only [modify, Function.update_apply]
  split
  · rename_i hij
    rw [hij]
  · rfl

/-! ## Set once, by the callback -/

/-- **The invariant** of future `i`, and of the poller that has its callback in hand. -/
structure Sound (held : Nat → FutureOutcome) (i : Nat) (s : AsyncFutureDispatcher) : Prop where
  wrapped : ∀ w, s.futures i = some w → w.Ok (held i)
  inHand : ∀ callback, s.pc = .callSoon i callback → callbackOf (held i) = some callback

theorem Sound.modify {f : Wrapped → Wrapped} (h : s.Sound held i) (hf : i = j → ∀ w, w.Ok (held i) → (f w).Ok (held i)) :
    (s.modify j f).Sound held i := by
  refine ⟨fun w hw => ?_, h.inHand⟩
  rw [futures_modify] at hw
  split at hw
  · rename_i hij
    obtain ⟨w, hold, rfl⟩ := Option.map_eq_some_iff.1 hw
    exact hf hij w (h.wrapped w hold)
  · exact h.wrapped w hw

/-- **What a poller does**: it goes back, it is dropped, or it has the callback of what its future holds in hand. -/
theorem poller_cases (s : AsyncFutureDispatcher) (held : Nat → FutureOutcome) (i : Nat) (batch : List Nat) :
    s.poller held i batch = { s with batch := batch, stillPending := s.stillPending ++ [i] } ∨
    (s.poller held i batch = { s with batch := batch } ∧
      ∀ w, s.futures i = some w → w.Done ∨ callbackOf (held i) = none) ∨
    ∃ callback, callbackOf (held i) = some callback ∧
      s.poller held i batch = { s with batch := batch, pc := .callSoon i callback } := by
  unfold poller
  cases hfuture : s.futures i with
  | none => exact Or.inr (Or.inl ⟨rfl, fun _ hw => (Option.some_ne_none _ hw.symm).elim⟩)
  | some w =>
    cases hready : w.ready with
    | false => exact Or.inl (by simp [hready])
    | true =>
      cases hw : w.future with
      | pending =>
        cases hcallback : callbackOf (held i) with
        | none => exact Or.inr (Or.inl ⟨by simp [hready, hw], fun _ _ => Or.inr rfl⟩)
        | some callback => exact Or.inr (Or.inr ⟨callback, rfl, by simp [hready, hw]⟩)
      | result o | exception o =>
        refine Or.inr (Or.inl ⟨by simp [hready, hw], fun w' hw' => Or.inl ?_⟩)
        rw [← Option.some.inj hw']
        exact fun hpending => FutureState.noConfusion (hw.symm.trans hpending)
      | cancelled =>
        refine Or.inr (Or.inl ⟨by simp [hready, hw], fun w' hw' => Or.inl ?_⟩)
        rw [← Option.some.inj hw']
        exact fun hpending => FutureState.noConfusion (hw.symm.trans hpending)

theorem Sound.dispatcherStep (h : s.Sound held i) (soon : Bool) : (s.dispatcherStep held soon).Sound held i := by
  unfold AsyncFutureDispatcher.dispatcherStep
  split
  · split
    · exact h
    · exact ⟨h.wrapped, fun _ hpc => DispatcherPc.noConfusion hpc⟩
  · rename_i j batch hpc hbatch
    obtain he | ⟨he, _⟩ | ⟨callback, hcallback, he⟩ := s.poller_cases held j batch
    · rw [he]
      exact ⟨h.wrapped, h.inHand⟩
    · rw [he]
      exact ⟨h.wrapped, h.inHand⟩
    · rw [he]
      refine ⟨h.wrapped, fun callback' hpc' => ?_⟩
      injection hpc' with hij hcallback'
      rw [← hij, ← hcallback']
      exact hcallback
  · exact ⟨h.wrapped, fun _ hpc => DispatcherPc.noConfusion hpc⟩
  · rename_i j callback hpc
    cases soon with
    | false => exact ⟨h.wrapped, fun _ hpc => DispatcherPc.noConfusion hpc⟩
    | true =>
      have hmodify : (s.modify j (fun w => { w with scheduled := some callback })).Sound held i := by
        refine h.modify (fun hij w hw => hw.schedule (h.inHand callback ?_))
        rw [hpc, hij]
      exact ⟨hmodify.wrapped, fun _ hpc => DispatcherPc.noConfusion hpc⟩

theorem Sound.step (h : s.Sound held i) (t : DispatcherTurn) : (s.step held t).Sound held i := by
  cases t with
  | wrap j =>
    simp only [AsyncFutureDispatcher.step]
    split
    · refine ⟨fun w hw => ?_, h.inHand⟩
      simp only [Function.update_apply] at hw
      split at hw
      · rw [← Option.some.inj hw]
        exact Wrapped.ok_start _
      · exact h.wrapped w hw
    · exact h
  | fulfil j => exact h.modify (fun _ _ hw => hw.fulfil)
  | cancel j => exact h.modify (fun _ _ hw => hw.cancel)
  | dispatcher soon => exact h.dispatcherStep soon
  | loop j => exact h.modify (fun _ _ hw => hw.runCallback)

theorem sound_run (held : Nat → FutureOutcome) (i : Nat) (turns : List DispatcherTurn) :
    (runDispatcher held turns).Sound held i :=
  Run.run_invariant (I := fun s : AsyncFutureDispatcher => s.Sound held i) (fun _ t h => h.step t) turns {}
    ⟨fun _ hw => (Option.some_ne_none _ hw.symm).elim, fun _ hpc => DispatcherPc.noConfusion hpc⟩

/-! ## An await that returns -/

/-- A future that is not done is still followed up: its poller is in the dispatcher, or its callback in the loop. -/
def Followed (s : AsyncFutureDispatcher) (i : Nat) : Prop :=
  ∀ w, s.futures i = some w → s.Polls i ∨ w.Done ∨ w.scheduled.isSome

theorem Followed.awaitReturns (h : s.Followed i) : s.AwaitReturns i := by
  intro w hw hpolls hscheduled
  rcases (h w hw).resolve_left hpolls with hdone | hsome
  · exact hdone
  · rw [hscheduled] at hsome
    cases hsome

theorem Followed.modify {f : Wrapped → Wrapped} (h : s.Followed i)
    (hf : ∀ w, s.futures i = some w → w.Done ∨ w.scheduled.isSome → (f w).Done ∨ (f w).scheduled.isSome) :
    (s.modify j f).Followed i := by
  intro w hw
  rw [futures_modify] at hw
  split at hw
  · obtain ⟨w, hold, rfl⟩ := Option.map_eq_some_iff.1 hw
    exact (h w hold).imp_right (hf w hold)
  · exact h w hw

theorem Followed.of_polls {s' : AsyncFutureDispatcher} (h : s.Followed i) (hfutures : s'.futures = s.futures)
    (hpolls : s.Polls i → s'.Polls i) : s'.Followed i := by
  intro w hw
  rw [hfutures] at hw
  exact (h w hw).imp_left hpolls

/-- **What a poller keeps**: it goes back, it is dropped with its future done, or its callback is in hand. -/
theorem Followed.poller {batch : List Nat} (h : s.Followed i) (hconverts : (held i).Converts) (hpc : s.pc = .poll)
    (hbatch : s.batch = j :: batch) : (s.poller held j batch).Followed i := by
  have hmoved : s.Polls i → i = j ∨ i ∈ s.pending ∨ i ∈ batch ∨ i ∈ s.stillPending := by
    rintro (hpending | hmem | hstill | ⟨callback, hcall⟩)
    · exact Or.inr (Or.inl hpending)
    · rw [hbatch] at hmem
      rcases List.mem_cons.1 hmem with hij | hmem
      · exact Or.inl hij
      · exact Or.inr (Or.inr (Or.inl hmem))
    · exact Or.inr (Or.inr (Or.inr hstill))
    · exact DispatcherPc.noConfusion (hpc.symm.trans hcall)
  obtain he | ⟨he, hdropped⟩ | ⟨callback, hcallback, he⟩ := s.poller_cases held j batch
  · rw [he]
    refine h.of_polls rfl (fun hpolls => ?_)
    rcases hmoved hpolls with rfl | hpending | hmem | hstill
    · exact Or.inr (Or.inr (Or.inl (List.mem_append_right _ (List.mem_singleton_self _))))
    · exact Or.inl hpending
    · exact Or.inr (Or.inl hmem)
    · exact Or.inr (Or.inr (Or.inl (List.mem_append_left _ hstill)))
  · rw [he]
    intro w hw
    by_cases hij : i = j
    · subst hij
      -- what converts has a callback, so the future was found done
      refine Or.inr (Or.inl ((hdropped w hw).resolve_right (fun hnone => ?_)))
      have hsome := hconverts.callbackOf_isSome
      rw [hnone] at hsome
      cases hsome
    · refine (h w hw).imp_left (fun hpolls => ?_)
      rcases (hmoved hpolls).resolve_left hij with hpending | hmem | hstill
      · exact Or.inl hpending
      · exact Or.inr (Or.inl hmem)
      · exact Or.inr (Or.inr (Or.inl hstill))
  · rw [he]
    refine h.of_polls rfl (fun hpolls => ?_)
    rcases hmoved hpolls with rfl | hpending | hmem | hstill
    · exact Or.inr (Or.inr (Or.inr ⟨callback, rfl⟩))
    · exact Or.inl hpending
    · exact Or.inr (Or.inl hmem)
    · exact Or.inr (Or.inr (Or.inl hstill))

/-- **What a turn of the dispatcher's thread keeps**: a poller goes from list to list, until it is dropped with its
future done, or its callback is with the loop. -/
theorem Followed.dispatcherStep {soon : Bool} (h : s.Followed i) (hconverts : (held i).Converts) (hsoon : soon = true) :
    (s.dispatcherStep held soon).Followed i := by
  unfold AsyncFutureDispatcher.dispatcherStep
  split
  · rename_i hpc
    split
    · exact h
    · refine h.of_polls rfl (fun hpolls => ?_)
      rcases hpolls with hpending | hbatch | hstill | ⟨callback, hcall⟩
      · exact Or.inr (Or.inl hpending)
      · exact Or.inl hbatch
      · exact Or.inr (Or.inr (Or.inl hstill))
      · exact DispatcherPc.noConfusion (hpc.symm.trans hcall)
  · rename_i j batch hpc hbatch
    exact h.poller hconverts hpc hbatch
  · rename_i hpc hbatch
    refine h.of_polls rfl (fun hpolls => ?_)
    rcases hpolls with hpending | hmem | hstill | ⟨callback, hcall⟩
    · exact Or.inl (List.mem_append_left _ hpending)
    · exact Or.inr (Or.inl hmem)
    · exact Or.inl (List.mem_append_right _ hstill)
    · exact DispatcherPc.noConfusion (hpc.symm.trans hcall)
  · rename_i j callback hpc
    subst hsoon
    intro w hw
    have hw' : (s.modify j (fun w => { w with scheduled := some callback })).futures i = some w := hw
    rw [futures_modify] at hw'
    split at hw'
    · obtain ⟨w, _, rfl⟩ := Option.map_eq_some_iff.1 hw'
      exact Or.inr (Or.inr rfl)
    · rename_i hij
      refine (h w hw').imp_left (fun hpolls => ?_)
      rcases hpolls with hpending | hmem | hstill | ⟨callback', hcall⟩
      · exact Or.inl hpending
      · exact Or.inr (Or.inl hmem)
      · exact Or.inr (Or.inr (Or.inl hstill))
      · rw [hpc] at hcall
        injection hcall with hji
        exact absurd hji.symm hij

/-- **A step keeps the future followed up**, if what it waits for converts and the loop takes the callbacks. -/
theorem Followed.step {t : DispatcherTurn} (h : s.Followed i) (hsound : s.Sound held i) (hconverts : (held i).Converts)
    (hsoon : SoonTakes t) : (s.step held t).Followed i := by
  cases t with
  | wrap j =>
    simp only [AsyncFutureDispatcher.step]
    split
    · intro w hw
      by_cases hij : i = j
      · subst hij
        exact Or.inl (Or.inl (List.mem_append_right _ (List.mem_singleton_self _)))
      · simp only [Function.update_of_ne hij] at hw
        refine (h w hw).imp_left (fun hpolls => ?_)
        exact hpolls.imp_left (fun hpending => List.mem_append_left _ hpending)
    · exact h
  | fulfil j => exact h.modify (fun _ _ hw => hw)
  | cancel j =>
    refine h.modify (fun w _ hw => ?_)
    rcases w.cancel_cases with ⟨_, he⟩ | ⟨_, he⟩
    · rwa [he]
    · rw [he]
      exact Or.inl (fun hpending => FutureState.noConfusion hpending)
  | dispatcher soon => exact h.dispatcherStep hconverts hsoon
  | loop j =>
    by_cases hij : i = j
    · subst hij
      refine h.modify (fun w hfuture hw => Or.inl ?_)
      rcases hw with hdone | hsome
      · exact hdone.runCallback
      · obtain ⟨callback, hscheduled⟩ := Option.isSome_iff_exists.1 hsome
        exact Wrapped.done_runCallback hscheduled
          (hconverts.resultConverts.set_isSome ((hsound.wrapped w hfuture).scheduled callback hscheduled))
    · intro w hw
      have hw' : (s.modify j Wrapped.runCallback).futures i = some w := hw
      rw [futures_modify, if_neg hij] at hw'
      exact h w hw'

theorem followed_run {turns : List DispatcherTurn} (hconverts : (held i).Converts)
    (hsoon : Along (AsyncFutureDispatcher.step held) (fun _ t => SoonTakes t) {} turns) :
    (runDispatcher held turns).Followed i :=
  (Run.along_invariant (I := fun s : AsyncFutureDispatcher => s.Sound held i ∧ s.Followed i)
    (fun _ t h hsoon => ⟨h.1.step t, h.2.step h.1 hconverts hsoon⟩)
    ⟨sound_run held i [], fun _ hw => (Option.some_ne_none _ hw.symm).elim⟩ turns hsoon).2

/-! ## What does not convert -/

/-- Future `i` is wrapped and fulfilled, the dispatcher takes and polls it, and the event loop runs its callback. -/
def awaited (i : Nat) : List DispatcherTurn :=
  [.wrap i, .fulfil i, .dispatcher true, .dispatcher true, .dispatcher true, .loop i]

theorem awaited_soonTakes (i : Nat) : Along (AsyncFutureDispatcher.step held) (fun _ t => SoonTakes t) {} (awaited i) := by
  simp [awaited, SoonTakes, Run.along_cons, Run.along_nil]

/-- A result that does not convert leaves the future pending, its callback run and its poller gone. -/
theorem awaited_result {result : CppValue} (hheld : held i = .ok result) (hnone : result.toPython = none) :
    (runDispatcher held (awaited i)).futures i = some { ready := true, ran := true } ∧
      ¬ (runDispatcher held (awaited i)).Polls i := by
  simp [runDispatcher, awaited, AsyncFutureDispatcher.step, AsyncFutureDispatcher.modify,
    AsyncFutureDispatcher.dispatcherStep, poller, callbackOf, hheld, Wrapped.runCallback, FutureCallback.set, hnone, Polls]

/-- An exception without a Python object leaves the future pending and its poller gone, without a callback. -/
theorem awaited_exception {e : CppException} (hheld : held i = .error e)
    (hnone : pythonExceptionFromCppException e = none) :
    (runDispatcher held (awaited i)).futures i = some { ready := true } ∧
      ¬ (runDispatcher held (awaited i)).Polls i := by
  simp [runDispatcher, awaited, AsyncFutureDispatcher.step, AsyncFutureDispatcher.modify,
    AsyncFutureDispatcher.dispatcherStep, poller, callbackOf, hheld, hnone, Wrapped.runCallback, Polls]

theorem resultConverts_of_completes (h : ∀ turns, (runDispatcher held turns).CallbackCompletes i) :
    (held i).ResultConverts := by
  intro result hheld
  cases hresult : result.toPython with
  | some o => rfl
  | none => exact absurd rfl (h (awaited i) _ (awaited_result hheld hresult).1 rfl)

theorem converts_of_awaitReturns (h : ∀ turns, Along (AsyncFutureDispatcher.step held) (fun _ t => SoonTakes t) {} turns →
    (runDispatcher held turns).AwaitReturns i) : (held i).Converts := by
  have hreturns := h (awaited i) (awaited_soonTakes i)
  unfold FutureOutcome.Converts
  split
  · rename_i result hheld
    cases hresult : result.toPython with
    | some o => rfl
    | none =>
      obtain ⟨hfuture, hgone⟩ := awaited_result hheld hresult
      exact absurd rfl (hreturns _ hfuture hgone rfl)
  · rename_i e hheld
    cases hobj : pythonExceptionFromCppException e with
    | some o => rfl
    | none =>
      obtain ⟨hfuture, hgone⟩ := awaited_exception hheld hobj
      exact absurd rfl (hreturns _ hfuture hgone rfl)

/-- **When a wrapped future is completed**, by what its C++ future holds.  Set at most once, while it is pending, and done
after its callback: in every run if and only if a result converts.  And its await returns, of a loop that takes every
callback, if and only if an exception's text converts as well. -/
theorem wrapFuture_iff (held : Nat → FutureOutcome) (i : Nat) :
    ((∀ turns, (runDispatcher held turns).SetOnce i ∧ (runDispatcher held turns).CallbackCompletes i) ↔
      (held i).ResultConverts) ∧
    ((∀ turns, Along (AsyncFutureDispatcher.step held) (fun _ t => SoonTakes t) {} turns →
      (runDispatcher held turns).AwaitReturns i) ↔ (held i).Converts) := by
  constructor
  · constructor
    · exact fun h => resultConverts_of_completes (fun turns => (h turns).2)
    · intro hconverts turns
      have hsound := sound_run held i turns
      exact ⟨fun w hw => (hsound.wrapped w hw).once.imp_right (·.1), fun w hw => (hsound.wrapped w hw).ran hconverts⟩
  · exact ⟨converts_of_awaitReturns, fun hconverts turns hsoon => (followed_run hconverts hsoon).awaitReturns⟩

/-- A reply that ends inside a character of two bytes. -/
def cutReply : Bytes := ascii "<data>" ++ [0xc3]

theorem cutReply_not_completed : ¬ ∀ (held : Nat → FutureOutcome) (i : Nat) (turns : List DispatcherTurn),
    (runDispatcher held turns).SetOnce i ∧ (runDispatcher held turns).CallbackCompletes i := by
  intro h
  have hnone : (CppValue.string cutReply).toPython = none := rfl
  obtain ⟨hfuture, _⟩ := @awaited_result (fun _ => .ok (.string cutReply)) 0 (.string cutReply) rfl hnone
  exact absurd rfl ((h _ 0 (awaited 0)).2 _ hfuture rfl)

end AsyncFutureDispatcher

end PyNetX
