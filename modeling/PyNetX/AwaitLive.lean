import PyNetX.AsyncCall
/-!
# AwaitLive — every await returns, sooner or later

Behind `enqueue` and `wrap_future` a call goes through the pool's queue, its task, the dispatcher's three lists, the
event loop's queue.  Each part is left sooner or later, on a schedule that keeps none of their threads out.
-/
namespace PyNetX

open Run (run Along)
open LeadsTo (after Leads)

namespace AsyncFutureDispatcher

variable {held : Nat → FutureOutcome} {s : AsyncFutureDispatcher} {i : Nat} {t : DispatcherTurn}

/-- The thread is at the top of its loop with empty lists of its own. -/
def Resting (s : AsyncFutureDispatcher) : Prop := s.pc = .wait → s.batch = [] ∧ s.stillPending = []

/-- The poller of future `i` is in the dispatcher, and will find the task over. -/
structure Due (i : Nat) (s : AsyncFutureDispatcher) : Prop where
  ready : s.ready i = some true
  polls : s.Polls i
  resting : s.Resting

/-- Future `i` is done, or its callback is with the event loop. -/
def Taken (i : Nat) (s : AsyncFutureDispatcher) : Prop := ∃ w, s.futures i = some w ∧ (w.Done ∨ w.scheduled.isSome)

/-- The way of the poller of future `i`: to the next batch, to its own call, to `call_soon_threadsafe`. -/
def wayTo (i : Nat) (s : AsyncFutureDispatcher) : Nat ×ₗ Nat :=
  match s.pc with
  | .wait => toLex (2, 0)
  | .poll => if i ∈ s.batch then toLex (1, 2 * s.batch.idxOf i + 1) else toLex (2, 2 * s.batch.length + 1)
  | .callSoon j _ =>
    if i = j then toLex (0, 0)
    else if i ∈ s.batch then toLex (1, 2 * s.batch.idxOf i + 2) else toLex (2, 2 * s.batch.length + 2)

theorem lex_lt_left {a b c d : Nat} (h : a < c) : toLex (a, b) < toLex (c, d) := Prod.Lex.toLex_lt_toLex.2 (Or.inl h)

theorem lex_lt_right {a b d : Nat} (h : b < d) : toLex (a, b) < toLex (a, d) :=
  Prod.Lex.toLex_lt_toLex.2 (Or.inr ⟨rfl, h⟩)

theorem wayTo_poll (hpc : s.pc = .poll) : wayTo i s =
    if i ∈ s.batch then toLex (1, 2 * s.batch.idxOf i + 1) else toLex (2, 2 * s.batch.length + 1) := by
  rw [wayTo, hpc]

/-- The poller in front in the batch is another one: one place less in front of this one. -/
theorem wayTo_cons {s' : AsyncFutureDispatcher} {j : Nat} (hpc : s.pc = .poll) (hbatch : s.batch = j :: s'.batch)
    (hij : i ≠ j) (hpc' : s'.pc = .poll ∨ ∃ callback, s'.pc = .callSoon j callback) : wayTo i s' < wayTo i s := by
  have hmem : i ∈ s.batch ↔ i ∈ s'.batch := by simp [hbatch, hij]
  rw [wayTo_poll hpc]
  rcases hpc' with hpc' | ⟨callback, hpc'⟩
  · rw [wayTo_poll hpc']
    by_cases hi : i ∈ s'.batch
    · rw [if_pos hi, if_pos (hmem.2 hi), hbatch, List.idxOf_cons_ne _ (Ne.symm hij)]
      exact lex_lt_right (by omega)
    · rw [if_neg hi, if_neg (fun h => hi (hmem.1 h)), hbatch, List.length_cons]
      exact lex_lt_right (by omega)
  · rw [wayTo, hpc']
    simp only [if_neg hij]
    by_cases hi : i ∈ s'.batch
    · rw [if_pos hi, if_pos (hmem.2 hi), hbatch, List.idxOf_cons_ne _ (Ne.symm hij)]
      exact lex_lt_right (by omega)
    · rw [if_neg hi, if_neg (fun h => hi (hmem.1 h)), hbatch, List.length_cons]
      exact lex_lt_right (by omega)

/-- A poller that is in the dispatcher and not in hand is in a list. -/
theorem Polls.listed (h : s.Polls i) (hpc : ∀ callback, s.pc ≠ .callSoon i callback) :
    i ∈ s.pending ∨ i ∈ s.batch ∨ i ∈ s.stillPending := by
  rcases h with h | h | h | ⟨callback, hcall⟩
  · exact Or.inl h
  · exact Or.inr (Or.inl h)
  · exact Or.inr (Or.inr h)
  · exact absurd hcall (hpc callback)

/-- **A poller that is due comes nearer to the event loop with every turn of the thread.** -/
theorem Due.dispatcher (h : s.Due i) (hconverts : (held i).Converts) :
    (s.dispatcherStep held true).Taken i ∨
      (s.dispatcherStep held true).Due i ∧ wayTo i (s.dispatcherStep held true) < wayTo i s := by
  have hready : (s.dispatcherStep held true).ready i = some true := (ready_dispatcher held true).trans h.ready
  have hmove := dispatcherStep_move held s true
  obtain ⟨w, hw, hwready⟩ := Option.map_eq_some_iff.1 h.ready
  have hlisted := h.polls.listed
  have hpoll (hpc : s.pc = .poll) : i ∈ s.pending ∨ i ∈ s.batch ∨ i ∈ s.stillPending :=
    hlisted fun _ he => DispatcherPc.noConfusion (hpc.symm.trans he)
  have hwait (hpc : s.pc = .wait) : i ∈ s.pending := by
    obtain ⟨hbatch, hstill⟩ := h.resting hpc
    simpa [hbatch, hstill] using hlisted fun _ he => DispatcherPc.noConfusion (hpc.symm.trans he)
  have hbehind {j : Nat} {batch : List Nat} (hpc : s.pc = .poll) (hbatch : s.batch = j :: batch) (hij : i ≠ j) :
      i ∈ s.pending ∨ i ∈ batch ∨ i ∈ s.stillPending := by
    simpa [hbatch, hij] using hpoll hpc
  generalize s.dispatcherStep held true = s' at hmove hready
  cases hmove with
  | idle hpc hnone =>
    have hi := hwait hpc
    rw [hnone] at hi
    cases hi
  | swap hpc =>
    have hi := hwait hpc
    refine Or.inr ⟨⟨hready, Or.inr (Or.inl hi), fun he => DispatcherPc.noConfusion he⟩, ?_⟩
    rw [wayTo_poll rfl, wayTo, hpc, if_pos hi]
    exact lex_lt_left (by decide)
  | @stays j batch hpc hbatch hnot =>
    have hij : i ≠ j := by
      rintro rfl
      exact Bool.false_ne_true ((hnot w hw).symm.trans hwready)
    refine Or.inr ⟨⟨hready, ?_, fun he => DispatcherPc.noConfusion (hpc.symm.trans he)⟩,
      wayTo_cons hpc hbatch hij (Or.inl hpc)⟩
    rcases hbehind hpc hbatch hij with hi | hi | hi
    · exact Or.inl hi
    · exact Or.inr (Or.inl hi)
    · exact Or.inr (Or.inr (Or.inl (List.mem_append_left _ hi)))
  | @drops j batch hpc hbatch hdone =>
    by_cases hij : i = j
    · subst hij
      refine Or.inl ⟨w, hw, Or.inl ((hdone w hw).resolve_right fun hnone => ?_)⟩
      have hsome := hconverts.callbackOf_isSome
      rw [hnone] at hsome
      cases hsome
    · exact Or.inr ⟨⟨hready, (hbehind hpc hbatch hij).imp_right (Or.imp_right Or.inl),
        fun he => DispatcherPc.noConfusion (hpc.symm.trans he)⟩, wayTo_cons hpc hbatch hij (Or.inl hpc)⟩
  | @calls j batch _ callback hpc hbatch _ _ _ =>
    by_cases hij : i = j
    · subst hij
      refine Or.inr ⟨⟨hready, Or.inr (Or.inr (Or.inr ⟨callback, rfl⟩)), fun he => DispatcherPc.noConfusion he⟩, ?_⟩
      rw [wayTo_poll hpc, wayTo, hbatch, if_pos List.mem_cons_self]
      simp only [if_true]
      exact lex_lt_left (by decide)
    · exact Or.inr ⟨⟨hready, (hbehind hpc hbatch hij).imp_right (Or.imp_right Or.inl),
        fun he => DispatcherPc.noConfusion he⟩, wayTo_cons hpc hbatch hij (Or.inr ⟨callback, rfl⟩)⟩
  | ends hpc hbatch =>
    refine Or.inr ⟨⟨hready, Or.inl (List.mem_append.2 ?_), fun _ => ⟨hbatch, rfl⟩⟩, ?_⟩
    · simpa [hbatch] using hpoll hpc
    · rw [wayTo_poll hpc, hbatch, if_neg List.not_mem_nil]
      exact lex_lt_right (by decide)
  | @soon j callback hpc =>
    by_cases hij : i = j
    · subst hij
      refine Or.inl ⟨{ w with scheduled := some callback }, ?_, Or.inr rfl⟩
      change (s.modify i _).futures i = _
      rw [futures_modify, if_pos rfl, hw]
      rfl
    · refine Or.inr ⟨⟨hready, ?_, fun he => DispatcherPc.noConfusion he⟩, ?_⟩
      · refine (hlisted fun callback' he => ?_).imp_right (Or.imp_right Or.inl)
        rw [hpc] at he
        exact hij (DispatcherPc.callSoon.inj he).1.symm
      · have hway : wayTo i s =
            if i ∈ s.batch then toLex (1, 2 * s.batch.idxOf i + 2) else toLex (2, 2 * s.batch.length + 2) := by
          simp only [wayTo, hpc, if_neg hij]
        rw [hway, wayTo_poll rfl]
        change (if i ∈ s.batch then _ else _) < _
        split
        · exact lex_lt_right (Nat.lt_succ_self _)
        · exact lex_lt_right (Nat.lt_succ_self _)

def IsDispatcher (t : DispatcherTurn) : Prop := ∃ soon, t = .dispatcher soon

/-- What the other threads do leaves the thread and its lists as they are, and `pending_` no shorter. -/
theorem step_other (ht : ¬ IsDispatcher t) : (s.step held t).pc = s.pc ∧ (s.step held t).batch = s.batch ∧
    (s.step held t).stillPending = s.stillPending ∧ s.pending <+: (s.step held t).pending := by
  cases t with
  | dispatcher soon => exact absurd ⟨soon, rfl⟩ ht
  | wrap j =>
    simp only [AsyncFutureDispatcher.step]
    split
    · exact ⟨rfl, rfl, rfl, List.prefix_append _ _⟩
    · exact ⟨rfl, rfl, rfl, List.prefix_refl _⟩
  | fulfil | cancel | loop => exact ⟨rfl, rfl, rfl, List.prefix_refl _⟩

theorem ready_isSome (h : (s.ready i).isSome) (t : DispatcherTurn) : ((s.step held t).ready i).isSome := by
  cases t with
  | wrap j =>
    rw [ready_wrap]
    split
    · rfl
    · exact h
  | fulfil j =>
    rw [ready_fulfil]
    split
    · rwa [Option.isSome_map]
    · exact h
  | cancel j => rwa [ready_cancel]
  | dispatcher soon => rwa [ready_dispatcher]
  | loop j => rwa [ready_loop]

theorem ready_true (h : s.ready i = some true) (ht : ¬ IsDispatcher t) : (s.step held t).ready i = some true := by
  cases t with
  | dispatcher soon => exact absurd ⟨soon, rfl⟩ ht
  | wrap j => simp [ready_wrap, h]
  | fulfil j => simp [ready_fulfil, h]
  | cancel j => rw [ready_cancel, h]
  | loop j => rw [ready_loop, h]

/-- A poller that is due stays so, and as near, while the others take their turns. -/
theorem Due.other (h : s.Due i) (ht : ¬ IsDispatcher t) :
    (s.step held t).Due i ∧ wayTo i (s.step held t) = wayTo i s := by
  obtain ⟨hpc, hbatch, hstill, hpending⟩ : (s.step held t).pc = s.pc ∧ (s.step held t).batch = s.batch ∧
      (s.step held t).stillPending = s.stillPending ∧ s.pending <+: (s.step held t).pending := step_other ht
  refine ⟨⟨ready_true h.ready ht, ?_, fun he => ?_⟩, by rw [wayTo, wayTo, hpc, hbatch]⟩
  · rw [Polls, hpc, hbatch, hstill]
    exact h.polls.imp_left fun hi => hpending.subset hi
  · rw [hbatch, hstill]
    exact h.resting (hpc ▸ he)

theorem Resting.step (h : s.Resting) (t : DispatcherTurn) : (s.step held t).Resting := by
  by_cases ht : IsDispatcher t
  · obtain ⟨soon, rfl⟩ := ht
    have hmove := dispatcherStep_move held s soon
    simp only [AsyncFutureDispatcher.step]
    generalize s.dispatcherStep held soon = s' at hmove
    cases hmove with
    | idle => exact h
    | swap | calls | soon => exact fun he => DispatcherPc.noConfusion he
    | stays hpc | drops hpc => exact fun he => DispatcherPc.noConfusion (hpc.symm.trans he)
    | ends _ hbatch => exact fun _ => ⟨hbatch, rfl⟩
  · obtain ⟨hpc, hbatch, hstill, _⟩ : (s.step held t).pc = s.pc ∧ (s.step held t).batch = s.batch ∧
      (s.step held t).stillPending = s.stillPending ∧ s.pending <+: (s.step held t).pending := step_other ht
    intro he
    rw [hbatch, hstill]
    exact h (hpc ▸ he)

theorem Taken.modify {f : Wrapped → Wrapped} {j : Nat} (h : s.Taken i)
    (hf : ∀ w, s.futures i = some w → w.Done ∨ w.scheduled.isSome → (f w).Done ∨ (f w).scheduled.isSome) :
    (s.modify j f).Taken i := by
  obtain ⟨w, hw, htaken⟩ := h
  rw [Taken, futures_modify, hw]
  split
  · exact ⟨f w, rfl, hf w hw htaken⟩
  · exact ⟨w, rfl, htaken⟩

/-- The callback that the loop runs leaves its future done. -/
theorem done_of_taken (hok : s.Sound held i) (hconverts : (held i).Converts) {w : Wrapped} (hw : s.futures i = some w)
    (h : w.Done ∨ w.scheduled.isSome) : w.runCallback.Done := by
  rcases h with h | h
  · exact h.runCallback
  · obtain ⟨callback, hscheduled⟩ := Option.isSome_iff_exists.1 h
    exact Wrapped.done_runCallback hscheduled
      (hconverts.resultConverts.set_isSome ((hok.wrapped w hw).scheduled callback hscheduled))

/-- **What the loop has taken stays with it, or is done.** -/
theorem Taken.step (h : s.Taken i) (hok : s.Sound held i) (hconverts : (held i).Converts) (t : DispatcherTurn) :
    (s.step held t).Taken i := by
  cases t with
  | wrap j =>
    obtain ⟨w, hw, htaken⟩ := h
    simp only [AsyncFutureDispatcher.step]
    split
    · rename_i hj
      have hij : i ≠ j := by
        rintro rfl
        cases hw.symm.trans hj
      exact ⟨w, (Function.update_of_ne hij _ _).trans hw, htaken⟩
    · exact ⟨w, hw, htaken⟩
  | fulfil j => exact h.modify fun _ _ htaken => htaken
  | cancel j =>
    refine h.modify fun w _ htaken => ?_
    obtain ⟨_, he⟩ | ⟨_, he⟩ := w.cancel_cases
    · rwa [he]
    · rw [he]
      exact htaken.imp_left fun _ hpending => FutureState.noConfusion hpending
  | loop j => exact h.modify fun w hw htaken => Or.inl (done_of_taken hok hconverts hw htaken)
  | dispatcher soon =>
    have hmove := dispatcherStep_move held s soon
    simp only [AsyncFutureDispatcher.step]
    generalize s.dispatcherStep held soon = s' at hmove
    cases hmove with
    | idle | swap | stays | drops | calls | ends => exact h
    | @soon j callback _ =>
      cases soon with
      | false => exact h
      | true =>
        have hmodify : (s.modify j fun w => { w with scheduled := some callback }).Taken i :=
          h.modify fun _ _ _ => Or.inr rfl
        exact hmodify

end AsyncFutureDispatcher

/-! ## The whole way -/

namespace AsyncCalls

variable {n p i k : Nat} {held : Nat → FutureOutcome} {s : AsyncCalls} {turns : Nat → AsyncTurn}

/-- The calls in front of turn `k` of a schedule. -/
def upTo (n : Nat) (held : Nat → FutureOutcome) (turns : Nat → AsyncTurn) (k : Nat) : AsyncCalls :=
  after (step n held) {} turns k

def SoonTakes : AsyncTurn → Prop
  | .dispatcher soon => soon = true
  | _ => True

/-- The pool's threads are not kept out, nor is the dispatcher's; the loop takes every callback, and comes to it; and
every `enqueue` completes before the pool's destructor sets `stop_`. -/
structure Fair (n : Nat) (held : Nat → FutureOutcome) (turns : Nat → AsyncTurn) : Prop where
  pool : ThreadPool.Fair n fun k => (turns k).poolTurn n
  enqueues : ∀ k, ThreadPool.EnqueuesFirst (upTo n held turns k).pool ((turns k).poolTurn n)
  dispatcher : ∀ k, ∃ m, k ≤ m ∧ ∃ soon, turns m = .dispatcher soon
  takes : ∀ k, SoonTakes (turns k)
  loop : ∀ p k w, (upTo n held turns k).awaits.futures p = some w → w.scheduled.isSome → ∃ m, k ≤ m ∧ turns m = .loop p

theorem upTo_succ (n : Nat) (held : Nat → FutureOutcome) (turns : Nat → AsyncTurn) (k : Nat) :
    upTo n held turns (k + 1) = (upTo n held turns k).step n held (turns k) :=
  LeadsTo.after_succ k

theorem sound_upTo (n : Nat) (held : Nat → FutureOutcome) (turns : Nat → AsyncTurn) (k : Nat) :
    (upTo n held turns k).Sound n held :=
  sound_run n held _

theorem upTo_pool (n : Nat) (held : Nat → FutureOutcome) (turns : Nat → AsyncTurn) (k : Nat) :
    (upTo n held turns k).pool = ThreadPool.upTo n (fun k => (turns k).poolTurn n) k := by
  induction k with
  | zero => rfl
  | succ k ih =>
    rw [upTo_succ, ThreadPool.upTo_succ, ← ih]
    rfl

/-- A turn of the pool's or of Python's is none of the dispatcher's thread. -/
theorem awaitTurns_other {t : AsyncTurn} (ht : ∀ soon, t ≠ .dispatcher soon) :
    ∀ u ∈ s.awaitTurns n t, ¬ AsyncFutureDispatcher.IsDispatcher u := by
  rintro u hu ⟨soon, rfl⟩
  cases t with
  | dispatcher soon => exact ht soon rfl
  | pool t =>
    simp only [awaitTurns] at hu
    split at hu <;> simp at hu
  | wrap q =>
    simp only [awaitTurns] at hu
    split at hu
    · split at hu <;> simp at hu
    · simp at hu
  | cancel | loop => simp [awaitTurns] at hu

/-- What every turn of the awaits keeps a turn of the whole keeps. -/
theorem awaits_step {I : AsyncFutureDispatcher → Prop} (hI : ∀ s t, I s → I (s.step held t)) (t : AsyncTurn)
    (h : I s.awaits) : I (s.step n held t).awaits :=
  Run.run_invariant hI _ _ h

theorem resting_upTo (n : Nat) (held : Nat → FutureOutcome) (turns : Nat → AsyncTurn) (k : Nat) :
    (upTo n held turns k).awaits.Resting := by
  induction k with
  | zero => exact fun _ => ⟨rfl, rfl⟩
  | succ k ih =>
    rw [upTo_succ]
    exact awaits_step (I := AsyncFutureDispatcher.Resting) (fun _ t h => h.step t) _ ih

theorem awaitTurns_soon {t : AsyncTurn} (ht : SoonTakes t) :
    ∀ u ∈ s.awaitTurns n t, AsyncFutureDispatcher.SoonTakes u := by
  intro u hu
  cases u with
  | dispatcher soon =>
    by_cases hd : ∃ soon, t = .dispatcher soon
    · obtain ⟨soon', rfl⟩ := hd
      cases List.mem_singleton.1 hu
      exact ht
    · exact absurd ⟨soon, rfl⟩ (awaitTurns_other (fun soon he => hd ⟨soon, he⟩) _ hu)
  | wrap | fulfil | cancel | loop => trivial

/-- **A wrapped future is followed up**, as long as what its task comes to converts. -/
theorem Fair.followed (hfair : Fair n held turns) (hconverts : (held p).Converts) (k : Nat) :
    (upTo n held turns k).awaits.Followed p := by
  induction k with
  | zero => exact fun _ hw => (Option.some_ne_none _ hw.symm).elim
  | succ k ih =>
    rw [upTo_succ]
    refine (Run.along_invariant
      (I := fun s : AsyncFutureDispatcher => s.Sound held p ∧ s.Followed p)
      (G := fun _ t => AsyncFutureDispatcher.SoonTakes t)
      (fun _ t h ht => ⟨h.1.step t, h.2.step h.1 hconverts ht⟩)
      ⟨((sound_upTo n held turns k).futures p).sound, ih⟩ _ ?_).2
    intro pre u post hu
    exact awaitTurns_soon (hfair.takes k) u (hu ▸ List.mem_append_right _ List.mem_cons_self)

/-- A wrapped future stays wrapped. -/
theorem wrapped_upTo (h : ((upTo n held turns k).awaits.ready p).isSome) {m : Nat} (hm : k ≤ m) :
    ((upTo n held turns m).awaits.ready p).isSome := by
  induction m, hm using Nat.le_induction with
  | base => exact h
  | succ m hm ih =>
    rw [upTo_succ]
    exact awaits_step (I := fun s : AsyncFutureDispatcher => (s.ready p).isSome)
      (fun _ t h => AsyncFutureDispatcher.ready_isSome h t) _ ih

/-- A turn ends the task that a worker runs, or leaves it running. -/
theorem ends_or_runs {s : ThreadPool} {t : PoolTurn} (hpc : (s.workers i).pc = .running p) :
    t.ends n s = some p ∨ ((s.step n t).workers i).pc = .running p := by
  cases hends : t.ends n s with
  | none => exact Or.inr (ThreadPool.running_stays hends hpc)
  | some q =>
    obtain ⟨j, _, hj, he⟩ := ThreadPool.ends_some hends
    by_cases hij : i = j
    · subst hij
      exact Or.inl (congrArg some (WorkerPc.running.inj (hj.symm.trans hpc)))
    · rw [he, ThreadPool.setWorker_ne hij]
      exact Or.inr hpc

/-- **A task that runs comes to its end**, sooner or later. -/
theorem Fair.task_ends (hfair : Fair n held turns) (hi : i < n)
    (hp : p ∈ ((upTo n held turns k).pool.workers i).executed) : ∃ m, k ≤ m ∧ p ∈ (upTo n held turns m).ended := by
  by_cases hpc : ((upTo n held turns k).pool.workers i).pc = .running p
  · by_contra hnever
    have hruns : ∀ m, k ≤ m → ((upTo n held turns m).pool.workers i).pc = .running p := by
      intro m hm
      induction m, hm using Nat.le_induction with
      | base => exact hpc
      | succ m hm ih =>
        rw [upTo_succ]
        refine (ends_or_runs (t := (turns m).poolTurn n) ih).resolve_left fun hends => hnever ⟨m + 1, by omega, ?_⟩
        simp [upTo_succ, step, hends]
    have hrunning := hruns k (Nat.le_refl k)
    rw [upTo_pool] at hrunning
    obtain ⟨m, hm, threw, hturn⟩ := hfair.pool.ends i hi k p hrunning
    refine hnever ⟨m + 1, by omega, ?_⟩
    have hends : ((turns m).poolTurn n).ends n (upTo n held turns m).pool = some p := by
      rw [show (turns m).poolTurn n = .taskEnds i threw from hturn]
      simp [PoolTurn.ends, hi, hruns m hm]
    simp [upTo_succ, step, hends]
  · exact ⟨k, Nat.le_refl k, ((sound_upTo n held turns k).ended p).2 ⟨i, hp, hpc⟩⟩

theorem Fair.call_runs (hfair : Fair n held turns) (hn : 0 < n)
    (hcall : (upTo n held turns k).pool.callers p = .returned i) :
    i < n ∧ ∃ m, k ≤ m ∧ p ∈ ((upTo n held turns m).pool.workers i).executed := by
  have hfirst (k : Nat) : ThreadPool.EnqueuesFirst (ThreadPool.upTo n (fun k => (turns k).poolTurn n) k)
      ((turns k).poolTurn n) :=
    upTo_pool n held turns k ▸ hfair.enqueues k
  rw [upTo_pool] at hcall
  have hi : i < n := by
    have hwithin := ThreadPool.choosesWithin_run hn ((List.range k).map fun k => (turns k).poolTurn n) p
    rwa [show (runPool n _).callers p = .returned i from hcall] at hwithin
  obtain ⟨m, hm, hexecuted⟩ := hfair.pool.returned_runs hn hi hfirst hcall
  exact ⟨hi, m, hm, by rwa [upTo_pool]⟩

/-- **A poller that is due has its callback taken by the loop**, sooner or later. -/
theorem Fair.due_leads (hfair : Fair n held turns) (hconverts : (held p).Converts) :
    Leads (step n held) {} turns (fun s => s.awaits.Due p) (fun s => s.awaits.Taken p) := by
  refine LeadsTo.leadsTo_of_rank_along (G := SoonTakes) hfair.takes (fun s => s.awaits.wayTo p)
    (fun _ t => ∃ soon, t = .dispatcher soon) ?_ fun k _ => hfair.dispatcher k
  intro s t htakes hdue
  by_cases ht : ∃ soon, t = .dispatcher soon
  · obtain ⟨soon, rfl⟩ := ht
    obtain rfl : soon = true := htakes
    exact (hdue.dispatcher hconverts).imp_right fun h => ⟨h.1, le_of_lt h.2, fun _ => h.2⟩
  · right
    have hother : (s.step n held t).awaits.Due p ∧ (s.step n held t).awaits.wayTo p = s.awaits.wayTo p := by
      refine Run.along_invariant (I := fun a : AsyncFutureDispatcher => a.Due p ∧ a.wayTo p = s.awaits.wayTo p)
        (G := fun _ t => ¬ AsyncFutureDispatcher.IsDispatcher t) (fun a t h ht => ?_) ⟨hdue, rfl⟩ _ ?_
      · obtain ⟨hdue', hway⟩ : (a.step held t).Due p ∧ (a.step held t).wayTo p = a.wayTo p := h.1.other ht
        exact ⟨hdue', hway.trans h.2⟩
      · intro pre u post hu
        exact awaitTurns_other (fun soon he => ht ⟨soon, he⟩) u (hu ▸ List.mem_append_right _ List.mem_cons_self)
    exact ⟨hother.1, le_of_eq hother.2, fun h => absurd h ht⟩

/-- **A callback that is with the loop leaves its future done**, sooner or later. -/
theorem Fair.scheduled_leads (hfair : Fair n held turns) (hconverts : (held p).Converts) :
    Leads (step n held) {} turns
      (fun s => s.Sound n held ∧ ∃ w, s.awaits.futures p = some w ∧ w.scheduled.isSome)
      (fun s => ∃ w, s.awaits.futures p = some w ∧ w.Done) := by
  refine LeadsTo.leadsTo_of_rank (fun _ => 0) (fun _ t => t = .loop p) ?_ ?_
  · rintro s t ⟨hsound, w, hw, hscheduled⟩
    by_cases ht : t = .loop p
    · subst ht
      refine Or.inl ⟨w.runCallback, ?_, AsyncFutureDispatcher.done_of_taken (hsound.futures p).sound hconverts hw
        (Or.inr hscheduled)⟩
      change (s.awaits.modify p Wrapped.runCallback).futures p = _
      rw [AsyncFutureDispatcher.futures_modify, if_pos rfl, hw]
      rfl
    · obtain ⟨w', hw', hdone | hscheduled'⟩ := (awaits_step (n := n)
        (I := fun a : AsyncFutureDispatcher => a.Sound held p ∧ a.Taken p)
        (fun a t h => ⟨h.1.step t, h.2.step h.1 hconverts t⟩) t
        ⟨(hsound.futures p).sound, w, hw, Or.inr hscheduled⟩).2
      · exact Or.inl ⟨w', hw', hdone⟩
      · exact Or.inr ⟨⟨hsound.step t, w', hw', hscheduled'⟩, Nat.le_refl 0, fun h => absurd h ht⟩
  · rintro k ⟨_, w, hw, hscheduled⟩
    exact hfair.loop p k w hw hscheduled

end AsyncCalls

/-- **Every await returns.**  On a schedule that keeps the threads of the pool and of the dispatcher going, every task to
its end, and an event loop that takes and runs its callbacks: a future that is wrapped, of a call whose result or error
converts, is done sooner or later; it is cancelled then, or set to what the call came to. -/
theorem every_await_returns (n : Nat) (held : Nat → FutureOutcome) (turns : Nat → AsyncTurn) (hn : 0 < n)
    (hfair : AsyncCalls.Fair n held turns) (p : Nat) (hconverts : (held p).Converts) (k : Nat)
    (hwrapped : (AsyncCalls.upTo n held turns k).awaits.futures p ≠ none) :
    ∃ m, k ≤ m ∧ ∃ w, (AsyncCalls.upTo n held turns m).awaits.futures p = some w ∧ w.Done ∧ w.future.Of (held p) := by
  have hisSome : ((AsyncCalls.upTo n held turns k).awaits.ready p).isSome := by
    rwa [AsyncFutureDispatcher.ready, Option.isSome_map, Option.isSome_iff_ne_none]
  obtain ⟨b, hb⟩ := Option.isSome_iff_exists.1 hisSome
  obtain ⟨⟨i, hcall⟩, _⟩ := (AsyncCalls.sound_upTo n held turns k).ready p b hb
  -- the task is run, and comes to its end
  obtain ⟨hi, m₁, hm₁, hexecuted⟩ := hfair.call_runs hn hcall
  obtain ⟨m₂, hm₂, hended⟩ := hfair.task_ends hi hexecuted
  have hready : (AsyncCalls.upTo n held turns m₂).awaits.ready p = some true := by
    obtain ⟨b', hb'⟩ := Option.isSome_iff_exists.1 (AsyncCalls.wrapped_upTo hisSome (Nat.le_trans hm₁ hm₂))
    rw [hb', (((AsyncCalls.sound_upTo n held turns m₂).ready p b' hb').2.2 hended)]
  -- the dispatcher finds it over, and the loop runs its callback
  obtain ⟨m₃, hm₃, w, hw, htaken⟩ : ∃ m₃, m₂ ≤ m₃ ∧ (AsyncCalls.upTo n held turns m₃).awaits.Taken p := by
    obtain ⟨w, hw, _⟩ := Option.map_eq_some_iff.1 hready
    rcases hfair.followed hconverts m₂ w hw with hpolls | htaken
    · exact hfair.due_leads hconverts m₂ ⟨hready, hpolls, AsyncCalls.resting_upTo n held turns m₂⟩
    · exact ⟨m₂, Nat.le_refl m₂, w, hw, htaken⟩
  have hkm₃ : k ≤ m₃ := Nat.le_trans (Nat.le_trans hm₁ hm₂) hm₃
  obtain ⟨m, hm, w, hw, hdone⟩ : ∃ m, m₃ ≤ m ∧ ∃ w, (AsyncCalls.upTo n held turns m).awaits.futures p = some w ∧ w.Done := by
    rcases htaken with hdone | hscheduled
    · exact ⟨m₃, Nat.le_refl m₃, w, hw, hdone⟩
    · exact hfair.scheduled_leads hconverts m₃ ⟨AsyncCalls.sound_upTo n held turns m₃, w, hw, hscheduled⟩
  exact ⟨m, Nat.le_trans hkm₃ hm, w, hw, hdone, (((AsyncCalls.sound_upTo n held turns m).futures p).wrapped w hw).value⟩

/-! ## One await -/

/-- The pool runs one call's task; its future is wrapped, and then everybody has a turn in turn. -/
def oneAwait (k : Nat) : AsyncTurn :=
  if k < 21 then .pool (ThreadPool.oneCall k)
  else if k = 21 then .wrap 0
  else if k % 4 = 0 then .dispatcher true
  else if k % 4 = 1 then .loop 0
  else if k % 4 = 2 then .pool (.worker 0)
  else .pool (.taskEnds 0 false)

namespace AsyncCalls

theorem oneAwait_oneCall : ThreadPool.OneCall fun k => (oneAwait k).poolTurn 1 where
  front k hk := by
    rw [oneAwait, if_pos hk]
    rfl
  rest k hk := by
    rw [oneAwait, if_neg (by omega)]
    split
    · exact Or.inr ⟨1, false, rfl⟩
    · split
      · exact Or.inr ⟨1, false, rfl⟩
      · split
        · exact Or.inr ⟨1, false, rfl⟩
        · split
          · exact Or.inl ⟨0, rfl⟩
          · exact Or.inr ⟨0, false, rfl⟩
  worker k := by
    refine ⟨4 * k + 22, by omega, ?_⟩
    rw [oneAwait, if_neg (by omega), if_neg (by omega), if_neg (by omega), if_neg (by omega), if_pos (by omega)]
    rfl
  ends k := by
    refine ⟨4 * k + 23, by omega, ?_⟩
    rw [oneAwait, if_neg (by omega), if_neg (by omega), if_neg (by omega), if_neg (by omega), if_neg (by omega)]
    rfl

/-- The call comes to nothing, in the sense of `void`. -/
def heldVoid (_ : Nat) : FutureOutcome := .ok .void

theorem oneAwait_fair : Fair 1 heldVoid oneAwait where
  pool := oneAwait_oneCall.fair
  enqueues k := by
    rw [upTo_pool]
    exact oneAwait_oneCall.enqueuesFirst k
  dispatcher k := by
    refine ⟨4 * k + 24, by omega, true, ?_⟩
    rw [oneAwait, if_neg (by omega), if_neg (by omega), if_pos (by omega)]
  takes k := by
    unfold oneAwait
    repeat' split
    all_goals trivial
  loop p k w hw _ := by
    by_cases hp : p = 0
    · subst hp
      refine ⟨4 * k + 25, by omega, ?_⟩
      rw [oneAwait, if_neg (by omega), if_neg (by omega), if_neg (by omega), if_pos (by omega)]
    · -- no other call is ever made
      obtain ⟨⟨i, hcall⟩, _⟩ := (sound_upTo 1 heldVoid oneAwait k).ready p w.ready (by
        rw [AsyncFutureDispatcher.ready, hw]
        rfl)
      rw [upTo_pool] at hcall
      cases (oneAwait_oneCall.idle hp k).symm.trans hcall

end AsyncCalls

theorem oneAwait_returns : ∃ m, 22 ≤ m ∧ ∃ w,
    (AsyncCalls.upTo 1 AsyncCalls.heldVoid oneAwait m).awaits.futures 0 = some w ∧ w.Done ∧
      w.future.Of (AsyncCalls.heldVoid 0) := by
  have hwrapped : ((AsyncCalls.upTo 1 AsyncCalls.heldVoid oneAwait 22).awaits.futures 0).isSome := by decide +kernel
  exact every_await_returns 1 AsyncCalls.heldVoid oneAwait (by decide) AsyncCalls.oneAwait_fair 0 rfl 22
    (Option.isSome_iff_ne_none.1 hwrapped)

end PyNetX
