import PyNetX.Lib.LeadsTo
import PyNetX.PoolIdle
import PyNetX.PoolStop
/-!
# PoolLive — every task of a pool is run, sooner or later

`enqueue` leaves the mutex before it notifies, so a worker may block on a queue that holds a task; the call that put it
there is then still to notify.  On a schedule that keeps no thread out for ever every call of `enqueue` comes to its end
and every task that was queued before the destructor is run.
-/
namespace PyNetX

open Run (run Along)
open LeadsTo (after Leads)

/-- The worker at whose mutex a call is or has been, up to its notification. -/
def CallerPc.entered : CallerPc → Option Nat
  | .emplace best | .count best | .unlock best | .notify best => some best
  | _ => none

/-- The call has put its task in worker `i`'s queue and not notified it yet. -/
def CallerPc.ToNotify (i : Nat) (c : CallerPc) : Prop := c = .count i ∨ c = .unlock i ∨ c = .notify i

namespace ThreadPool

/-- **What call `p`'s turn does at the worker it has chosen.** -/
inductive CallAt (p i : Nat) (w : Worker) : CallerPc → CallerPc → Worker → Prop where
  | enter (hfree : w.mtx = none) : CallAt p i w (.lock i) (.emplace i) { w with mtx := some (.caller p) }
  | emplace : CallAt p i w (.emplace i) (.count i) { w with tasks := w.tasks ++ [p], accepted := w.accepted ++ [p] }
  | throw : CallAt p i w (.emplace i) .threw { w with mtx := none }
  | count : CallAt p i w (.count i) (.unlock i) { w with inflight := fetchAdd w.inflight }
  | leave : CallAt p i w (.unlock i) (.notify i) { w with mtx := none }
  | notify : CallAt p i w (.notify i) (.returned i) w.notified

/-- **What a turn is to worker `i`.** -/
inductive Sees (s s' : ThreadPool) (i : Nat) : Prop where
  | same (hc : s'.callers = s.callers) (hw : s'.workers i = s.workers i)
  | notified (hc : s'.callers = s.callers) (hw : s'.workers i = (s.workers i).notified)
  | move (hc : s'.callers = s.callers) (hm : WorkerMove s.stop (s.workers i) (s'.workers i))
  | call {p : Nat} {c' : CallerPc} (hc : s'.callers = Function.update s.callers p c')
      (hm : CallAt p i (s.workers i) (s.callers p) c' (s'.workers i))
  | away {p : Nat} {c' : CallerPc} (hc : s'.callers = Function.update s.callers p c')
      (hw : s'.workers i = s.workers i) (hbefore : (s.callers p).entered ≠ some i) (hbehind : c'.entered ≠ some i)

variable {n i p : Nat} {s s' : ThreadPool} {w w' : Worker} {c c' : CallerPc}

theorem entered_of_looks (h : c.looks = true) : c.entered = none := by
  cases c with
  | idle | scan => rfl
  | _ => cases h

/-- A call's turn, as worker `i` sees it. -/
theorem CallerMove.sees (hm : CallerMove n s p (s.callers p) c' s') (i : Nat) : Sees s s' i := by
  have hother : ∀ {best : Nat} {w : Worker}, i ≠ best → ((s.setWorker best w).setCaller p c').workers i = s.workers i :=
    fun h => setWorker_ne h
  generalize hc : s.callers p = c at hm
  cases hm with
  | look hlooks hlook =>
    refine .away (p := p) rfl rfl ?_ ?_
    · rw [hc, entered_of_looks hlooks]
      nofun
    · rcases hlook with hlook | ⟨best, rfl⟩
      · rw [entered_of_looks hlook]
        nofun
      · nofun
  | @enter best hbest hfree =>
    by_cases hi : i = best
    · subst hi
      refine .call (p := p) rfl ?_
      rw [hc, setCaller_workers, setWorker_self]
      exact .enter hfree
    · exact .away (p := p) rfl (hother hi) (by rw [hc]; nofun) (fun he => hi (Option.some.inj he).symm)
  | @emplace best | @throw best | @count best | @leave best | @notify best =>
    by_cases hi : i = best
    · subst hi
      refine .call (p := p) rfl ?_
      rw [hc, setCaller_workers, setWorker_self]
      constructor
    · have hne : (some best : Option Nat) ≠ some i := fun he => hi (Option.some.inj he).symm
      refine .away (p := p) rfl (hother hi) (by rw [hc]; exact hne) ?_
      first
        | exact hne
        | nofun

/-- **What any turn is to worker `i`.** -/
theorem step_sees (n : Nat) (s : ThreadPool) (t : PoolTurn) (i : Nat) : Sees s (s.step n t) i := by
  obtain he | ⟨j, w', hm, he⟩ | ⟨p, room, c', _, hm⟩ | ⟨_, hm⟩ := step_cases n s t
  · rw [he]
    exact .same rfl rfl
  · rw [he]
    by_cases hi : i = j
    · subst hi
      exact .move rfl (by rwa [setWorker_self])
    · exact .same rfl (setWorker_ne hi)
  · exact CallerMove.sees hm i
  · generalize s.step n t = s' at hm
    cases hm with
    | @notify j hpc hj =>
      by_cases hi : i = j
      · subst hi
        exact .notified rfl setWorker_self
      · exact .same rfl (setWorker_ne hi)
    | stop | notified | join | joined => exact .same rfl rfl

/-! ## A worker that blocks on a task -/

/-- The invariant of worker `i`: who blocks with a task in its queue is still to be notified of it, and who is past the
predicate has found it true. -/
structure Attended (s : ThreadPool) (i : Nat) : Prop where
  notified : (s.workers i).pc = .blocked → ∀ p ∈ (s.workers i).tasks, (s.callers p).ToNotify i
  awake : (s.workers i).pc = .take → s.stop = true ∨ (s.workers i).tasks ≠ []

theorem stop_step (t : PoolTurn) (h : s.stop = true) : (s.step n t).stop = true := by
  obtain he | ⟨j, w', _, he⟩ | ⟨p, room, c', _, hm⟩ | ⟨_, hm⟩ := step_cases n s t
  · rwa [he]
  · rwa [he]
  · rwa [(CallerMove.frame hm).1]
  · generalize s.step n t = s' at hm
    cases hm with
    | stop => rfl
    | notify | notified | join | joined => exact h

theorem notified_pc_take (h : w.notified.pc = .take) : w.pc = .take := by
  unfold Worker.notified at h
  split at h
  · cases h
  · exact h

theorem toNotify_update {q : Nat} (hc : s'.callers = Function.update s.callers q c') (hp : (s.callers p).ToNotify i)
    (hq : p = q → c'.ToNotify i) : (s'.callers p).ToNotify i := by
  rw [hc, Function.update_apply]
  split
  · exact hq ‹_›
  · exact hp

theorem Attended.of_worker (hw : s'.workers i = w)
    (hnotified : w.pc = .blocked → ∀ p ∈ w.tasks, (s'.callers p).ToNotify i)
    (hawake : w.pc = .take → s'.stop = true ∨ w.tasks ≠ []) : Attended s' i := by
  subst hw
  exact ⟨hnotified, hawake⟩

theorem Attended.sees (h : Attended s i) (hasleep : AsleepEmpty s)
    (hstop : s.stop = true → s'.stop = true) (hs : Sees s s' i) : Attended s' i := by
  cases hs with
  | same hc hw =>
    refine .of_worker hw ?_ (fun hpc => (h.awake hpc).imp_left hstop)
    rw [hc]
    exact h.notified
  | notified hc hw =>
    refine .of_worker hw (fun hpc => absurd hpc (notified_not_blocked _)) fun hpc => ?_
    rw [notified_eq]
    exact (h.awake (notified_pc_take hpc)).imp_left hstop
  | move hc hm =>
    generalize hw : s'.workers i = w' at hm
    refine .of_worker hw ?_ ?_
    · intro hpc p hp
      cases hm with
      | block hsleep =>
        rw [hasleep i hsleep] at hp
        cases hp
      | enter | awake | drowse | wake | exit | pop | countOff | ended => cases hpc
    · intro hpc
      cases hm with
      | awake _ htrue => exact htrue.imp_left hstop
      | enter | drowse | block | wake | exit | pop | countOff | ended => cases hpc
  | away hc hw hbefore hbehind =>
    refine .of_worker hw (fun hpc q hq => ?_) (fun hpc => (h.awake hpc).imp_left hstop)
    refine toNotify_update hc (h.notified hpc q hq) fun he => absurd ?_ hbefore
    subst he
    rcases h.notified hpc q hq with hq | hq | hq <;> rw [hq] <;> rfl
  | @call p c' hc hm =>
    generalize hw : s'.workers i = w' at hm
    generalize hp : s.callers p = c at hm
    cases hm with
    | enter | throw | count | leave =>
      refine .of_worker hw (fun hpc q hq => toNotify_update hc (h.notified hpc q hq) ?_)
        (fun hpc => (h.awake hpc).imp_left hstop)
      rintro rfl
      have hto := h.notified hpc q hq
      rw [hp] at hto
      first
        | exact Or.inr (Or.inl rfl)
        | exact Or.inr (Or.inr rfl)
        | rcases hto with hto | hto | hto <;> cases hto
    | emplace =>
      refine .of_worker hw (fun hpc q hq => ?_) (fun _ => Or.inr (List.concat_ne_nil _ _))
      rcases List.mem_append.1 hq with hq | hq
      · exact toNotify_update hc (h.notified hpc q hq) fun _ => Or.inl rfl
      · rw [List.mem_singleton.1 hq, hc, Function.update_self]
        exact Or.inl rfl
    | notify =>
      refine .of_worker hw (fun hpc => absurd hpc (notified_not_blocked _)) fun hpc => ?_
      rw [notified_eq]
      exact (h.awake (notified_pc_take hpc)).imp_left hstop

theorem attended_run (n : Nat) (turns : List PoolTurn) (i : Nat) : Attended (runPool n turns) i := by
  induction turns using List.reverseRecOn with
  | nil => exact ⟨fun hpc => (by cases hpc), fun hpc => (by cases hpc)⟩
  | append_singleton turns t ih =>
    rw [runPool, Run.run_concat]
    exact ih.sees (asleepEmpty_run n turns) (stop_step t) (step_sees n _ t i)

/-! ## Turns that move a thread on -/

/-- A call's turns up to its end, at most. -/
def toGo (n : Nat) : CallerPc → Nat
  | .idle => n + 7
  | .scan i _ _ => n - i + 6
  | .lock _ => 5
  | .emplace _ => 4
  | .count _ => 3
  | .unlock _ => 2
  | .notify _ => 1
  | .returned _ | .threw => 0

/-- A call on a pool of `n` workers chooses one of them. -/
def ChoosesWithin (n : Nat) : CallerPc → Prop
  | .scan _ best _ | .lock best | .emplace best | .count best | .unlock best | .notify best | .returned best => best < n
  | .idle | .threw => True

/-- **A call's own turn brings it nearer to its end**, unless another thread holds the mutex. -/
theorem callerStep_toGo (hwithin : ChoosesWithin n (s.callers p)) (room : Bool) :
    toGo n ((s.callerStep n p room).callers p) < toGo n (s.callers p) ∨ CallEnded (s.callers p) ∧ s.callers p ≠ .idle ∨
      ∃ best < n, s.callers p = .lock best ∧ (s.workers best).mtx ≠ none := by
  unfold callerStep
  cases hp : s.callers p with
  | idle => exact Or.inl (by simp [toGo])
  | scan i best bestCount =>
    left
    simp only
    split
    · split <;> (simp only [setCaller_self, toGo]; omega)
    · simp only [setCaller_self, toGo]
      omega
  | lock best =>
    rw [hp] at hwithin
    by_cases hfree : (s.workers best).mtx = none
    · exact Or.inl (by simp [toGo, hfree, show best < n from hwithin])
    · exact Or.inr (Or.inr ⟨best, hwithin, rfl, hfree⟩)
  | emplace best =>
    left
    simp only
    split <;> simp [toGo]
  | count best | unlock best | notify best => exact Or.inl (by simp [toGo])
  | returned | threw => exact Or.inr (Or.inl ⟨trivial, nofun⟩)

theorem step_callers_ne {t : PoolTurn} (ht : ∀ room, t ≠ .caller p room) : (s.step n t).callers p = s.callers p := by
  obtain he | ⟨j, w', _, he⟩ | ⟨q, room, c', rfl, hm⟩ | ⟨_, hm⟩ := step_cases n s t
  · rw [he]
  · rw [he]
    rfl
  · rw [CallerMove.callers hm, Function.update_of_ne]
    rintro rfl
    exact ht room rfl
  · generalize s.step n t = s' at hm
    cases hm <;> rfl

theorem choosesWithin_step (hn : 0 < n) (h : ChoosesWithin n (s.callers p)) (t : PoolTurn) :
    ChoosesWithin n ((s.step n t).callers p) := by
  by_cases ht : ∃ room, t = .caller p room
  · obtain ⟨room, rfl⟩ := ht
    simp only [ThreadPool.step]
    unfold callerStep
    cases hp : s.callers p with
    | idle => simpa [ChoosesWithin] using hn
    | scan i best bestCount =>
      rw [hp] at h
      simp only
      split
      · rename_i hi
        split
        · simpa [ChoosesWithin] using hi
        · simpa [ChoosesWithin] using h
      · simpa [ChoosesWithin] using h
    | lock best | emplace best =>
      rw [hp] at h
      simp only
      split
      · simpa [ChoosesWithin] using h
      · simp [ChoosesWithin, hp, show best < n from h]
    | count best | unlock best | notify best =>
      rw [hp] at h
      simpa [ChoosesWithin] using h
    | returned | threw => simpa only [hp] using h
  · rwa [step_callers_ne fun room he => ht ⟨room, he⟩]

theorem choosesWithin_run (hn : 0 < n) (turns : List PoolTurn) (p : Nat) :
    ChoosesWithin n ((runPool n turns).callers p) :=
  Run.run_invariant (I := fun s : ThreadPool => ChoosesWithin n (s.callers p)) (fun _ t h => choosesWithin_step hn h t)
    turns {} trivial

/-- **A worker's turn moves it on**, unless it is blocked, runs a task, has returned or finds its mutex held. -/
theorem workerStep_moves (h : Attended s i) (hi : i < n) :
    ((s.step n (.worker i)).workers i).pc ≠ (s.workers i).pc ∨ (s.workers i).pc = .blocked ∨
      (∃ task, (s.workers i).pc = .running task) ∨ (s.workers i).pc = .returned ∨
      (((s.workers i).pc = .lock ∨ (s.workers i).pc = .woken) ∧ (s.workers i).mtx ≠ none) := by
  simp only [ThreadPool.step, if_pos hi]
  unfold workerStep
  cases hpc : (s.workers i).pc with
  | blocked => exact Or.inr (Or.inl rfl)
  | running task => exact Or.inr (Or.inr (Or.inl ⟨task, rfl⟩))
  | returned => exact Or.inr (Or.inr (Or.inr (Or.inl rfl)))
  | lock | woken =>
    by_cases hfree : (s.workers i).mtx = none
    · exact Or.inl (by simp [hpc, hfree])
    · exact Or.inr (Or.inr (Or.inr (Or.inr ⟨by simp, hfree⟩)))
  | check =>
    left
    simp only [hpc, setWorker_self]
    split <;> simp
  | sleep | count => exact Or.inl (by simp [hpc])
  | take =>
    left
    simp only [hpc]
    split
    · simp
    · rename_i hgo
      split
      · rename_i hempty
        exact absurd ⟨(h.awake hpc).resolve_right fun hne => hne hempty, hempty⟩ hgo
      · simp

/-! ## Schedules -/

/-- The thread stands in front of worker `i`'s mutex. -/
def InFront (s : ThreadPool) (i : Nat) : PoolThread → Prop
  | .worker => (s.workers i).pc = .lock ∨ (s.workers i).pc = .woken
  | .caller p => s.callers p = .lock i

/-- A turn of the thread at worker `i`. -/
def TurnOf (i : Nat) : PoolThread → PoolTurn → Prop
  | .worker, t => t = .worker i
  | .caller p, t => ∃ room, t = .caller p room

/-- Between `s` and `s'` the thread at worker `i` has come to another program point. -/
def Moved (s s' : ThreadPool) (i : Nat) : PoolThread → Prop
  | .worker => (s'.workers i).pc ≠ (s.workers i).pc
  | .caller p => s'.callers p ≠ s.callers p

/-- The pool in front of turn `k` of a schedule. -/
def upTo (n : Nat) (turns : Nat → PoolTurn) (k : Nat) : ThreadPool := after (step n) {} turns k

/-- No thread is kept out for ever, every task comes to an end, and a thread in front of a mutex that is free again and
again gets it. -/
structure Fair (n : Nat) (turns : Nat → PoolTurn) : Prop where
  worker : ∀ i < n, ∀ k, ∃ m, k ≤ m ∧ turns m = .worker i
  ends : ∀ i < n, ∀ k task, ((upTo n turns k).workers i).pc = .running task →
    ∃ m, k ≤ m ∧ ∃ threw, turns m = .taskEnds i threw
  caller : ∀ p k, ¬ CallEnded ((upTo n turns k).callers p) → ∃ m, k ≤ m ∧ ∃ room, turns m = .caller p room
  mutex : ∀ i < n, ∀ thread k, InFront (upTo n turns k) i thread →
    (∀ l, ∃ m, l ≤ m ∧ ((upTo n turns m).workers i).mtx = none) →
      ∃ m, k ≤ m ∧ TurnOf i thread (turns m) ∧ ((upTo n turns m).workers i).mtx = none

/-- The pool has come to this by turns. -/
def Reached (n : Nat) (s : ThreadPool) : Prop := ∃ turns, s = runPool n turns

theorem Reached.step (h : Reached n s) (t : PoolTurn) : Reached n (s.step n t) := by
  obtain ⟨turns, rfl⟩ := h
  exact ⟨turns ++ [t], (Run.run_concat turns t).symm⟩

theorem Reached.ok (h : Reached n s) (i : Nat) : WorkerOk s i := by
  obtain ⟨turns, rfl⟩ := h
  exact workerOk_run n turns i

theorem Reached.attended (h : Reached n s) (i : Nat) : Attended s i := by
  obtain ⟨turns, rfl⟩ := h
  exact attended_run n turns i

theorem Reached.asleep (h : Reached n s) : AsleepEmpty s := by
  obtain ⟨turns, rfl⟩ := h
  exact asleepEmpty_run n turns

variable {turns : Nat → PoolTurn} {k : Nat}

theorem reached_upTo (n : Nat) (turns : Nat → PoolTurn) (k : Nat) : Reached n (upTo n turns k) := ⟨_, rfl⟩

theorem upTo_succ (n : Nat) (turns : Nat → PoolTurn) (k : Nat) :
    upTo n turns (k + 1) = (upTo n turns k).step n (turns k) :=
  LeadsTo.after_succ k

/-- **A worker that is neither blocked nor gone goes on**, if its mutex is free again and again. -/
theorem Fair.worker_goes (hfair : Fair n turns) (hi : i < n) (hblocked : ((upTo n turns k).workers i).pc ≠ .blocked)
    (hreturned : ((upTo n turns k).workers i).pc ≠ .returned)
    (hfree : InFront (upTo n turns k) i .worker → ∀ l, ∃ m, l ≤ m ∧ ((upTo n turns m).workers i).mtx = none) :
    ∃ m, k ≤ m ∧ Moved (upTo n turns m) ((upTo n turns m).step n (turns m)) i .worker := by
  -- its turn moves it, if it has not come to another place in the meantime
  have hgoes : ∃ m, k ≤ m ∧ (((upTo n turns m).workers i).pc = ((upTo n turns k).workers i).pc →
      ((upTo n turns (m + 1)).workers i).pc ≠ ((upTo n turns m).workers i).pc) := by
    by_cases hrunning : ∃ task, ((upTo n turns k).workers i).pc = .running task
    · obtain ⟨task, hpc⟩ := hrunning
      obtain ⟨m, hm, threw, hturn⟩ := hfair.ends i hi k task hpc
      refine ⟨m, hm, fun hsame => ?_⟩
      rw [upTo_succ, hturn, hsame, hpc]
      simp [ThreadPool.step, hi, taskEnds, hsame, hpc]
    · have hmoves := fun m => workerStep_moves ((reached_upTo n turns m).attended i) hi
      by_cases hfront : InFront (upTo n turns k) i .worker
      · obtain ⟨m, hm, hturn, hnone⟩ := hfair.mutex i hi .worker k hfront (hfree hfront)
        refine ⟨m, hm, fun hsame => ?_⟩
        rw [upTo_succ, show turns m = .worker i from hturn]
        refine (hmoves m).resolve_right ?_
        rw [hsame]
        rintro (h | h | h | ⟨-, h⟩)
        · exact hblocked h
        · exact hrunning h
        · exact hreturned h
        · exact h hnone
      · obtain ⟨m, hm, hturn⟩ := hfair.worker i hi k
        refine ⟨m, hm, fun hsame => ?_⟩
        rw [upTo_succ, hturn]
        refine (hmoves m).resolve_right ?_
        rw [hsame]
        rintro (h | h | h | ⟨h, -⟩)
        · exact hblocked h
        · exact hrunning h
        · exact hreturned h
        · exact hfront h
  obtain ⟨m, hm, hne⟩ := LeadsTo.changes (fun s : ThreadPool => (s.workers i).pc) hgoes
  rw [LeadsTo.after_succ] at hne
  exact ⟨m, hm, hne⟩

/-- **A call under way goes on**, if the mutex it stands in front of is free again and again. -/
theorem Fair.caller_goes (hfair : Fair n turns) (hn : 0 < n) (hunder : ¬ CallEnded ((upTo n turns k).callers p))
    (hfree : ∀ best < n, InFront (upTo n turns k) best (.caller p) →
      ∀ l, ∃ m, l ≤ m ∧ ((upTo n turns m).workers best).mtx = none) :
    ∃ m, k ≤ m ∧ Moved (upTo n turns m) ((upTo n turns m).step n (turns m)) i (.caller p) := by
  have hmoves : ∀ m room, turns m = .caller p room → (upTo n turns m).callers p = (upTo n turns k).callers p →
      (∀ best < n, InFront (upTo n turns k) best (.caller p) → ((upTo n turns m).workers best).mtx = none) →
      (upTo n turns (m + 1)).callers p ≠ (upTo n turns m).callers p := by
    intro m room hturn hsame hnone he
    rw [upTo_succ, hturn] at he
    rcases callerStep_toGo (choosesWithin_run hn ((List.range m).map turns) p) room with h | ⟨h, -⟩ | ⟨best, hb, h, hheld⟩
    · exact absurd (congrArg (toGo n) he) (Nat.ne_of_lt h)
    · exact hunder (hsame ▸ h)
    · exact hheld (hnone best hb (hsame.symm.trans h))
  have hgoes : ∃ m, k ≤ m ∧ ((upTo n turns m).callers p = (upTo n turns k).callers p →
      (upTo n turns (m + 1)).callers p ≠ (upTo n turns m).callers p) := by
    by_cases hfront : ∃ best < n, InFront (upTo n turns k) best (.caller p)
    · obtain ⟨best, hb, hfront⟩ := hfront
      obtain ⟨m, hm, ⟨room, hturn⟩, hnone⟩ := hfair.mutex best hb (.caller p) k hfront (hfree best hb hfront)
      refine ⟨m, hm, fun hsame => hmoves m room hturn hsame fun best' _ hfront' => ?_⟩
      obtain rfl : best = best' := CallerPc.lock.inj (hfront.symm.trans hfront')
      exact hnone
    · obtain ⟨m, hm, room, hturn⟩ := hfair.caller p k hunder
      exact ⟨m, hm, fun hsame => hmoves m room hturn hsame fun best hb h => absurd ⟨best, hb, h⟩ hfront⟩
  obtain ⟨m, hm, hne⟩ := LeadsTo.changes (fun s : ThreadPool => s.callers p) hgoes
  rw [LeadsTo.after_succ] at hne
  exact ⟨m, hm, hne⟩

/-! ## Mutexes -/

theorem worker_of_inside {pc : WorkerPc} (h : pc.inside = true) :
    pc ≠ .blocked ∧ pc ≠ .returned ∧ ¬ (pc = .lock ∨ pc = .woken) := by
  cases pc <;> simp [WorkerPc.inside] at h ⊢

theorem caller_of_inside (h : c.inside = some i) : c.entered = some i ∧ ¬ CallEnded c ∧ ∀ best, c ≠ .lock best := by
  cases c <;> simp_all [CallerPc.inside, CallerPc.entered, CallEnded]

/-- The turns of the thread up to its leaving worker `i`'s mutex, or more. -/
def insideToGo (n : Nat) (s : ThreadPool) (i : Nat) : PoolThread → Nat
  | .worker => if (s.workers i).pc = .check then 1 else 0
  | .caller p => toGo n (s.callers p)

/-- What goes by the holder of worker `i`'s mutex leaves it where it is. -/
theorem insideToGo_same {thread : PoolThread} (hpc : thread = .worker → (s'.workers i).pc = (s.workers i).pc)
    (hc : ∀ p, thread = .caller p → s'.callers p = s.callers p) :
    insideToGo n s' i thread ≤ insideToGo n s i thread ∧
      (Moved s s' i thread → insideToGo n s' i thread < insideToGo n s i thread) := by
  cases thread with
  | worker =>
    have he := hpc rfl
    exact ⟨by simp only [insideToGo, he, le_refl], fun hmoved => absurd he hmoved⟩
  | caller p =>
    have he := hc p rfl
    exact ⟨by simp only [insideToGo, he, le_refl], fun hmoved => absurd he hmoved⟩

/-- **The holder of a mutex comes nearer to leaving with every turn it takes**, and no other thread takes it. -/
theorem Sees.held {thread : PoolThread} (hs : Sees s s' i) (hok : WorkerOk s i)
    (hheld : (s.workers i).mtx = some thread) : (s'.workers i).mtx = none ∨
      (s'.workers i).mtx = some thread ∧ insideToGo n s' i thread ≤ insideToGo n s i thread ∧
        (Moved s s' i thread → insideToGo n s' i thread < insideToGo n s i thread) := by
  have hinside : s.Inside i thread := (hok.guards thread).2 hheld
  have hnotified : thread = .worker → (s.workers i).notified.pc = (s.workers i).pc := by
    rintro rfl
    unfold Worker.notified
    split
    · rename_i hpc
      exact absurd hpc (worker_of_inside hinside).1
    · rfl
  cases hs with
  | same hc hw => exact Or.inr ⟨by rw [hw, hheld], insideToGo_same (fun _ => by rw [hw]) fun p _ => by rw [hc]⟩
  | notified hc hw =>
    refine Or.inr ⟨?_, insideToGo_same (fun hworker => by rw [hw, hnotified hworker]) fun p _ => by rw [hc]⟩
    rw [hw, notified_eq, hheld]
  | away hc hw hbefore hbehind =>
    refine Or.inr ⟨by rw [hw, hheld], insideToGo_same (fun _ => by rw [hw]) fun p hp => ?_⟩
    subst hp
    rw [hc, Function.update_of_ne]
    rintro rfl
    exact hbefore (caller_of_inside hinside).1
  | move hc hm =>
    generalize hw : s'.workers i = w' at hm ⊢
    have hcaller : ∀ p, thread = .caller p → s'.callers p = s.callers p := fun p _ => by rw [hc]
    -- the worker is inside, and the holder, or it is outside
    have hworker : (s.workers i).pc.inside = true → thread = .worker := fun hin =>
      hok.guards.unique hinside (show s.Inside i .worker from hin)
    cases hm with
    | enter _ hfree => rw [hheld] at hfree; cases hfree
    | awake hpc | drowse hpc =>
      have ht := hworker (by rw [hpc]; rfl)
      subst ht
      refine Or.inr ⟨hheld, ?_⟩
      simp [insideToGo, hw, hpc]
    | block | exit | pop => exact Or.inl rfl
    | wake hpc | countOff hpc | ended hpc =>
      refine Or.inr ⟨hheld, insideToGo_same (fun ht => ?_) hcaller⟩
      subst ht
      rw [Inside, hpc] at hinside
      cases hinside
  | @call q c' hc hm =>
    generalize hw : s'.workers i = w' at hm ⊢
    have hq : s'.callers q = c' := by rw [hc, Function.update_self]
    have hholder : (s.callers q).inside = some i → thread = .caller q := fun hin =>
      hok.guards.unique hinside (show s.Inside i (.caller q) from hin)
    generalize hcq : s.callers q = c at hm hholder
    cases hm with
    | enter hfree => rw [hheld] at hfree; cases hfree
    | throw | leave => exact Or.inl rfl
    | emplace | count =>
      obtain rfl := hholder rfl
      refine Or.inr ⟨hheld, ?_⟩
      simp [insideToGo, hq, hcq, toGo]
    | notify =>
      refine Or.inr ⟨by rw [notified_eq, hheld], insideToGo_same (fun ht => by rw [hw, hnotified ht]) fun p hp => ?_⟩
      rw [hc, Function.update_of_ne]
      rintro rfl
      subst hp
      rw [Inside, hcq] at hinside
      cases hinside

/-- **A mutex is free again and again.** -/
theorem Fair.free_again (hfair : Fair n turns) (hn : 0 < n) (hi : i < n) (l : Nat) :
    ∃ m, l ≤ m ∧ ((upTo n turns m).workers i).mtx = none := by
  cases hheld : ((upTo n turns l).workers i).mtx with
  | none => exact ⟨l, Nat.le_refl l, hheld⟩
  | some thread =>
    refine LeadsTo.leadsTo_of_rank
      (P := fun s => Reached n s ∧ (s.workers i).mtx = some thread) (Q := fun s => (s.workers i).mtx = none)
      (fun s => insideToGo n s i thread) (fun s t => Moved s (s.step n t) i thread) ?_ ?_ l ⟨reached_upTo n turns l, hheld⟩
    · rintro s t ⟨hs, hmtx⟩
      exact ((step_sees n s t i).held (hs.ok i) hmtx).imp_right fun h => ⟨⟨hs.step t, h.1⟩, h.2⟩
    · rintro k ⟨hs, hmtx⟩
      have hinside := ((hs.ok i).guards thread).2 hmtx
      cases thread with
      | worker =>
        obtain ⟨hblocked, hreturned, hfront⟩ := worker_of_inside hinside
        exact hfair.worker_goes (k := k) hi hblocked hreturned fun h => absurd h hfront
      | caller p =>
        obtain ⟨-, hunder, hlock⟩ := caller_of_inside hinside
        exact hfair.caller_goes (k := k) hn hunder fun best _ h => absurd h (hlock best)

/-! ## Tasks -/

/-- A worker's turns up to its next look at its queue, at most; one that blocks waits for the call of `p`. -/
def turnsToTake (n : Nat) (s : ThreadPool) (i p : Nat) : Nat :=
  match (s.workers i).pc with
  | .take | .sleep | .returned => 0
  | .check => 1
  | .lock | .woken => 2
  | .running _ => 3
  | .count _ => 4
  | .blocked => 2 + toGo n (s.callers p)

/-- The turns in front of the running of task `p`, at most: six for each task in front of it. -/
def turnsToRun (n : Nat) (s : ThreadPool) (i p : Nat) : Nat :=
  if (s.workers i).pc = .count p then 0 else 1 + 6 * (s.workers i).tasks.idxOf p + turnsToTake n s i p

/-- Task `p` waits at worker `i`, which has not returned. -/
def Waits (i p : Nat) (s : ThreadPool) : Prop :=
  (s.workers i).pc ≠ .returned ∧ (p ∈ (s.workers i).tasks ∨ (s.workers i).pc = .count p)

/-- A turn has brought task `p` on: its worker, or while that blocks its call, has moved. -/
def Brought (s s' : ThreadPool) (i p : Nat) : Prop :=
  Moved s s' i .worker ∨ (s.workers i).pc = .blocked ∧ Moved s s' i (.caller p)

/-- Task `p` is run, or waits on, and less long if the turn has brought it on. -/
def GoesOn (n : Nat) (s s' : ThreadPool) (i p : Nat) : Prop :=
  p ∈ (s'.workers i).executed ∨ Waits i p s' ∧ turnsToRun n s' i p ≤ turnsToRun n s i p ∧
    (Brought s s' i p → turnsToRun n s' i p < turnsToRun n s i p)

theorem GoesOn.of_less (hwaits : Waits i p s') (hlt : turnsToRun n s' i p < turnsToRun n s i p) : GoesOn n s s' i p :=
  Or.inr ⟨hwaits, Nat.le_of_lt hlt, fun _ => hlt⟩

/-- A turn that leaves the worker where it is, and the call where it is on which it waits. -/
theorem GoesOn.of_same (h : Waits i p s) (hpc : (s'.workers i).pc = (s.workers i).pc)
    (htasks : ∃ later, (s'.workers i).tasks = (s.workers i).tasks ++ later)
    (hcaller : (s.workers i).pc = .blocked → s'.callers p = s.callers p) : GoesOn n s s' i p := by
  obtain ⟨later, htasks⟩ := htasks
  obtain ⟨hreturned, hmem⟩ := h
  have hrank : turnsToRun n s' i p = turnsToRun n s i p := by
    unfold turnsToRun turnsToTake
    rw [hpc]
    by_cases hcount : (s.workers i).pc = .count p
    · rw [if_pos hcount, if_pos hcount]
    · rw [if_neg hcount, if_neg hcount, htasks, List.idxOf_append_of_mem (hmem.resolve_right hcount)]
      cases hb : (s.workers i).pc with
      | blocked => rw [hcaller hb]
      | _ => rfl
  refine Or.inr ⟨⟨hpc ▸ hreturned, ?_⟩, Nat.le_of_eq hrank, fun hbrought => ?_⟩
  · rw [hpc, htasks]
    exact hmem.imp_left (List.mem_append_left later)
  · rcases hbrought with hmoved | ⟨hblocked, hmoved⟩
    · exact absurd hpc hmoved
    · exact absurd (hcaller hblocked) hmoved

/-- A worker that is notified of task `p`, or of any other. -/
theorem GoesOn.of_notified (h : Waits i p s) (hattended : Attended s i) (hpc : (s'.workers i).pc = (s.workers i).notified.pc)
    (htasks : (s'.workers i).tasks = (s.workers i).tasks) : GoesOn n s s' i p := by
  by_cases hblocked : (s.workers i).pc = .blocked
  · have hmem : p ∈ (s.workers i).tasks := h.2.resolve_right (by simp [hblocked])
    rw [Worker.notified, if_pos hblocked] at hpc
    refine .of_less ⟨by simp [hpc], Or.inl (htasks ▸ hmem)⟩ ?_
    have hto : 0 < toGo n (s.callers p) := by
      rcases hattended.notified hblocked p hmem with hto | hto | hto <;> rw [hto] <;> simp [toGo]
    simp only [turnsToRun, turnsToTake, hpc, hblocked, htasks]
    simp only [reduceCtorEq, if_false]
    omega
  · rw [Worker.notified, if_neg hblocked] at hpc
    exact .of_same h hpc ⟨[], by rw [htasks, List.append_nil]⟩ fun hb => absurd hb hblocked

/-- **A worker's move brings every task in its queue on.** -/
theorem GoesOn.move (h : Waits i p s) (hattended : Attended s i) (hasleep : AsleepEmpty s)
    (hm : WorkerMove s.stop (s.workers i) (s'.workers i)) : GoesOn n s s' i p := by
  obtain ⟨hreturned, hmem⟩ := h
  generalize hw : s'.workers i = w' at hm
  have hin (hcount : (s.workers i).pc ≠ .count p) : p ∈ (s.workers i).tasks := hmem.resolve_right hcount
  have hnext (hcount : (s.workers i).pc ≠ .count p) (htasks : w'.tasks = (s.workers i).tasks)
      (hpc : w'.pc ≠ .returned ∧ ∀ task, w'.pc ≠ .count task)
      (hlt : turnsToTake n s' i p < turnsToTake n s i p) : GoesOn n s s' i p := by
    refine .of_less ⟨hw ▸ hpc.1, Or.inl (by rw [hw, htasks]; exact hin hcount)⟩ ?_
    unfold turnsToRun
    rw [if_neg hcount, if_neg (hw ▸ hpc.2 p), hw, htasks]
    omega
  have hempty (htasks : (s.workers i).tasks = []) (hcount : (s.workers i).pc ≠ .count p) : False := by
    have := hin hcount
    rw [htasks] at this
    cases this
  cases hm with
  | enter hpc hfree =>
    refine hnext ?_ rfl ⟨by simp, by simp⟩ ?_
    · rcases hpc with hpc | hpc <;> simp [hpc]
    · rcases hpc with hpc | hpc <;> simp [turnsToTake, hw, hpc]
  | awake hpc | ended hpc =>
    refine hnext (by simp [hpc]) rfl ⟨by simp, by simp⟩ ?_
    simp [turnsToTake, hw, hpc]
  | drowse hpc _ htasks | exit hpc _ htasks => exact (hempty htasks (by simp [hpc])).elim
  | block hpc => exact (hempty (hasleep i hpc) (by simp [hpc])).elim
  | wake hpc => exact .of_notified ⟨hreturned, hmem⟩ hattended (by rw [hw, Worker.notified, if_pos hpc]) (by rw [hw])
  | @pop task tasks hpc htasks =>
    have hp := hin (by simp [hpc])
    have htake : turnsToRun n s i p = 1 + 6 * (task :: tasks).idxOf p := by
      simp [turnsToRun, turnsToTake, hpc, htasks]
    by_cases htask : task = p
    · subst htask
      refine .of_less ⟨by simp [hw], Or.inr (by rw [hw])⟩ ?_
      rw [htake, turnsToRun, hw, if_pos rfl]
      omega
    · rw [htasks] at hp
      refine .of_less ⟨by simp [hw], Or.inl (by rw [hw]; exact (List.mem_cons.1 hp).resolve_left (Ne.symm htask))⟩ ?_
      rw [htake, List.idxOf_cons_ne tasks htask]
      simp only [turnsToRun, turnsToTake, hw]
      rw [if_neg (fun he => htask (WorkerPc.count.inj he))]
      omega
  | @countOff task hpc =>
    by_cases htask : task = p
    · subst htask
      exact Or.inl (by rw [hw]; simp)
    · refine hnext ?_ rfl ⟨by simp, by simp⟩ ?_
      · rw [hpc]
        exact fun he => htask (WorkerPc.count.inj he)
      · simp [turnsToTake, hw, hpc]

/-- **What any turn does to a task that waits.** -/
theorem Sees.goesOn (hs : Sees s s' i) (h : Waits i p s) (hattended : Attended s i) (hasleep : AsleepEmpty s) :
    GoesOn n s s' i p := by
  have hto (hpc : (s.workers i).pc = .blocked) : (s.callers p).ToNotify i :=
    hattended.notified hpc p (h.2.resolve_right (by rw [hpc]; nofun))
  cases hs with
  | same hc hw => exact .of_same h (by rw [hw]) ⟨[], by rw [hw, List.append_nil]⟩ fun _ => by rw [hc]
  | notified hc hw => exact .of_notified h hattended (by rw [hw]) (by rw [hw, notified_eq])
  | move hc hm => exact .move h hattended hasleep hm
  | @away q c' hc hw hbefore hbehind =>
    refine .of_same h (by rw [hw]) ⟨[], by rw [hw, List.append_nil]⟩ fun hpc => ?_
    rw [hc, Function.update_of_ne]
    rintro rfl
    rcases hto hpc with hto | hto | hto <;> rw [hto] at hbefore <;> exact hbefore rfl
  | @call q c' hc hm =>
    generalize hw : s'.workers i = w' at hm
    generalize hq : s.callers q = c at hm
    have hother (hcaller : ¬ c.ToNotify i) : (s.workers i).pc = .blocked → s'.callers p = s.callers p := by
      intro hpc
      rw [hc, Function.update_of_ne]
      rintro rfl
      exact hcaller (hq ▸ hto hpc)
    cases hm with
    | enter | throw =>
      exact .of_same h (by rw [hw]) ⟨[], by rw [hw, List.append_nil]⟩ (hother (by rintro (h | h | h) <;> cases h))
    | emplace => exact .of_same h (by rw [hw]) ⟨[q], by rw [hw]⟩ (hother (by rintro (h | h | h) <;> cases h))
    | notify => exact .of_notified h hattended (by rw [hw]) (by rw [hw, notified_eq])
    | count | leave =>
      by_cases hp : p = q ∧ (s.workers i).pc = .blocked
      · obtain ⟨rfl, hpc⟩ := hp
        refine .of_less ⟨by rw [hw, hpc]; nofun, by rw [hw]; exact h.2⟩ ?_
        simp [turnsToRun, turnsToTake, hw, hpc, hc, hq, toGo]
      · refine .of_same h (by rw [hw]) ⟨[], by rw [hw, List.append_nil]⟩ fun hpc => ?_
        rw [hc, Function.update_of_ne fun he => hp ⟨he, hpc⟩]

/-! ## Every call and every task -/

/-- **A task that waits is run**, sooner or later. -/
theorem Fair.task_runs (hfair : Fair n turns) (hn : 0 < n) (hi : i < n) (p : Nat) :
    Leads (step n) {} turns (fun s => Reached n s ∧ Waits i p s) (fun s => p ∈ (s.workers i).executed) := by
  refine LeadsTo.leadsTo_of_rank (fun s => turnsToRun n s i p) (fun s t => Brought s (s.step n t) i p) ?_ ?_
  · rintro s t ⟨hs, hwaits⟩
    exact ((step_sees n s t i).goesOn hwaits (hs.attended i) hs.asleep).imp_right fun h => ⟨⟨hs.step t, h.1⟩, h.2⟩
  · rintro k ⟨hs, hwaits⟩
    have hfree : ∀ j < n, ∀ l, ∃ m, l ≤ m ∧ ((upTo n turns m).workers j).mtx = none := fun j hj => hfair.free_again hn hj
    by_cases hblocked : ((upTo n turns k).workers i).pc = .blocked
    · -- the call goes on that is to notify the worker, which another may have woken by then
      have hmem : p ∈ ((upTo n turns k).workers i).tasks := hwaits.2.resolve_right (fun he => by cases he.symm.trans hblocked)
      have hunder : ¬ CallEnded ((upTo n turns k).callers p) := by
        rcases ((reached_upTo n turns k).attended i).notified hblocked p hmem with hto | hto | hto <;> rw [hto] <;> exact id
      obtain ⟨m, hm, hmoved⟩ := hfair.caller_goes (i := i) hn hunder fun best hbest _ => hfree best hbest
      by_cases hpc : ((upTo n turns m).workers i).pc = .blocked
      · exact ⟨m, hm, Or.inr ⟨hpc, hmoved⟩⟩
      · obtain ⟨l, hl, hne⟩ := LeadsTo.changes (fun s : ThreadPool => (s.workers i).pc)
          ⟨m, hm, fun he => absurd (he.trans hblocked) hpc⟩
        rw [LeadsTo.after_succ] at hne
        exact ⟨l, hl, Or.inl hne⟩
    · obtain ⟨m, hm, hmoved⟩ := hfair.worker_goes hi hblocked hwaits.1 fun _ => hfree i hi
      exact ⟨m, hm, Or.inl hmoved⟩

/-- A turn leaves a call under way where it is, or brings it nearer to its end. -/
theorem call_step (hs : Reached n s) (hn : 0 < n) (hunder : ¬ CallEnded (s.callers p)) (t : PoolTurn) :
    (s.step n t).callers p = s.callers p ∨ toGo n ((s.step n t).callers p) < toGo n (s.callers p) := by
  by_cases ht : ∃ room, t = .caller p room
  · obtain ⟨room, rfl⟩ := ht
    have hwithin : ChoosesWithin n (s.callers p) := by
      obtain ⟨turns, rfl⟩ := hs
      exact choosesWithin_run hn turns p
    rcases callerStep_toGo hwithin room with h | ⟨h, -⟩ | ⟨best, hbest, hlock, hheld⟩
    · exact Or.inr h
    · exact absurd h hunder
    · exact Or.inl (by simp [ThreadPool.step, callerStep, hlock, hheld])
  · exact Or.inl (step_callers_ne fun room he => ht ⟨room, he⟩)

/-- **A call under way comes to its end**, sooner or later. -/
theorem Fair.call_ends (hfair : Fair n turns) (hn : 0 < n) (p : Nat) :
    Leads (step n) {} turns (fun s => Reached n s ∧ ¬ CallEnded (s.callers p))
      (fun s => CallEnded (s.callers p) ∧ s.callers p ≠ .idle) := by
  refine LeadsTo.leadsTo_of_rank (fun s => toGo n (s.callers p)) (fun s t => Moved s (s.step n t) 0 (.caller p)) ?_ ?_
  · rintro s t ⟨hs, hunder⟩
    rcases call_step hs hn hunder t with he | hlt
    · exact Or.inr ⟨⟨hs.step t, he ▸ hunder⟩, by rw [he], fun hmoved => absurd he hmoved⟩
    · by_cases hended : CallEnded ((s.step n t).callers p)
      · refine Or.inl ⟨hended, fun hidle => ?_⟩
        rw [hidle] at hlt
        cases hc : s.callers p <;> simp only [hc, toGo] at hlt hunder <;> omega
      · exact Or.inr ⟨⟨hs.step t, hended⟩, Nat.le_of_lt hlt, fun _ => hlt⟩
  · rintro k ⟨hs, hunder⟩
    exact hfair.caller_goes hn hunder fun best hbest _ => hfair.free_again hn hbest

theorem returned_stays (h : s.callers p = .returned i) (t : PoolTurn) : (s.step n t).callers p = .returned i := by
  by_cases ht : ∃ room, t = .caller p room
  · obtain ⟨room, rfl⟩ := ht
    simp only [ThreadPool.step, callerStep, h]
  · rw [step_callers_ne fun room he => ht ⟨room, he⟩, h]

theorem returned_upTo {l : Nat} (h : (upTo n turns l).callers p = .returned i) {m : Nat} (hm : l ≤ m) :
    (upTo n turns m).callers p = .returned i := by
  induction m, hm using Nat.le_induction with
  | base => exact h
  | succ m hm ih =>
    rw [upTo_succ]
    exact returned_stays ih (turns m)

/-- **The task of a call that has returned is run**, sooner or later. -/
theorem Fair.returned_runs (hfair : Fair n turns) (hn : 0 < n) (hi : i < n)
    (hfirst : ∀ k, EnqueuesFirst (upTo n turns k) (turns k)) (hp : (upTo n turns k).callers p = .returned i) :
    ∃ m, k ≤ m ∧ p ∈ ((upTo n turns m).workers i).executed := by
  have hok := (reached_upTo n turns k).ok i
  have hmem : p ∈ ((upTo n turns k).workers i).accepted := (hok.placed p).2 (by rw [hp]; rfl)
  have hreturned : ((upTo n turns k).workers i).pc = .returned → _ :=
    (drains_run (LeadsTo.along_range hfirst k)).drained i
  rw [← hok.ordered, List.mem_append, List.mem_append] at hmem
  have hwaits (hmem : p ∈ ((upTo n turns k).workers i).tasks ∨ ((upTo n turns k).workers i).pc = .count p) :
      ∃ m, k ≤ m ∧ p ∈ ((upTo n turns m).workers i).executed := by
    refine hfair.task_runs hn hi p k ⟨reached_upTo n turns k, fun hpc => ?_, hmem⟩
    rcases hmem with hmem | hcount
    · exact absurd (hreturned hpc).2 (List.ne_nil_of_mem hmem)
    · cases hcount.symm.trans hpc
  rcases hmem with (hmem | hmem) | hmem
  · exact ⟨k, Nat.le_refl k, hmem⟩
  · refine hwaits (Or.inr ?_)
    cases hpc : ((upTo n turns k).workers i).pc with
    | count task =>
      rw [hpc] at hmem
      rw [List.mem_singleton.1 hmem]
    | _ =>
      rw [hpc] at hmem
      cases hmem
  · exact hwaits (Or.inl hmem)

/-- **No lost wakeup in the pool.**  Whatever turns the workers, the calls of `enqueue` and the destructor take: a worker
blocks with a task in its queue only as long as the call that put it there is still to notify.  On a schedule that keeps
no thread out for ever and whose calls complete before the destructor sets `stop_`, every call of `enqueue` that has begun
sooner or later throws, or it has returned and its task has been run. -/
theorem every_task_runs (n : Nat) :
    (∀ turns i p, ((runPool n turns).workers i).pc = .blocked → p ∈ ((runPool n turns).workers i).tasks →
      ((runPool n turns).callers p).ToNotify i) ∧
    ∀ turns, 0 < n → Fair n turns → (∀ k, EnqueuesFirst (upTo n turns k) (turns k)) → ∀ k p,
      (upTo n turns k).callers p ≠ .idle → ∃ m, k ≤ m ∧ ((upTo n turns m).callers p = .threw ∨
        ∃ i < n, (upTo n turns m).callers p = .returned i ∧ p ∈ ((upTo n turns m).workers i).executed) := by
  refine ⟨fun turns i p hpc => (attended_run n turns i).notified hpc p, fun turns hn hfair hfirst k p hbegun => ?_⟩
  obtain ⟨l, hl, hended, hidle⟩ : ∃ l, k ≤ l ∧ CallEnded ((upTo n turns l).callers p) ∧
      (upTo n turns l).callers p ≠ .idle := by
    by_cases hended : CallEnded ((upTo n turns k).callers p)
    · exact ⟨k, Nat.le_refl k, hended, hbegun⟩
    · exact hfair.call_ends hn p k ⟨reached_upTo n turns k, hended⟩
  cases hc : (upTo n turns l).callers p with
  | threw => exact ⟨l, hl, Or.inl hc⟩
  | returned i =>
    have hi : i < n := by
      have hwithin := choosesWithin_run hn ((List.range l).map turns) p
      rwa [show (runPool n ((List.range l).map turns)).callers p = .returned i from hc] at hwithin
    obtain ⟨m, hm, hexecuted⟩ := hfair.returned_runs hn hi hfirst hc
    exact ⟨m, Nat.le_trans hl hm, Or.inr ⟨i, hi, returned_upTo hc hm, hexecuted⟩⟩
  | _ => first | exact absurd hc hidle | (rw [hc] at hended; cases hended)

/-- One call and one worker: it runs the task and blocks again. -/
def oneCall (k : Nat) : PoolTurn :=
  if k < 8 then .caller 0 true else if k % 2 = 0 then .worker 0 else .taskEnds 0 false

/-- A schedule with the one call of `oneCall` in front, and nothing but turns of the worker behind it. -/
structure OneCall (turns : Nat → PoolTurn) : Prop where
  front : ∀ k < 21, turns k = oneCall k
  rest : ∀ k, 21 ≤ k → (∃ i, turns k = .worker i) ∨ ∃ i threw, turns k = .taskEnds i threw
  worker : ∀ k, ∃ m, k ≤ m ∧ turns m = .worker 0
  ends : ∀ k, ∃ m, k ≤ m ∧ turns m = .taskEnds 0 false

theorem OneCall.upTo_front (h : OneCall turns) (hk : k ≤ 21) : upTo 1 turns k = upTo 1 oneCall k :=
  LeadsTo.after_congr fun j hj => h.front j (by omega)

theorem OneCall.blocks (h : OneCall turns) (hk : 21 ≤ k) : ((upTo 1 turns k).workers 0).pc = .blocked := by
  induction k, hk using Nat.le_induction with
  | base =>
    rw [h.upTo_front (Nat.le_refl 21)]
    decide +kernel
  | succ k hk ih =>
    rw [upTo_succ]
    rcases h.rest k hk with ⟨i, ht⟩ | ⟨i, threw, ht⟩
    · rw [ht]
      by_cases hi : i = 0
      · subst hi
        simp [ThreadPool.step, workerStep, ih]
      · simp [ThreadPool.step, hi, ih]
    · rw [ht]
      by_cases hi : i = 0
      · subst hi
        simp [ThreadPool.step, taskEnds, ih]
      · simp [ThreadPool.step, hi, ih]

theorem OneCall.no_caller (h : OneCall turns) {room : Bool} (ht : turns k = .caller p room) : p = 0 ∧ k < 8 := by
  by_cases hk : k < 21
  · rw [h.front k hk, oneCall] at ht
    split at ht
    · exact ⟨(PoolTurn.caller.inj ht).1.symm, ‹_›⟩
    · split at ht <;> cases ht
  · rcases h.rest k (by omega) with ⟨i, he⟩ | ⟨i, threw, he⟩ <;> cases he.symm.trans ht

theorem OneCall.idle (h : OneCall turns) (hp : p ≠ 0) : ∀ k, (upTo 1 turns k).callers p = .idle
  | 0 => rfl
  | k + 1 => by
    rw [upTo_succ, step_callers_ne fun room ht => hp (h.no_caller ht).1]
    exact h.idle hp k

theorem OneCall.returned (h : OneCall turns) (hk : 8 ≤ k) : (upTo 1 turns k).callers 0 = .returned 0 := by
  refine returned_upTo (l := 8) ?_ hk
  rw [h.upTo_front (by decide)]
  decide +kernel

theorem OneCall.fair (h : OneCall turns) : Fair 1 turns where
  worker i hi k := by
    obtain rfl : i = 0 := by omega
    exact h.worker k
  ends i hi k _ _ := by
    obtain rfl : i = 0 := by omega
    exact (h.ends k).imp fun _ hm => ⟨hm.1, false, hm.2⟩
  caller p k hunder := by
    by_cases hp : p = 0
    · subst hp
      by_cases hk : k < 8
      · exact ⟨7, by omega, true, h.front 7 (by decide)⟩
      · rw [h.returned (by omega)] at hunder
        exact absurd trivial hunder
    · rw [h.idle hp] at hunder
      exact absurd trivial hunder
  mutex i hi thread k hfront _ := by
    obtain rfl : i = 0 := by omega
    cases thread with
    | worker =>
      have hinside : ∀ k < 21, 16 < k → ¬ (((upTo 1 oneCall k).workers 0).pc = .lock ∨
          ((upTo 1 oneCall k).workers 0).pc = .woken) := by decide +kernel
      by_cases hk : k ≤ 16
      · refine ⟨16, hk, h.front 16 (by decide), ?_⟩
        rw [h.upTo_front (by decide)]
        decide +kernel
      · by_cases hlt : k < 21
        · rw [h.upTo_front (by omega)] at hfront
          exact absurd hfront (hinside k hlt (by omega))
        · rcases hfront with hpc | hpc <;> cases hpc.symm.trans (h.blocks (Nat.le_of_not_lt hlt))
    | caller p =>
      have hpast : ∀ k < 8, 3 < k → (upTo 1 oneCall k).callers 0 ≠ .lock 0 := by decide +kernel
      by_cases hp : p = 0
      · subst hp
        by_cases hk : k ≤ 3
        · refine ⟨3, hk, ⟨true, h.front 3 (by decide)⟩, ?_⟩
          rw [h.upTo_front (by decide)]
          decide +kernel
        · by_cases hlt : k < 8
          · rw [h.upTo_front (by omega)] at hfront
            exact absurd hfront (hpast k hlt (by omega))
          · cases (h.returned (Nat.le_of_not_lt hlt)).symm.trans hfront
      · cases (h.idle hp k).symm.trans hfront

theorem OneCall.enqueuesFirst (h : OneCall turns) (k : Nat) : EnqueuesFirst (upTo 1 turns k) (turns k) := by
  have hrunning : ∀ k < 8, (upTo 1 oneCall k).stop = false := by decide +kernel
  cases ht : turns k with
  | caller p room =>
    obtain ⟨_, hk⟩ := h.no_caller ht
    rw [h.upTo_front (by omega)]
    exact hrunning k hk
  | worker | spurious | taskEnds => trivial
  | destructor =>
    by_cases hk : k < 21
    · rw [h.front k hk, oneCall] at ht
      split at ht
      · cases ht
      · split at ht <;> cases ht
    · rcases h.rest k (by omega) with ⟨i, he⟩ | ⟨i, threw, he⟩ <;> cases he.symm.trans ht

theorem oneCall_oneCall : OneCall oneCall where
  front _ _ := rfl
  rest k hk := by
    rw [oneCall, if_neg (by omega)]
    split
    · exact Or.inl ⟨0, rfl⟩
    · exact Or.inr ⟨0, false, rfl⟩
  worker k := ⟨2 * k + 8, by omega, by rw [oneCall, if_neg (by omega), if_pos (by omega)]⟩
  ends k := ⟨2 * k + 9, by omega, by rw [oneCall, if_neg (by omega), if_neg (by omega)]⟩

theorem oneCall_runs : ∃ m, 8 ≤ m ∧ ((upTo 1 oneCall m).callers 0 = .threw ∨
    ∃ i < 1, (upTo 1 oneCall m).callers 0 = .returned i ∧ 0 ∈ ((upTo 1 oneCall m).workers i).executed) :=
  (every_task_runs 1).2 oneCall (by decide) oneCall_oneCall.fair oneCall_oneCall.enqueuesFirst 8 0 (by decide +kernel)

end ThreadPool

end PyNetX
