import PyNetX.PoolTasks
/-!
# PoolStop — the destructor's notification and the workers' waits

The destructor sets `stop_` without the workers' mutexes, so its notification may come between a worker's look at the
predicate and its blocking, and is lost then.  It is never lost otherwise.
-/
namespace PyNetX

open Run (run Along)

/-- The destructor has notified worker `i` of the pool's `n`. -/
def DestructorPc.Past (n : Nat) : DestructorPc → Nat → Prop
  | .alive, _ => False
  | .notify j, i => i < j
  | .join _, i | .gone, i => i < n

namespace ThreadPool

/-- Worker `i` blocks in `cv.wait` with `stop_` set and nothing queued, after the destructor notified it. -/
def Stranded (n : Nat) (s : ThreadPool) (i : Nat) : Prop :=
  i < n ∧ s.destructor.Past n i ∧ (s.workers i).pc = .blocked ∧ s.stop = true ∧ (s.workers i).tasks = []

/-- The destructor notifies no worker that has found the predicate false and does not block yet. -/
def NotifiesHeard (n : Nat) (s : ThreadPool) : PoolTurn → Prop
  | .destructor => ∀ i < n, s.destructor = .notify i → (s.workers i).pc ≠ .sleep
  | _ => True

def Waiting (w : Worker) : Prop := w.pc = .sleep ∨ w.pc = .blocked

/-- The destructor's first turn sets `stop_`. -/
def Stops (s : ThreadPool) : Prop := s.destructor ≠ .alive → s.stop = true

/-- The invariant of a pool whose destructor is heard: nobody it has notified waits. -/
def Heard (n : Nat) (s : ThreadPool) : Prop := ∀ i, s.destructor.Past n i → ¬ Waiting (s.workers i)

variable {n i p : Nat} {s : ThreadPool} {w : Worker}

theorem Stops.of_past (h : Stops s) (hpast : s.destructor.Past n i) : s.stop = true := by
  refine h (fun he => ?_)
  rw [he] at hpast
  exact hpast

theorem Stops.of_frame {s' : ThreadPool} (h : Stops s) (hstop : s'.stop = s.stop)
    (hdestructor : s'.destructor = s.destructor) : Stops s' := by
  intro hd
  rw [hstop]
  exact h (hdestructor ▸ hd)

theorem Stops.step (h : Stops s) (t : PoolTurn) : Stops (s.step n t) := by
  obtain he | ⟨i, w', _, he⟩ | ⟨p, room, c', _, hm⟩ | ⟨_, hm⟩ := step_cases n s t
  · rw [he]
    exact h
  · rw [he]
    exact h.of_frame rfl rfl
  · exact h.of_frame (CallerMove.frame hm).1 (CallerMove.frame hm).2.1
  · generalize s.step n t = s' at hm
    cases hm with
    | stop hpc => exact fun _ => rfl
    | notify hpc | notified hpc | join hpc | joined hpc => exact fun _ => h (by rw [hpc]; nofun)

theorem stops_run (n : Nat) (turns : List PoolTurn) : Stops (runPool n turns) :=
  Run.run_invariant (I := Stops) (fun _ t h => h.step t) turns {} (fun he => absurd rfl he)

theorem notified_not_blocked (w : Worker) : w.notified.pc ≠ .blocked := by
  unfold Worker.notified
  split
  · nofun
  · rename_i h
    exact h

theorem notified_pc_sleep (h : w.notified.pc = .sleep) : w.pc = .sleep := by
  unfold Worker.notified at h
  split at h
  · cases h
  · exact h

theorem Waiting.of_notified (h : Waiting w.notified) : Waiting w := by
  rcases h with h | h
  · exact Or.inl (notified_pc_sleep h)
  · exact absurd h (notified_not_blocked w)

theorem Waiting.of_move {stop : Bool} {w' : Worker} (hm : WorkerMove stop w w') (hstop : stop = true)
    (h : Waiting w') : Waiting w := by
  cases hm with
  | drowse hpc hrunning hempty => rw [hstop] at hrunning; cases hrunning
  | block hpc => exact Or.inl hpc
  | enter | awake | wake | exit | pop | countOff | ended => rcases h with h | h <;> cases h

theorem Heard.of_workers {s' : ThreadPool} (h : Heard n s) (hstops : Stops s)
    (hdestructor : s'.destructor = s.destructor)
    (hwaiting : s.stop = true → ∀ i, Waiting (s'.workers i) → Waiting (s.workers i)) : Heard n s' := by
  intro i hpast hw
  rw [hdestructor] at hpast
  exact h i hpast (hwaiting (hstops.of_past hpast) i hw)

theorem Heard.setWorker (h : Heard n s) (hstops : Stops s) (hwaiting : s.stop = true → Waiting w → Waiting (s.workers i)) :
    Heard n (s.setWorker i w) := by
  refine h.of_workers hstops rfl (fun hstop j hj => ?_)
  by_cases hji : j = i
  · subst hji
    rw [setWorker_self] at hj
    exact hwaiting hstop hj
  · rwa [setWorker_ne hji] at hj

/-- **What a turn that is heard keeps.** -/
theorem Heard.step (h : Heard n s) (hstops : Stops s) (t : PoolTurn) (ht : NotifiesHeard n s t) :
    Heard n (s.step n t) := by
  obtain he | ⟨i, w', hm, he⟩ | ⟨p, room, c', _, hm⟩ | ⟨rfl, hm⟩ := step_cases n s t
  · rw [he]
    exact h
  · rw [he]
    exact h.setWorker hstops (fun hstop hw => hw.of_move hm hstop)
  · obtain ⟨_, hdestructor, hpc⟩ := CallerMove.frame hm
    refine h.of_workers hstops hdestructor (fun _ i hw => ?_)
    rcases hpc i with he | he
    · simpa only [Waiting, he] using hw
    · exact Waiting.of_notified (by simpa only [Waiting, he] using hw)
  · generalize s.step n .destructor = s' at hm
    cases hm with
    | stop hpc => exact fun i hpast => absurd hpast (Nat.not_lt_zero i)
    | @notify i hpc hi =>
      intro j hpast
      have hj : j ≤ i := Nat.le_of_lt_succ hpast
      by_cases hji : j = i
      · subst hji
        -- the notification reaches the worker unless it is about to block
        rw [show ({ s.setWorker j (s.workers j).notified with destructor := .notify (j + 1) } : ThreadPool).workers j =
          (s.workers j).notified from setWorker_self]
        rintro (hw | hw)
        · exact ht j hi hpc (notified_pc_sleep hw)
        · exact notified_not_blocked _ hw
      · rw [show ({ s.setWorker i (s.workers i).notified with destructor := .notify (i + 1) } : ThreadPool).workers j =
          s.workers j from setWorker_ne hji]
        apply h j
        rw [hpc]
        exact Nat.lt_of_le_of_ne hj hji
    | @notified i hpc hi =>
      refine fun j hpast => h j ?_
      rw [hpc]
      exact Nat.lt_of_lt_of_le hpast (Nat.not_lt.1 hi)
    | join hpc | joined hpc =>
      refine fun j hpast => h j ?_
      rw [hpc]
      exact hpast

theorem heard_run {turns : List PoolTurn} (h : Along (ThreadPool.step n) (NotifiesHeard n) {} turns) :
    Heard n (runPool n turns) :=
  (Run.along_invariant (I := fun s => Stops s ∧ Heard n s) (fun _ t hs ht => ⟨hs.1.step t, hs.2.step hs.1 t ht⟩)
    ⟨fun he => absurd rfl he, fun _ hpast => (by cases hpast)⟩ turns h).2

/-- **The destructor strands no worker in a run whose notifications are all heard.** -/
theorem not_stranded (n : Nat) (turns : List PoolTurn)
    (h : Along (ThreadPool.step n) (NotifiesHeard n) {} turns) (i : Nat) : ¬ Stranded n (runPool n turns) i :=
  fun hstranded => heard_run h i hstranded.2.1 (Or.inr hstranded.2.2.1)

/-- The worker blocks first, and the destructor's notification wakes it. -/
def blocksFirst : List PoolTurn := List.replicate 3 (.worker 0) ++ [.destructor, .destructor]

theorem blocksFirst_not_stranded : ¬ Stranded 1 (runPool 1 blocksFirst) 0 := by
  refine not_stranded 1 blocksFirst ?_ 0
  simp only [blocksFirst, List.replicate, List.cons_append, List.nil_append, Run.along_cons]
  refine ⟨trivial, trivial, trivial, ?_, ?_, Run.along_nil⟩
  · intro i _ hi
    cases hi
  · intro i hi _
    obtain rfl := Nat.lt_one_iff.1 hi
    decide

/-- The worker finds nothing, the destructor sets `stop_` and notifies, and the worker blocks. -/
def blocksLast : List PoolTurn := List.replicate 2 (.worker 0) ++ [.destructor, .destructor, .worker 0]

theorem blocksLast_stranded : ¬ ∀ (n : Nat) (turns : List PoolTurn) (i : Nat), ¬ Stranded n (runPool n turns) i := by
  intro h
  refine h 1 blocksLast 0 ⟨by decide, ?_, by decide, by decide, by decide⟩
  rw [show (runPool 1 blocksLast).destructor = .notify 1 by decide]
  exact Nat.zero_lt_one

/-! ## The other direction -/

/-- A worker about to block has an empty queue: its mutex keeps every call out until it blocks. -/
def AsleepEmpty (s : ThreadPool) : Prop := ∀ i, (s.workers i).pc = .sleep → (s.workers i).tasks = []

theorem AsleepEmpty.setWorker (h : AsleepEmpty s) (hw : w.pc = .sleep → w.tasks = []) :
    AsleepEmpty (s.setWorker i w) := by
  intro j hj
  by_cases hji : j = i
  · subst hji
    rw [setWorker_self] at hj ⊢
    exact hw hj
  · rw [setWorker_ne hji] at hj ⊢
    exact h j hj

theorem AsleepEmpty.notified (h : AsleepEmpty s) : AsleepEmpty (s.setWorker i (s.workers i).notified) := by
  refine h.setWorker (fun hpc => ?_)
  rw [notified_eq]
  exact h i (notified_pc_sleep hpc)

theorem AsleepEmpty.call {c c' : CallerPc} {s' : ThreadPool} (h : AsleepEmpty s) (hok : ∀ i, WorkerOk s i)
    (hm : CallerMove n s p c c' s') (hc : s.callers p = c) : AsleepEmpty s' := by
  cases hm with
  | look => exact h
  | @enter best | @throw best | @count best | @leave best => exact h.setWorker (fun hpc => h best hpc)
  | notify => exact h.notified
  | @emplace best hroom =>
    refine h.setWorker (fun hpc => ?_)
    have hworker : s.Inside best .worker := by rw [Inside, show (s.workers best).pc = .sleep from hpc]; rfl
    have hcaller : s.Inside best (.caller p) := by rw [Inside, hc]; rfl
    cases (hok best).guards.unique hworker hcaller

theorem asleepEmpty_run (n : Nat) (turns : List PoolTurn) : AsleepEmpty (runPool n turns) := by
  have hstep : ∀ (s : ThreadPool) (t : PoolTurn), (∀ i, WorkerOk s i) ∧ AsleepEmpty s →
      (∀ i, WorkerOk (s.step n t) i) ∧ AsleepEmpty (s.step n t) := by
    rintro s t ⟨hok, h⟩
    refine ⟨fun i => WorkerOk.step hok t i, ?_⟩
    obtain he | ⟨i, w', hm, he⟩ | ⟨p, room, c', _, hm⟩ | ⟨_, hm⟩ := step_cases n s t
    · rw [he]
      exact h
    · rw [he]
      refine h.setWorker (fun hpc => ?_)
      cases hm with
      | drowse _ _ hempty => exact hempty
      | enter | awake | block | wake | exit | pop | countOff | ended => cases hpc
    · exact h.call hok hm rfl
    · generalize s.step n t = s' at hm
      cases hm with
      | notify => exact h.notified
      | stop | notified | join | joined => exact h
  exact (Run.run_invariant (I := fun s => (∀ i, WorkerOk s i) ∧ AsleepEmpty s) hstep turns {}
    ⟨workerOk_init, fun i hi => (by cases hi)⟩).2

/-- **A notification that is not heard strands its worker**: it comes too early, and the worker's next turn blocks. -/
theorem stranded_of_unheard (n : Nat) (turns : List PoolTurn) (i : Nat) (hi : i < n)
    (hnotify : (runPool n turns).destructor = .notify i) (hsleep : ((runPool n turns).workers i).pc = .sleep) :
    Stranded n (runPool n (turns ++ [.destructor, .worker i])) i := by
  have hempty := asleepEmpty_run n turns i hsleep
  have hstop := stops_run n turns (by rw [hnotify]; nofun)
  have hrun : runPool n (turns ++ [.destructor, .worker i]) =
      ((runPool n turns).step n .destructor).step n (.worker i) := Run.run_append turns _
  generalize runPool n turns = s at *
  -- nobody is blocked, so the notification changes nothing
  have hnotified : (s.workers i).notified = s.workers i := by
    rw [Worker.notified, if_neg (by rw [hsleep]; nofun)]
  have hdestructor : s.step n .destructor =
      { s.setWorker i (s.workers i).notified with destructor := .notify (i + 1) } := by
    simp only [ThreadPool.step, destructorStep, hnotify, if_pos hi]
  have hworker : (s.step n .destructor).step n (.worker i) =
      (s.step n .destructor).setWorker i { s.workers i with mtx := none, pc := .blocked } := by
    have hi' : (s.step n .destructor).workers i = s.workers i := by
      rw [hdestructor, hnotified]
      exact setWorker_self
    simp only [ThreadPool.step, if_pos hi]
    simp only [ThreadPool.step] at hi'
    simp only [workerStep, hi', hsleep]
  rw [hrun, hworker, hdestructor]
  refine ⟨hi, Nat.lt_succ_self i, ?_, hstop, ?_⟩
  · simp
  · simpa using hempty

end ThreadPool

end PyNetX
