import Mathlib.Algebra.Group.Nat.Defs
import Mathlib.Logic.Function.Basic
import PyNetX.Lib.Mutex
import PyNetX.Lib.Run
/-!
# ThreadPool — the pool's workers, its callers and its destructor, step after step

Every program point of the workers' loop, of `enqueue` and of `~ThreadPool` that another thread can come between is a
state of its own.  Threads take turns in any order; a turn that a thread cannot take (a held mutex, a wait that has not
ended) changes nothing.  A wait may end without a notification.  A task is named by the number of the call that enqueues
it.
-/
namespace PyNetX

open Run (run)

/-- A thread that takes a worker's mutex: the worker itself, or a call of `enqueue`. -/
inductive PoolThread where
  | worker
  | caller (p : Nat)
  deriving DecidableEq

/-- Where a worker is in its loop. -/
inductive WorkerPc where
  /-- In front of its mutex. -/
  | lock
  /-- Inside, in front of the predicate of `cv.wait`. -/
  | check
  /-- Inside, the predicate being false: it releases the mutex and blocks in one step. -/
  | sleep
  | blocked
  /-- Its wait has ended, in front of its mutex again. -/
  | woken
  /-- Inside, the predicate being true. -/
  | take
  /-- It has popped `task` and left, in front of `inflight.fetch_sub`. -/
  | count (task : Nat)
  | running (task : Nat)
  | returned
  deriving DecidableEq

/-- A worker; `accepted` and `executed` are what its queue was given and what it has run, in order. -/
structure Worker where
  tasks : List Nat := []
  mtx : Option PoolThread := none
  inflight : Nat := 0
  pc : WorkerPc := .lock
  accepted : List Nat := []
  executed : List Nat := []

/-- Where a call of `enqueue` is. -/
inductive CallerPc where
  | idle
  /-- The loop over the workers, at worker `i`. -/
  | scan (i best bestCount : Nat)
  | lock (best : Nat)
  /-- Inside, in front of `tasks.emplace`; what it prints for a stopped pool is left out. -/
  | emplace (best : Nat)
  /-- Inside, in front of `inflight.fetch_add`. -/
  | count (best : Nat)
  | unlock (best : Nat)
  | notify (best : Nat)
  | returned (best : Nat)
  | threw
  deriving DecidableEq

/-- The worker a call has chosen. -/
def CallerPc.target : CallerPc → Option Nat
  | .lock best | .emplace best | .count best | .unlock best | .notify best | .returned best => some best
  | _ => none

def CallerPc.looks : CallerPc → Bool
  | .idle | .scan .. => true
  | _ => false

inductive DestructorPc where
  | alive
  | notify (i : Nat)
  | join (i : Nat)
  | gone
  deriving DecidableEq

/-- A pool, the calls made on it and its destructor. -/
structure ThreadPool where
  workers : Nat → Worker := fun _ => {}
  callers : Nat → CallerPc := fun _ => .idle
  stop : Bool := false
  destructor : DestructorPc := .alive

def sizeMax : Nat := 2 ^ 64 - 1

/-- The tasks a queue can hold: `std::function` is 32 bytes, and an object no larger than `PTRDIFF_MAX`. -/
def maxTasks : Nat := (2 ^ 63 - 1) / 32

/-- `fetch_add(1)` on a `size_t`. -/
def fetchAdd (n : Nat) : Nat := (n + 1) % 2 ^ 64

/-- `fetch_sub(1)` on a `size_t`: below zero it wraps. -/
def fetchSub (n : Nat) : Nat := (n + (2 ^ 64 - 1)) % 2 ^ 64

/-- A notification reaches a worker that is blocked when it is issued; a wait that ends without one does the same. -/
def Worker.notified (w : Worker) : Worker := if w.pc = .blocked then { w with pc := .woken } else w

namespace ThreadPool

def setWorker (s : ThreadPool) (i : Nat) (w : Worker) : ThreadPool :=
  { s with workers := Function.update s.workers i w }

def setCaller (s : ThreadPool) (p : Nat) (pc : CallerPc) : ThreadPool :=
  { s with callers := Function.update s.callers p pc }

/-- A turn of worker `i`'s loop; what a task does is no turn of the pool's. -/
def workerStep (s : ThreadPool) (i : Nat) : ThreadPool :=
  let w := s.workers i
  match w.pc with
  | .lock | .woken => if w.mtx = none then s.setWorker i { w with mtx := some .worker, pc := .check } else s
  | .check => s.setWorker i { w with pc := if s.stop ∨ w.tasks ≠ [] then .take else .sleep }
  | .sleep => s.setWorker i { w with mtx := none, pc := .blocked }
  | .take =>
    if s.stop ∧ w.tasks = [] then s.setWorker i { w with mtx := none, pc := .returned }
    else
      match w.tasks with
      | [] => s
      | task :: tasks => s.setWorker i { w with mtx := none, tasks := tasks, pc := .count task }
  | .count task =>
    s.setWorker i { w with inflight := fetchSub w.inflight, pc := .running task, executed := w.executed ++ [task] }
  | .blocked | .running _ | .returned => s

/-- A worker's wait ends without a notification. -/
def spurious (s : ThreadPool) (i : Nat) : ThreadPool := s.setWorker i (s.workers i).notified

/-- `task()` ends; what it throws is swallowed. -/
def taskEnds (s : ThreadPool) (i : Nat) : ThreadPool :=
  match (s.workers i).pc with
  | .running _ => s.setWorker i { s.workers i with pc := .lock }
  | _ => s

/-- A turn of call `p` of `enqueue` on a pool of `n` workers; `room` is whether `emplace` gets its memory. -/
def callerStep (n : Nat) (s : ThreadPool) (p : Nat) (room : Bool) : ThreadPool :=
  match s.callers p with
  | .idle => s.setCaller p (.scan 0 0 sizeMax)
  | .scan i best bestCount =>
    if i < n then
      let cnt := (s.workers i).inflight
      if cnt < bestCount then s.setCaller p (.scan (i + 1) i cnt) else s.setCaller p (.scan (i + 1) best bestCount)
    else s.setCaller p (.lock best)
  | .lock best =>
    if best < n ∧ (s.workers best).mtx = none then
      (s.setWorker best { s.workers best with mtx := some (.caller p) }).setCaller p (.emplace best)
    else s
  | .emplace best =>
    let w := s.workers best
    if room ∧ w.tasks.length < maxTasks then
      (s.setWorker best { w with tasks := w.tasks ++ [p], accepted := w.accepted ++ [p] }).setCaller p (.count best)
    else (s.setWorker best { w with mtx := none }).setCaller p .threw
  | .count best =>
    let w := s.workers best
    (s.setWorker best { w with inflight := fetchAdd w.inflight }).setCaller p (.unlock best)
  | .unlock best => (s.setWorker best { s.workers best with mtx := none }).setCaller p (.notify best)
  | .notify best => (s.setWorker best (s.workers best).notified).setCaller p (.returned best)
  | .returned _ | .threw => s

def destructorStep (n : Nat) (s : ThreadPool) : ThreadPool :=
  match s.destructor with
  | .alive => { s with stop := true, destructor := .notify 0 }
  | .notify i =>
    if i < n then { s.setWorker i (s.workers i).notified with destructor := .notify (i + 1) }
    else { s with destructor := .join 0 }
  | .join i =>
    if i < n then
      if (s.workers i).pc = .returned then { s with destructor := .join (i + 1) } else s
    else { s with destructor := .gone }
  | .gone => s

end ThreadPool

inductive PoolTurn where
  | worker (i : Nat)
  | spurious (i : Nat)
  | taskEnds (i : Nat) (threw : Bool)
  | caller (p : Nat) (room : Bool)
  | destructor

def ThreadPool.step (n : Nat) (s : ThreadPool) : PoolTurn → ThreadPool
  | .worker i => if i < n then s.workerStep i else s
  | .spurious i => if i < n then s.spurious i else s
  | .taskEnds i _ => if i < n then s.taskEnds i else s
  | .caller p room => s.callerStep n p room
  | .destructor => s.destructorStep n

/-- The pool after turns from its construction. -/
def runPool (n : Nat) (turns : List PoolTurn) : ThreadPool := run (ThreadPool.step n) {} turns

/-! ## What a turn does -/

/-- **What a worker's turn does to it**, `stop` being the pool's flag. -/
inductive WorkerMove (stop : Bool) (w : Worker) : Worker → Prop where
  | enter (hpc : w.pc = .lock ∨ w.pc = .woken) (hfree : w.mtx = none) :
      WorkerMove stop w { w with mtx := some .worker, pc := .check }
  | awake (hpc : w.pc = .check) (h : stop = true ∨ w.tasks ≠ []) : WorkerMove stop w { w with pc := .take }
  | drowse (hpc : w.pc = .check) (hstop : stop = false) (hempty : w.tasks = []) :
      WorkerMove stop w { w with pc := .sleep }
  | block (hpc : w.pc = .sleep) : WorkerMove stop w { w with mtx := none, pc := .blocked }
  | wake (hpc : w.pc = .blocked) : WorkerMove stop w { w with pc := .woken }
  | exit (hpc : w.pc = .take) (hstop : stop = true) (hempty : w.tasks = []) :
      WorkerMove stop w { w with mtx := none, pc := .returned }
  | pop {task : Nat} {tasks : List Nat} (hpc : w.pc = .take) (htasks : w.tasks = task :: tasks) :
      WorkerMove stop w { w with mtx := none, tasks := tasks, pc := .count task }
  | countOff {task : Nat} (hpc : w.pc = .count task) :
      WorkerMove stop w
        { w with inflight := fetchSub w.inflight, pc := .running task, executed := w.executed ++ [task] }
  | ended {task : Nat} (hpc : w.pc = .running task) : WorkerMove stop w { w with pc := .lock }

/-- **What a call's turn does**: to the call, which goes from `c` to `c'`, and to the worker it has chosen. -/
inductive CallerMove (n : Nat) (s : ThreadPool) (p : Nat) : CallerPc → CallerPc → ThreadPool → Prop where
  | look {c c' : CallerPc} (hc : c.looks = true) (hc' : c'.looks = true ∨ ∃ best, c' = .lock best) :
      CallerMove n s p c c' (s.setCaller p c')
  | enter {best : Nat} (hbest : best < n) (hfree : (s.workers best).mtx = none) :
      CallerMove n s p (.lock best) (.emplace best)
        ((s.setWorker best { s.workers best with mtx := some (.caller p) }).setCaller p (.emplace best))
  | emplace {best : Nat} (hroom : (s.workers best).tasks.length < maxTasks) :
      CallerMove n s p (.emplace best) (.count best)
        ((s.setWorker best { s.workers best with
          tasks := (s.workers best).tasks ++ [p]
          accepted := (s.workers best).accepted ++ [p] }).setCaller p (.count best))
  | throw {best : Nat} :
      CallerMove n s p (.emplace best) .threw
        ((s.setWorker best { s.workers best with mtx := none }).setCaller p .threw)
  | count {best : Nat} :
      CallerMove n s p (.count best) (.unlock best)
        ((s.setWorker best { s.workers best with inflight := fetchAdd (s.workers best).inflight }).setCaller p
          (.unlock best))
  | leave {best : Nat} :
      CallerMove n s p (.unlock best) (.notify best)
        ((s.setWorker best { s.workers best with mtx := none }).setCaller p (.notify best))
  | notify {best : Nat} :
      CallerMove n s p (.notify best) (.returned best)
        ((s.setWorker best (s.workers best).notified).setCaller p (.returned best))

/-- **What the destructor's turn does.** -/
inductive DestructorMove (n : Nat) (s : ThreadPool) : ThreadPool → Prop where
  | stop (hpc : s.destructor = .alive) : DestructorMove n s { s with stop := true, destructor := .notify 0 }
  | notify {i : Nat} (hpc : s.destructor = .notify i) (hi : i < n) :
      DestructorMove n s { s.setWorker i (s.workers i).notified with destructor := .notify (i + 1) }
  | notified {i : Nat} (hpc : s.destructor = .notify i) (hi : ¬ i < n) :
      DestructorMove n s { s with destructor := .join 0 }
  | join {i : Nat} (hpc : s.destructor = .join i) (hreturned : (s.workers i).pc = .returned) :
      DestructorMove n s { s with destructor := .join (i + 1) }
  | joined {i : Nat} (hpc : s.destructor = .join i) : DestructorMove n s { s with destructor := .gone }

namespace ThreadPool

theorem target_of_looks {c : CallerPc} (h : c.looks = true) : c.target = none := by
  cases c with
  | idle | scan => rfl
  | _ => cases h

theorem workerStep_cases (s : ThreadPool) (i : Nat) : s.workerStep i = s ∨
    ∃ w', WorkerMove s.stop (s.workers i) w' ∧ s.workerStep i = s.setWorker i w' := by
  unfold workerStep
  cases hpc : (s.workers i).pc <;> simp only [hpc]
  case lock | woken =>
    split
    · rename_i hfree
      exact Or.inr ⟨_, .enter (by simp [hpc]) hfree, rfl⟩
    · exact Or.inl rfl
  case check =>
    split
    · rename_i h
      exact Or.inr ⟨_, .awake hpc h, rfl⟩
    · rename_i h
      rw [not_or, Bool.not_eq_true, Decidable.not_not] at h
      exact Or.inr ⟨_, .drowse hpc h.1 h.2, rfl⟩
  case sleep => exact Or.inr ⟨_, .block hpc, rfl⟩
  case take =>
    split
    · rename_i h
      exact Or.inr ⟨_, .exit hpc h.1 h.2, rfl⟩
    · split
      · exact Or.inl rfl
      · rename_i task tasks htasks
        exact Or.inr ⟨_, .pop hpc htasks, rfl⟩
  case count task => exact Or.inr ⟨_, .countOff hpc, rfl⟩
  case blocked | running | returned => exact Or.inl trivial

theorem spurious_cases (s : ThreadPool) (i : Nat) : s.spurious i = s ∨
    ∃ w', WorkerMove s.stop (s.workers i) w' ∧ s.spurious i = s.setWorker i w' := by
  unfold spurious Worker.notified
  split
  · rename_i hpc
    exact Or.inr ⟨_, .wake hpc, rfl⟩
  · exact Or.inl (by simp [setWorker])

theorem taskEnds_cases (s : ThreadPool) (i : Nat) : s.taskEnds i = s ∨
    ∃ w', WorkerMove s.stop (s.workers i) w' ∧ s.taskEnds i = s.setWorker i w' := by
  unfold taskEnds
  split
  · rename_i task hpc
    exact Or.inr ⟨_, .ended hpc, rfl⟩
  · exact Or.inl rfl

theorem callerStep_cases (n : Nat) (s : ThreadPool) (p : Nat) (room : Bool) : s.callerStep n p room = s ∨
    ∃ c', CallerMove n s p (s.callers p) c' (s.callerStep n p room) := by
  unfold callerStep
  cases hpc : s.callers p with
  | idle => exact Or.inr ⟨_, .look rfl (Or.inl rfl)⟩
  | scan i best bestCount =>
    simp only
    split
    · split
      · exact Or.inr ⟨_, .look rfl (Or.inl rfl)⟩
      · exact Or.inr ⟨_, .look rfl (Or.inl rfl)⟩
    · exact Or.inr ⟨_, .look rfl (Or.inr ⟨best, rfl⟩)⟩
  | lock best =>
    simp only
    split
    · rename_i h
      exact Or.inr ⟨_, .enter h.1 h.2⟩
    · exact Or.inl rfl
  | emplace best =>
    simp only
    split
    · rename_i h
      exact Or.inr ⟨_, .emplace h.2⟩
    · exact Or.inr ⟨_, .throw⟩
  | count best => exact Or.inr ⟨_, .count⟩
  | unlock best => exact Or.inr ⟨_, .leave⟩
  | notify best => exact Or.inr ⟨_, .notify⟩
  | returned best => exact Or.inl rfl
  | threw => exact Or.inl rfl

theorem destructorStep_cases (n : Nat) (s : ThreadPool) : s.destructorStep n = s ∨
    DestructorMove n s (s.destructorStep n) := by
  unfold destructorStep
  cases hpc : s.destructor with
  | alive => exact Or.inr (.stop hpc)
  | notify i =>
    simp only
    split
    · rename_i hi
      exact Or.inr (.notify hpc hi)
    · rename_i hi
      exact Or.inr (.notified hpc hi)
  | join i =>
    simp only
    split
    · split
      · rename_i h
        exact Or.inr (.join hpc h)
      · exact Or.inl rfl
    · exact Or.inr (.joined hpc)
  | gone => exact Or.inl rfl

/-- **What a turn does**: nothing, or a move of a worker, of a call or of the destructor. -/
theorem step_cases (n : Nat) (s : ThreadPool) (t : PoolTurn) : s.step n t = s ∨
    (∃ i w', WorkerMove s.stop (s.workers i) w' ∧ s.step n t = s.setWorker i w') ∨
    (∃ p room c', t = .caller p room ∧ CallerMove n s p (s.callers p) c' (s.step n t)) ∨
    (t = .destructor ∧ DestructorMove n s (s.step n t)) := by
  cases t with
  | worker i =>
    simp only [ThreadPool.step]
    split
    · obtain he | ⟨w', hm, he⟩ := workerStep_cases s i
      · exact Or.inl he
      · exact Or.inr (Or.inl ⟨i, w', hm, he⟩)
    · exact Or.inl rfl
  | spurious i =>
    simp only [ThreadPool.step]
    split
    · obtain he | ⟨w', hm, he⟩ := spurious_cases s i
      · exact Or.inl he
      · exact Or.inr (Or.inl ⟨i, w', hm, he⟩)
    · exact Or.inl rfl
  | taskEnds i threw =>
    simp only [ThreadPool.step]
    split
    · obtain he | ⟨w', hm, he⟩ := taskEnds_cases s i
      · exact Or.inl he
      · exact Or.inr (Or.inl ⟨i, w', hm, he⟩)
    · exact Or.inl rfl
  | caller p room =>
    obtain he | ⟨c', hm⟩ := callerStep_cases n s p room
    · exact Or.inl he
    · exact Or.inr (Or.inr (Or.inl ⟨p, room, c', rfl, hm⟩))
  | destructor =>
    obtain he | hm := destructorStep_cases n s
    · exact Or.inl he
    · exact Or.inr (Or.inr (Or.inr ⟨rfl, hm⟩))

end ThreadPool

end PyNetX
