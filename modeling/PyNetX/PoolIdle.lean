import PyNetX.Lib.FirstLeast
import PyNetX.PoolTasks
/-!
# PoolIdle — where `enqueue` puts a task

A call scans the counters and takes the first least one.  A counter does not count the task its worker runs, so a worker
that runs its last task looks idle, and is chosen when no idle worker stands in front of it.
-/
namespace PyNetX

open Run (run)

namespace ThreadPool

/-- Worker `i` neither executes a task nor has one queued. -/
def Idle (n : Nat) (s : ThreadPool) (i : Nat) : Prop :=
  i < n ∧ (s.workers i).tasks = [] ∧ (∀ task, (s.workers i).pc ≠ .count task) ∧ ∀ task, (s.workers i).pc ≠ .running task

/-- Worker `i` is not idle and its counter is zero: it runs its last task, or its one queued task is not counted yet. -/
def LooksIdle (s : ThreadPool) (i : Nat) : Prop :=
  ((s.workers i).tasks = [] ∧ ∃ task, (s.workers i).pc = .running task) ∨
    ((s.workers i).tasks.length = 1 ∧ (s.workers i).pc.popped = [] ∧ s.uncounted i = 1)

/-- The turns of a call of `enqueue` up to the mutex of the worker it chooses, nobody coming between. -/
def scanTurns (n p : Nat) : List PoolTurn := List.replicate (n + 2) (.caller p true)

variable {n i p best : Nat} {s : ThreadPool}

theorem popped_nil {pc : WorkerPc} : pc.popped = [] ↔ ∀ task, pc ≠ .count task := by
  cases pc <;> simp [WorkerPc.popped]

theorem Idle.inflight (h : Idle n s i) (hok : WorkerOk s i) : (s.workers i).inflight = 0 := by
  have hcounted := hok.counted
  have hqueued := hok.queued
  rw [popped_nil.2 h.2.2.1, h.2.1] at hcounted
  rw [h.2.1] at hqueued
  simp only [List.length_nil] at hcounted hqueued
  omega

/-- **A worker's counter is zero when it is idle, and else when it looks so.** -/
theorem looksIdle_iff (hok : WorkerOk s i) (hi : i < n) :
    LooksIdle s i ↔ (s.workers i).inflight = 0 ∧ ¬ Idle n s i := by
  have hcounted := hok.counted
  have hqueued := hok.queued
  constructor
  · rintro (⟨htasks, task, hpc⟩ | ⟨hone, hpopped, huncounted⟩)
    · rw [htasks] at hcounted hqueued
      rw [hpc] at hcounted
      simp only [WorkerPc.popped, List.length_nil] at hcounted hqueued
      exact ⟨by omega, fun hidle => hidle.2.2.2 task hpc⟩
    · rw [hone, hpopped, huncounted] at hcounted
      simp only [List.length_nil] at hcounted
      refine ⟨by omega, fun hidle => ?_⟩
      rw [hidle.2.1] at hone
      cases hone
  · rintro ⟨hzero, hbusy⟩
    have hpopped : (s.workers i).pc.popped = [] := List.length_eq_zero_iff.1 (by omega)
    by_cases htasks : (s.workers i).tasks = []
    · refine Or.inl ⟨htasks, ?_⟩
      by_contra hnone
      exact hbusy ⟨hi, htasks, popped_nil.1 hpopped, fun task hpc => hnone ⟨task, hpc⟩⟩
    · have hpos : 0 < (s.workers i).tasks.length := List.length_pos_iff.2 htasks
      have hone : s.uncounted i ≤ 1 := by
        unfold uncounted
        split
        · split <;> omega
        · omega
      rw [hpopped] at hcounted
      simp only [List.length_nil] at hcounted
      exact Or.inr ⟨by omega, hpopped, by omega⟩

/-! ## The scan -/

/-- What the loop over the workers knows at worker `i`. -/
def Scanned (s : ThreadPool) (i best bestCount : Nat) : Prop :=
  (i = 0 ∧ bestCount = sizeMax) ∨
    (bestCount = (s.workers best).inflight ∧ FirstLeast (fun j => (s.workers j).inflight) i best)

theorem setCaller_setCaller {c c' : CallerPc} : (s.setCaller p c).setCaller p c' = s.setCaller p c' := by
  simp [setCaller]

theorem scan_step {bestCount : Nat} (hsmall : ∀ j, (s.workers j).inflight < sizeMax) (hi : i < n)
    (h : Scanned s i best bestCount) : ∃ best' bestCount', Scanned s (i + 1) best' bestCount' ∧
      (s.setCaller p (.scan i best bestCount)).step n (.caller p true) =
        s.setCaller p (.scan (i + 1) best' bestCount') := by
  by_cases hlt : (s.workers i).inflight < bestCount
  · refine ⟨i, (s.workers i).inflight, Or.inr ⟨rfl, ?_⟩, ?_⟩
    · rcases h with ⟨rfl, _⟩ | ⟨rfl, hleast⟩
      · exact FirstLeast.one
      · exact hleast.take hlt
    · simp [ThreadPool.step, callerStep, hi, hlt, setCaller_setCaller]
  · refine ⟨best, bestCount, Or.inr ?_, ?_⟩
    · rcases h with ⟨rfl, rfl⟩ | ⟨rfl, hleast⟩
      · exact absurd (hsmall 0) hlt
      · exact ⟨rfl, hleast.keep hlt⟩
    · simp [ThreadPool.step, callerStep, hi, hlt, setCaller_setCaller]

theorem scan_run (hsmall : ∀ j, (s.workers j).inflight < sizeMax) : ∀ (k i best bestCount : Nat), i + k = n →
    Scanned s i best bestCount → ∃ best' bestCount', Scanned s n best' bestCount' ∧
      run (ThreadPool.step n) (s.setCaller p (.scan i best bestCount)) (List.replicate k (.caller p true)) =
        s.setCaller p (.scan n best' bestCount')
  | 0, i, best, bestCount, hk, h => by
    obtain rfl : i = n := hk
    exact ⟨best, bestCount, h, rfl⟩
  | k + 1, i, best, bestCount, hk, h => by
    obtain ⟨best', bestCount', h', he⟩ := scan_step (p := p) hsmall (show i < n by omega) h
    rw [List.replicate_succ, Run.run_cons, he]
    exact scan_run hsmall k (i + 1) best' bestCount' (by omega) h'

/-- **A call chooses the first worker whose counter is least.** -/
theorem scanTurns_run (hsmall : ∀ j, (s.workers j).inflight < sizeMax) (hn : 0 < n) (hp : s.callers p = .idle) :
    ∃ best, FirstLeast (fun j => (s.workers j).inflight) n best ∧
      run (ThreadPool.step n) s (scanTurns n p) = s.setCaller p (.lock best) := by
  obtain ⟨best, bestCount, h, he⟩ := scan_run (p := p) hsmall n 0 0 sizeMax (Nat.zero_add n) (Or.inl ⟨rfl, rfl⟩)
  refine ⟨best, ?_, ?_⟩
  · rcases h with ⟨hzero, _⟩ | ⟨_, hleast⟩
    · omega
    · exact hleast
  · have hstart : s.step n (.caller p true) = s.setCaller p (.scan 0 0 sizeMax) := by
      simp [ThreadPool.step, callerStep, hp]
    rw [scanTurns, List.replicate_succ, Run.run_cons, hstart, List.replicate_succ', Run.run_concat, he]
    simp [ThreadPool.step, callerStep, setCaller_setCaller]

/-! ## The placement -/

/-- A call that has chosen a worker keeps it, or is over. -/
def Chosen (best : Nat) (c : CallerPc) : Prop := c.target = some best ∨ c = .threw

theorem Chosen.move {q : Nat} {c c' : CallerPc} {s' : ThreadPool} (hm : CallerMove n s q c c' s')
    (h : Chosen best c) : Chosen best c' := by
  rcases h with h | rfl
  · cases hm with
    | look hlooks => rw [target_of_looks hlooks] at h; cases h
    | throw => exact Or.inr rfl
    | enter | emplace | count | leave | notify => exact Or.inl h
  · cases hm with
    | look hlooks => cases hlooks

theorem CallerMove.callers {q : Nat} {c c' : CallerPc} {s' : ThreadPool} (hm : CallerMove n s q c c' s') :
    s'.callers = Function.update s.callers q c' := by
  cases hm <;> rfl

theorem Chosen.step (h : Chosen best (s.callers p)) (t : PoolTurn) : Chosen best ((s.step n t).callers p) := by
  obtain he | ⟨i, w', _, he⟩ | ⟨q, room, c', _, hm⟩ | ⟨_, hm⟩ := step_cases n s t
  · rw [he]
    exact h
  · rw [he]
    exact h
  · rw [CallerMove.callers hm]
    by_cases hq : p = q
    · subst hq
      simpa using h.move hm
    · simpa [hq] using h
  · generalize s.step n t = s' at hm
    cases hm <;> exact h

/-- **The task of a call that has chosen is put in no other queue**, whatever turns follow. -/
theorem Chosen.accepted {turns rest : List PoolTurn} (h : Chosen best ((runPool n turns).callers p))
    (hp : p ∈ ((runPool n (turns ++ rest)).workers i).accepted) : i = best := by
  have hkept : Chosen best ((runPool n (turns ++ rest)).callers p) := by
    rw [runPool, Run.run_append]
    exact Run.run_invariant (I := fun s : ThreadPool => Chosen best (s.callers p)) (fun _ t h => h.step t) rest _ h
  have hplaced := ((workerOk_run n (turns ++ rest) i).placed p).1 hp
  have htarget : ∀ c : CallerPc, c.placed = some i → c.target = some i := by
    intro c hc
    cases c with
    | count | unlock | notify | returned => exact hc
    | _ => cases hc
  rcases hkept with hk | hk
  · rw [htarget _ hplaced] at hk
    exact Option.some.inj hk
  · rw [hk] at hplaced
    cases hplaced

/-- **Where the next call puts its task.**  In every reachable state with an idle worker the next call of `enqueue`
chooses one worker and puts its task in no other queue; the worker is idle exactly when every worker that looks idle has
an idle one in front of it. -/
theorem next_enqueue_idle (n : Nat) (turns : List PoolTurn) (p : Nat) (hp : (runPool n turns).callers p = .idle)
    (hidle : ∃ i, Idle n (runPool n turns) i) :
    ∃ best < n, (runPool n (turns ++ scanTurns n p)).callers p = .lock best ∧
      (∀ rest i, p ∈ ((runPool n (turns ++ scanTurns n p ++ rest)).workers i).accepted → i = best) ∧
      (Idle n (runPool n turns) best ↔
        ∀ j < n, LooksIdle (runPool n turns) j → ∃ i < j, Idle n (runPool n turns) i) := by
  have hok := workerOk_run n turns
  have hsmall : ∀ j, ((runPool n turns).workers j).inflight < sizeMax :=
    fun j => Nat.lt_of_le_of_lt (hok j).inflight_le (by decide)
  obtain ⟨i, hi⟩ := hidle
  obtain ⟨best, hleast, hrun⟩ := scanTurns_run hsmall (Nat.zero_lt_of_lt hi.1) hp
  have hcaller : (runPool n (turns ++ scanTurns n p)).callers p = .lock best := by
    rw [runPool, Run.run_append]
    exact (congrArg (fun s => s.callers p) hrun).trans setCaller_self
  have hzero : ((runPool n turns).workers best).inflight = 0 := by
    have hle := hleast.least i hi.1
    simp only [hi.inflight (hok i)] at hle
    omega
  refine ⟨best, hleast.lt, hcaller, fun rest k hk => Chosen.accepted (Or.inl ?_) hk, ?_, ?_⟩
  · rw [hcaller]
    rfl
  · intro hbest j hj hlooks
    obtain ⟨hjzero, hjbusy⟩ := (looksIdle_iff (hok j) hj).1 hlooks
    refine ⟨best, ?_, hbest⟩
    -- the first least counter stands no later than `j`, and `j` is not idle
    have hle : best ≤ j := by
      by_contra hlt
      have hfirst := hleast.first j (Nat.lt_of_not_le hlt)
      omega
    exact Nat.lt_of_le_of_ne hle (fun he => hjbusy (he ▸ hbest))
  · intro hall
    by_contra hbusy
    obtain ⟨k, hk, hkidle⟩ := hall best hleast.lt ((looksIdle_iff (hok best) hleast.lt).2 ⟨hzero, hbusy⟩)
    have hfirst := hleast.first k hk
    simp only [hkidle.inflight (hok k)] at hfirst
    omega

/-- Call 0's task runs on worker 0 of two, and never ends. -/
def firstRuns : List PoolTurn := List.replicate 9 (.caller 0 true) ++ List.replicate 4 (.worker 0)

theorem firstRuns_idle : Idle 2 (runPool 2 firstRuns) 1 := by
  have hpc : ((runPool 2 firstRuns).workers 1).pc = .lock := by decide
  exact ⟨by decide, by decide, fun task => by rw [hpc]; nofun, fun task => by rw [hpc]; nofun⟩

/-- Worker 0 looks idle and no idle worker stands in front of it. -/
theorem firstRuns_choice : ∃ best < 2, (runPool 2 (firstRuns ++ scanTurns 2 1)).callers 1 = .lock best ∧
    ¬ Idle 2 (runPool 2 firstRuns) best := by
  obtain ⟨best, hlt, hcaller, _, hiff⟩ := next_enqueue_idle 2 firstRuns 1 (by decide) ⟨1, firstRuns_idle⟩
  refine ⟨best, hlt, hcaller, fun hidle => ?_⟩
  obtain ⟨i, hi, _⟩ := hiff.1 hidle 0 (by decide) (Or.inl ⟨by decide, 0, by decide⟩)
  exact Nat.not_lt_zero i hi

/-- **The next call queues its task behind a running one while a worker is idle.** -/
theorem firstRuns_queued : ¬ ∀ (n : Nat) (turns : List PoolTurn) (p : Nat), (runPool n turns).callers p = .idle →
    (∃ i, Idle n (runPool n turns) i) → ∀ (rest : List PoolTurn) (i : Nat),
      p ∈ ((runPool n (turns ++ scanTurns n p ++ rest)).workers i).accepted → Idle n (runPool n turns) i := by
  intro h
  have hzero := h 2 firstRuns 1 (by decide) ⟨1, firstRuns_idle⟩ (List.replicate 5 (.caller 1 true)) 0 (by decide)
  exact hzero.2.2.2 0 (by decide)

end ThreadPool

end PyNetX
