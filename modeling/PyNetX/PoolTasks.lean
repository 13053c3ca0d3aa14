import Mathlib.Data.List.Nodup
import PyNetX.ThreadPool
/-!
# PoolTasks — every task runs once, and the counters say what is queued

What holds of each worker after every turn (`WorkerOk`): its mutex tells who is inside, its counter is its queue's
length but for a task just popped or just put in, and what it ran, popped and still holds is what its queue was given.
-/
namespace PyNetX

open Mutex (Guards)
open Run (run Along)

def WorkerPc.inside : WorkerPc → Bool
  | .check | .sleep | .take => true
  | _ => false

/-- The task a worker has popped and not yet counted off. -/
def WorkerPc.popped : WorkerPc → List Nat
  | .count task => [task]
  | _ => []

/-- The worker whose critical section a call is in. -/
def CallerPc.inside : CallerPc → Option Nat
  | .emplace best | .count best | .unlock best => some best
  | _ => none

/-- The worker whose queue a call has put its task in. -/
def CallerPc.placed : CallerPc → Option Nat
  | .count best | .unlock best | .notify best | .returned best => some best
  | _ => none

namespace ThreadPool

/-- The thread is inside the critical section of worker `i`. -/
def Inside (s : ThreadPool) (i : Nat) : PoolThread → Prop
  | .worker => (s.workers i).pc.inside = true
  | .caller p => (s.callers p).inside = some i

/-- The tasks in worker `i`'s queue that `inflight` does not count yet. -/
def uncounted (s : ThreadPool) (i : Nat) : Nat :=
  match (s.workers i).mtx with
  | some (.caller p) => if s.callers p = .count i then 1 else 0
  | _ => 0

/-- The invariant of worker `i`. -/
structure WorkerOk (s : ThreadPool) (i : Nat) : Prop where
  guards : Guards (s.workers i).mtx (s.Inside i)
  counted : (s.workers i).inflight + s.uncounted i = (s.workers i).tasks.length + (s.workers i).pc.popped.length
  queued : s.uncounted i ≤ (s.workers i).tasks.length
  room : (s.workers i).tasks.length ≤ maxTasks
  ordered : (s.workers i).executed ++ (s.workers i).pc.popped ++ (s.workers i).tasks = (s.workers i).accepted
  placed : ∀ p, p ∈ (s.workers i).accepted ↔ (s.callers p).placed = some i
  once : (s.workers i).accepted.Nodup

variable {s : ThreadPool} {i j p : Nat} {w : Worker} {pc : CallerPc}

@[simp] theorem setWorker_self : (s.setWorker i w).workers i = w := by
  simp [setWorker]

theorem setWorker_ne (h : j ≠ i) : (s.setWorker i w).workers j = s.workers j := by
  simp [setWorker, h]

@[simp] theorem setWorker_callers : (s.setWorker i w).callers = s.callers := rfl

@[simp] theorem setWorker_stop : (s.setWorker i w).stop = s.stop := rfl

@[simp] theorem setWorker_destructor : (s.setWorker i w).destructor = s.destructor := rfl

@[simp] theorem setCaller_self : (s.setCaller p pc).callers p = pc := by
  simp [setCaller]

theorem setCaller_ne {q : Nat} (h : q ≠ p) : (s.setCaller p pc).callers q = s.callers q := by
  simp [setCaller, h]

@[simp] theorem setCaller_workers : (s.setCaller p pc).workers = s.workers := rfl

@[simp] theorem setCaller_stop : (s.setCaller p pc).stop = s.stop := rfl

@[simp] theorem setCaller_destructor : (s.setCaller p pc).destructor = s.destructor := rfl

theorem notified_eq (w : Worker) : w.notified = { w with pc := w.notified.pc } := by
  unfold Worker.notified
  split <;> rfl

theorem notified_pc_inside (w : Worker) : w.notified.pc.inside = w.pc.inside := by
  unfold Worker.notified
  split
  · rename_i h
    rw [h]
    rfl
  · rfl

theorem notified_pc_popped (w : Worker) : w.notified.pc.popped = w.pc.popped := by
  unfold Worker.notified
  split
  · rename_i h
    rw [h]
    rfl
  · rfl

/-! ## One turn -/

/-- A call's program point is the same to worker `i` before and after. -/
def SameTo (i : Nat) (c c' : CallerPc) : Prop :=
  (c'.inside = some i ↔ c.inside = some i) ∧ (c'.placed = some i ↔ c.placed = some i) ∧ (c' = .count i ↔ c = .count i)

theorem SameTo.of_target {c c' : CallerPc} (h : c.target ≠ some i) (h' : c'.target ≠ some i) : SameTo i c c' := by
  have hother : ∀ c : CallerPc, c.target ≠ some i → c.inside ≠ some i ∧ c.placed ≠ some i ∧ c ≠ .count i := by
    intro c hc
    cases c <;> simp_all [CallerPc.target, CallerPc.inside, CallerPc.placed]
  obtain ⟨h1, h2, h3⟩ := hother c h
  obtain ⟨h1', h2', h3'⟩ := hother c' h'
  exact ⟨iff_of_false h1' h1, iff_of_false h2' h2, iff_of_false h3' h3⟩

theorem uncounted_frame {s' : ThreadPool} (hw : s'.workers i = s.workers i)
    (hc : ∀ p, SameTo i (s.callers p) (s'.callers p)) : s'.uncounted i = s.uncounted i := by
  unfold uncounted
  rw [hw]
  split
  · rename_i q _
    by_cases hq : s.callers q = .count i
    · rw [if_pos hq, if_pos ((hc q).2.2.2 hq)]
    · rw [if_neg hq, if_neg (fun h => hq ((hc q).2.2.1 h))]
  · rfl

/-- **A worker whose state is the same and to whom every call is the same keeps its invariant.** -/
theorem WorkerOk.frame {s' : ThreadPool} (h : WorkerOk s i) (hw : s'.workers i = s.workers i)
    (hc : ∀ p, SameTo i (s.callers p) (s'.callers p)) : WorkerOk s' i where
  guards := by
    rw [hw]
    refine h.guards.congr (fun t => ?_)
    cases t with
    | worker => simp only [Inside, hw]
    | caller p => exact (hc p).1
  counted := by rw [uncounted_frame hw hc, hw]; exact h.counted
  queued := by rw [uncounted_frame hw hc, hw]; exact h.queued
  room := by rw [hw]; exact h.room
  ordered := by rw [hw]; exact h.ordered
  placed := fun p => by rw [hw, h.placed p, (hc p).2.1]
  once := by rw [hw]; exact h.once

theorem uncounted_of_mtx (h : ∀ q, (s.workers i).mtx ≠ some (.caller q)) : s.uncounted i = 0 := by
  unfold uncounted
  split
  · rename_i q hq
    exact absurd hq (h q)
  · rfl

theorem uncounted_of_caller (hmtx : (s.workers i).mtx = some (.caller p)) :
    s.uncounted i = if s.callers p = .count i then 1 else 0 := by
  simp only [uncounted, hmtx]

theorem uncounted_setWorker (h : ∀ q, w.mtx = some (.caller q) ↔ (s.workers i).mtx = some (.caller q)) :
    (s.setWorker i w).uncounted i = s.uncounted i := by
  by_cases hq : ∃ q, w.mtx = some (.caller q)
  · obtain ⟨q, hq⟩ := hq
    rw [uncounted_of_caller ((h q).1 hq), uncounted_of_caller (p := q) (by simpa using hq)]
    rfl
  · have hw : ∀ q, w.mtx ≠ some (.caller q) := fun q hm => hq ⟨q, hm⟩
    rw [uncounted_of_mtx (fun q hm => hw q ((h q).2 hm)), uncounted_of_mtx (by simpa using hw)]

theorem fetchSub_pos {n : Nat} (h : 0 < n) (hlt : n < 2 ^ 64) : fetchSub n = n - 1 := by
  unfold fetchSub
  omega

theorem fetchAdd_lt {n : Nat} (h : n < 2 ^ 64 - 1) : fetchAdd n = n + 1 := by
  unfold fetchAdd
  omega

theorem WorkerOk.inflight_le (h : WorkerOk s i) : (s.workers i).inflight ≤ maxTasks + 1 := by
  have hpopped : (s.workers i).pc.popped.length ≤ 1 := by
    cases (s.workers i).pc <;> simp [WorkerPc.popped]
  have hcounted := h.counted
  have hroom := h.room
  omega

theorem WorkerOk.mtx_of_inside (h : WorkerOk s i) (hin : (s.workers i).pc.inside = true) :
    (s.workers i).mtx = some .worker :=
  h.guards.holder (t := PoolThread.worker) hin

theorem WorkerOk.inflight_pos {task : Nat} (h : WorkerOk s i) (hpc : (s.workers i).pc = .count task) :
    0 < (s.workers i).inflight := by
  have hcounted := h.counted
  have hqueued := h.queued
  rw [hpc] at hcounted
  simp only [WorkerPc.popped, List.length_singleton] at hcounted
  omega

theorem WorkerOk.of_worker (h : WorkerOk s i) (hguards : Guards w.mtx ((s.setWorker i w).Inside i))
    (hmtx : ∀ q, w.mtx = some (.caller q) ↔ (s.workers i).mtx = some (.caller q))
    (hcounted : w.inflight + ((s.workers i).tasks.length + (s.workers i).pc.popped.length) =
      (s.workers i).inflight + (w.tasks.length + w.pc.popped.length))
    (hqueued : s.uncounted i ≤ w.tasks.length) (hroom : w.tasks.length ≤ maxTasks)
    (hordered : w.executed ++ w.pc.popped ++ w.tasks = (s.workers i).accepted)
    (haccepted : w.accepted = (s.workers i).accepted) : WorkerOk (s.setWorker i w) i where
  guards := by rw [setWorker_self]; exact hguards
  counted := by
    have hold := h.counted
    rw [uncounted_setWorker hmtx, setWorker_self]
    omega
  queued := by rw [uncounted_setWorker hmtx, setWorker_self]; exact hqueued
  room := by rw [setWorker_self]; exact hroom
  ordered := by rw [setWorker_self, haccepted]; exact hordered
  placed := fun p => by rw [setWorker_self, haccepted]; exact h.placed p
  once := by rw [setWorker_self, haccepted]; exact h.once

theorem WorkerOk.of_worker_idle (h : WorkerOk s i) (hguards : Guards w.mtx ((s.setWorker i w).Inside i))
    (hmtx : ∀ q, w.mtx = some (.caller q) ↔ (s.workers i).mtx = some (.caller q))
    (hw : w = { s.workers i with mtx := w.mtx, pc := w.pc }) (hpopped : w.pc.popped = (s.workers i).pc.popped) :
    WorkerOk (s.setWorker i w) i := by
  rw [hw] at hguards ⊢
  refine h.of_worker hguards (by simpa using hmtx) ?_ h.queued h.room ?_ rfl
  · simp only [hpopped]
  · simp only [hpopped]
    exact h.ordered

theorem Inside.setWorker_other {t : PoolThread} (ht : t ≠ .worker) : (s.setWorker i w).Inside i t ↔ s.Inside i t := by
  cases t with
  | worker => exact absurd rfl ht
  | caller p => rfl

/-- **What a worker's move keeps.** -/
theorem WorkerOk.move {w' : Worker} (h : WorkerOk s i) (hm : WorkerMove s.stop (s.workers i) w') :
    WorkerOk (s.setWorker i w') i := by
  have hsame : ∀ (w : Worker) (t : PoolThread), t ≠ .worker → ((s.setWorker i w).Inside i t ↔ s.Inside i t) :=
    fun w t ht => Inside.setWorker_other ht
  have hleft : ∀ w : Worker, w.pc.inside = false → (s.workers i).pc.inside = true →
      Guards none ((s.setWorker i w).Inside i) := by
    intro w hout hin
    have hguards := h.guards
    rw [h.mtx_of_inside hin] at hguards
    exact hguards.leave (by simp [Inside, hout]) (hsame w)
  have hstay : ∀ w : Worker, w.pc.inside = (s.workers i).pc.inside →
      Guards (s.workers i).mtx ((s.setWorker i w).Inside i) := by
    intro w hw
    refine h.guards.congr (fun t => ?_)
    cases t with
    | worker => simp [Inside, hw]
    | caller p => rfl
  cases hm with
  | enter hpc hfree =>
    refine h.of_worker_idle ?_ (by simp [hfree]) rfl ?_
    · have hguards := h.guards
      rw [hfree] at hguards
      exact hguards.enter (by simp [Inside, WorkerPc.inside]) (hsame _)
    · rcases hpc with hpc | hpc <;> simp [hpc, WorkerPc.popped]
  | awake hpc hawake =>
    exact h.of_worker_idle (hstay _ (by simp [hpc, WorkerPc.inside])) (fun q => Iff.rfl) rfl
      (by simp [hpc, WorkerPc.popped])
  | drowse hpc hstop hempty =>
    exact h.of_worker_idle (hstay _ (by simp [hpc, WorkerPc.inside])) (fun q => Iff.rfl) rfl
      (by simp [hpc, WorkerPc.popped])
  | block hpc =>
    have hin : (s.workers i).pc.inside = true := by rw [hpc]; rfl
    exact h.of_worker_idle (hleft _ rfl hin) (by simp [h.mtx_of_inside hin]) rfl (by simp [hpc, WorkerPc.popped])
  | wake hpc =>
    exact h.of_worker_idle (hstay _ (by simp [hpc, WorkerPc.inside])) (fun q => Iff.rfl) rfl
      (by simp [hpc, WorkerPc.popped])
  | exit hpc hstop hempty =>
    have hin : (s.workers i).pc.inside = true := by rw [hpc]; rfl
    exact h.of_worker_idle (hleft _ rfl hin) (by simp [h.mtx_of_inside hin]) rfl (by simp [hpc, WorkerPc.popped])
  | @pop task tasks hpc htasks =>
    have hin : (s.workers i).pc.inside = true := by rw [hpc]; rfl
    have hroom := h.room
    have hordered := h.ordered
    rw [htasks] at hroom
    rw [htasks, hpc] at hordered
    have huncounted : s.uncounted i = 0 := uncounted_of_mtx (by simp [h.mtx_of_inside hin])
    refine h.of_worker (hleft _ rfl hin) (by simp [h.mtx_of_inside hin]) ?_ (by omega) ?_ ?_ rfl
    · simp [hpc, htasks, WorkerPc.popped]
    · exact Nat.le_of_succ_le hroom
    · simpa [WorkerPc.popped] using hordered
  | @countOff task hpc =>
    have hordered := h.ordered
    have hpos := h.inflight_pos hpc
    have hlt : (s.workers i).inflight < 2 ^ 64 := Nat.lt_of_le_of_lt h.inflight_le (by decide)
    rw [hpc] at hordered
    refine h.of_worker (hstay _ (by simp [hpc, WorkerPc.inside])) (fun q => Iff.rfl) ?_ h.queued h.room ?_ rfl
    · simp only [hpc, WorkerPc.popped, List.length_singleton, List.length_nil, fetchSub_pos hpos hlt]
      omega
    · simpa [WorkerPc.popped] using hordered
  | ended hpc =>
    exact h.of_worker_idle (hstay _ (by simp [hpc, WorkerPc.inside])) (fun q => Iff.rfl) rfl
      (by simp [hpc, WorkerPc.popped])

theorem WorkerOk.notified (h : WorkerOk s i) : WorkerOk (s.setWorker i (s.workers i).notified) i := by
  have hpopped := notified_pc_popped (s.workers i)
  refine h.of_worker_idle ?_ (fun q => by rw [notified_eq]) (by rw [notified_eq]) hpopped
  rw [notified_eq]
  refine h.guards.congr (fun t => ?_)
  cases t with
  | worker => simp [Inside, notified_pc_inside]
  | caller q => rfl

theorem WorkerOk.setCaller (h : WorkerOk s j) (hsame : SameTo j (s.callers p) pc) : WorkerOk (s.setCaller p pc) j := by
  refine h.frame rfl (fun q => ?_)
  by_cases hq : q = p
  · subst hq
    rw [setCaller_self]
    exact hsame
  · rw [setCaller_ne hq]
    exact ⟨Iff.rfl, Iff.rfl, Iff.rfl⟩

theorem WorkerOk.setWorker_ne (h : WorkerOk s j) (hj : j ≠ i) : WorkerOk (s.setWorker i w) j :=
  h.frame (ThreadPool.setWorker_ne hj) (fun _ => ⟨Iff.rfl, Iff.rfl, Iff.rfl⟩)

theorem WorkerOk.of_call (h : WorkerOk s i) (hguards : Guards w.mtx (((s.setWorker i w).setCaller p pc).Inside i))
    (hpc : w.pc = (s.workers i).pc) (hexecuted : w.executed = (s.workers i).executed)
    (hcounted : w.inflight + ((s.setWorker i w).setCaller p pc).uncounted i + (s.workers i).tasks.length =
      (s.workers i).inflight + s.uncounted i + w.tasks.length)
    (hqueued : ((s.setWorker i w).setCaller p pc).uncounted i ≤ w.tasks.length) (hroom : w.tasks.length ≤ maxTasks)
    (htasks : (w.tasks = (s.workers i).tasks ∧ w.accepted = (s.workers i).accepted ∧
        (pc.placed = some i ↔ (s.callers p).placed = some i)) ∨
      (w.tasks = (s.workers i).tasks ++ [p] ∧ w.accepted = (s.workers i).accepted ++ [p] ∧
        pc.placed = some i ∧ (s.callers p).placed ≠ some i)) :
    WorkerOk ((s.setWorker i w).setCaller p pc) i where
  guards := by simpa using hguards
  counted := by
    have hold := h.counted
    simp only [setCaller_workers, setWorker_self, hpc]
    omega
  queued := by simpa using hqueued
  room := by simpa using hroom
  ordered := by
    have hold := h.ordered
    simp only [setCaller_workers, setWorker_self, hpc, hexecuted]
    rcases htasks with ⟨ht, ha, _⟩ | ⟨ht, ha, _⟩
    · rw [ht, ha, hold]
    · rw [ht, ha, ← List.append_assoc, hold]
  placed := by
    intro q
    have hold := h.placed q
    simp only [setCaller_workers, setWorker_self]
    by_cases hq : q = p
    · subst hq
      rw [setCaller_self]
      rcases htasks with ⟨_, ha, hplaced⟩ | ⟨_, ha, hplaced, _⟩
      · rw [ha, hold, hplaced]
      · simp [ha, hplaced]
    · rw [setCaller_ne hq]
      rcases htasks with ⟨_, ha, _⟩ | ⟨_, ha, _⟩
      · rw [ha]
        exact hold
      · simp [ha, hq, hold]
  once := by
    simp only [setCaller_workers, setWorker_self]
    rcases htasks with ⟨_, ha, _⟩ | ⟨_, ha, _, hnew⟩
    · rw [ha]
      exact h.once
    · rw [ha]
      apply List.Nodup.append h.once (List.nodup_singleton p)
      intro q hq hqp
      rw [List.mem_singleton] at hqp
      subst hqp
      exact hnew ((h.placed q).1 hq)

/-- **What a call's turn keeps at the worker it has chosen.** -/
theorem WorkerOk.call {n : Nat} {c' : CallerPc} {s' : ThreadPool} (h : WorkerOk s i)
    (hm : CallerMove n s p (s.callers p) c' s') (hi : (s.callers p).target = some i) : WorkerOk s' i := by
  have hother : ∀ (w : Worker) (c : CallerPc), w.pc = (s.workers i).pc → ∀ t, t ≠ PoolThread.caller p →
      (((s.setWorker i w).setCaller p c).Inside i t ↔ s.Inside i t) := by
    intro w c hw t ht
    cases t with
    | worker => simp [Inside, hw]
    | caller q =>
      have hq : q ≠ p := fun hq => ht (by rw [hq])
      simp [Inside, setCaller_ne hq]
  have hholds : (s.callers p).inside = some i → (s.workers i).mtx = some (.caller p) :=
    fun hin => h.guards.holder (t := PoolThread.caller p) hin
  have hwithin : ∀ (w : Worker) (c : CallerPc), w.pc = (s.workers i).pc → c.inside = (s.callers p).inside →
      ∀ t, ((s.setWorker i w).setCaller p c).Inside i t ↔ s.Inside i t := by
    intro w c hw hc t
    by_cases ht : t = PoolThread.caller p
    · subst ht
      simp [Inside, hc]
    · exact hother w c hw t ht
  have hleft : ∀ (w : Worker) (c : CallerPc), w.pc = (s.workers i).pc → (s.workers i).mtx = some (.caller p) →
      c.inside = none → Guards none (((s.setWorker i w).setCaller p c).Inside i) := by
    intro w c hw hmtx hc
    have hguards := h.guards
    rw [hmtx] at hguards
    exact hguards.leave (by simp [Inside, hc]) (hother w c hw)
  generalize hc : s.callers p = c at hm hi
  cases hm with
  | look hlooks hlook => rw [target_of_looks hlooks] at hi; cases hi
  | @enter best hbest hfree =>
    cases hi
    have hguards := h.guards
    rw [hfree] at hguards
    have hbefore : s.uncounted i = 0 := uncounted_of_mtx (by simp [hfree])
    refine h.of_call (hguards.enter (by simp [Inside, CallerPc.inside]) (hother _ _ rfl)) rfl rfl ?_ ?_ h.room
      (Or.inl ⟨rfl, rfl, by simp [hc, CallerPc.placed]⟩)
    · rw [uncounted_of_caller (p := p) (by simp), hbefore]
      simp
    · rw [uncounted_of_caller (p := p) (by simp)]
      simp
  | @emplace best hroom =>
    cases hi
    have hmtx := hholds (by rw [hc]; rfl)
    have hbefore : s.uncounted i = 0 := by
      rw [uncounted_of_caller hmtx, hc]
      rfl
    refine h.of_call (h.guards.congr (hwithin _ _ rfl (by rw [hc]; rfl))) rfl rfl ?_ ?_ ?_
      (Or.inr ⟨rfl, rfl, rfl, by simp [hc, CallerPc.placed]⟩)
    · rw [uncounted_of_caller (p := p) (by simpa using hmtx), hbefore]
      simp
      omega
    · rw [uncounted_of_caller (p := p) (by simpa using hmtx)]
      simp
    · simpa [Nat.succ_le_iff] using hroom
  | throw | leave =>
    cases hi
    have hmtx := hholds (by rw [hc]; rfl)
    refine h.of_call (hleft _ _ rfl hmtx rfl) rfl rfl ?_ ?_ h.room (Or.inl ⟨rfl, rfl, by simp [hc, CallerPc.placed]⟩)
    · rw [uncounted_of_mtx (by simp), uncounted_of_caller hmtx, hc]
      simp
    · rw [uncounted_of_mtx (by simp)]
      exact Nat.zero_le _
  | @count best =>
    cases hi
    have hmtx := hholds (by rw [hc]; rfl)
    have hadd : fetchAdd (s.workers i).inflight = (s.workers i).inflight + 1 :=
      fetchAdd_lt (Nat.lt_of_le_of_lt h.inflight_le (by decide))
    refine h.of_call (h.guards.congr (hwithin _ _ rfl (by rw [hc]; rfl))) rfl rfl ?_ ?_ h.room
      (Or.inl ⟨rfl, rfl, by simp [hc, CallerPc.placed]⟩)
    · rw [uncounted_of_caller (p := p) (by simpa using hmtx), uncounted_of_caller hmtx, hc]
      simp [hadd]
    · rw [uncounted_of_caller (p := p) (by simpa using hmtx)]
      simp
  | @notify best =>
    cases hi
    apply h.notified.setCaller
    rw [setWorker_callers, hc]
    exact ⟨Iff.rfl.trans (by simp [CallerPc.inside]), Iff.rfl, by simp⟩

/-- **What a call's turn keeps at every other worker.** -/
theorem WorkerOk.call_ne {n : Nat} {c' : CallerPc} {s' : ThreadPool} (h : WorkerOk s j)
    (hm : CallerMove n s p (s.callers p) c' s') (hj : (s.callers p).target ≠ some j) : WorkerOk s' j := by
  have htarget : ∀ {best : Nat} {w : Worker} {c : CallerPc}, (s.callers p).target = some best →
      (c.target = some best ∨ c.target = none) → WorkerOk ((s.setWorker best w).setCaller p c) j := by
    intro best w c hbest hc
    have hne : j ≠ best := fun he => hj (by rw [hbest, he])
    refine (h.setWorker_ne hne).setCaller (SameTo.of_target (by simpa using hj) ?_)
    rcases hc with hc | hc <;> simp [hc, Ne.symm hne]
  generalize hc : s.callers p = c at hm htarget
  cases hm with
  | look hlooks hlook =>
    apply h.setCaller
    rw [hc]
    rcases hlook with hlook | ⟨best, rfl⟩
    · exact SameTo.of_target (by simp [target_of_looks hlooks]) (by simp [target_of_looks hlook])
    · cases c <;> simp [CallerPc.looks, SameTo, CallerPc.inside, CallerPc.placed] at hlooks ⊢
  | enter hbest hfree => exact htarget rfl (Or.inl rfl)
  | emplace hroom => exact htarget rfl (Or.inl rfl)
  | throw => exact htarget rfl (Or.inr rfl)
  | count => exact htarget rfl (Or.inl rfl)
  | leave => exact htarget rfl (Or.inl rfl)
  | notify => exact htarget rfl (Or.inl rfl)

/-- **What any turn keeps.** -/
theorem WorkerOk.step {n : Nat} (hall : ∀ j, WorkerOk s j) (t : PoolTurn) (j : Nat) : WorkerOk (s.step n t) j := by
  have hsame : ∀ q, SameTo j (s.callers q) (s.callers q) := fun q => ⟨Iff.rfl, Iff.rfl, Iff.rfl⟩
  obtain he | ⟨i, w', hm, he⟩ | ⟨p, room, c', _, hm⟩ | ⟨_, hm⟩ := step_cases n s t
  · rw [he]
    exact hall j
  · rw [he]
    by_cases hj : j = i
    · subst hj
      exact (hall j).move hm
    · exact (hall j).setWorker_ne hj
  · by_cases hj : (s.callers p).target = some j
    · exact (hall j).call hm hj
    · exact (hall j).call_ne hm hj
  · generalize s.step n t = s' at hm
    cases hm with
    | @notify i hpc hi =>
      by_cases hj : j = i
      · subst hj
        exact (hall j).notified.frame rfl hsame
      · exact ((hall j).setWorker_ne hj).frame rfl hsame
    | stop | notified | join | joined => exact (hall j).frame rfl hsame

theorem workerOk_init (i : Nat) : WorkerOk {} i where
  guards := fun t => by cases t <;> simp [Inside, WorkerPc.inside, CallerPc.inside]
  counted := rfl
  queued := Nat.zero_le _
  room := Nat.zero_le _
  ordered := rfl
  placed := fun p => by simp [CallerPc.placed]
  once := List.nodup_nil

/-- **Every reachable pool keeps the invariant of each of its workers.** -/
theorem workerOk_run (n : Nat) (turns : List PoolTurn) (i : Nat) : WorkerOk (runPool n turns) i :=
  Run.run_invariant (I := fun s => ∀ i, WorkerOk s i) (fun _ t h j => WorkerOk.step h t j) turns {} workerOk_init i

/-! ## Draining -/

def CallEnded : CallerPc → Prop
  | .idle | .returned _ | .threw => True
  | _ => False

/-- Every `enqueue` completes before the destructor sets `stop_`: it does so with no call under way, and no call takes
a turn after it. -/
def EnqueuesFirst (s : ThreadPool) : PoolTurn → Prop
  | .caller _ _ => s.stop = false
  | .destructor => s.destructor = .alive → ∀ p, CallEnded (s.callers p)
  | _ => True

/-- The invariant of a pool whose calls complete first. -/
structure Drains (s : ThreadPool) : Prop where
  quiet : s.stop = true → ∀ p, CallEnded (s.callers p)
  drained : ∀ i, (s.workers i).pc = .returned → s.stop = true ∧ (s.workers i).tasks = []

theorem Drains.move {w' : Worker} (h : Drains s) (hm : WorkerMove s.stop (s.workers i) w') :
    Drains (s.setWorker i w') where
  quiet := h.quiet
  drained := by
    intro j hj
    by_cases hji : j = i
    · subst hji
      rw [setWorker_self] at hj ⊢
      -- only an exit ends in the worker's return
      cases hm with
      | exit hpc hstop hempty => exact ⟨hstop, hempty⟩
      | enter | awake | drowse | block | wake | pop | countOff | ended => cases hj
    · rw [setWorker_ne hji] at hj ⊢
      exact h.drained j hj

theorem Drains.notified (h : Drains s) : Drains (s.setWorker i (s.workers i).notified) where
  quiet := h.quiet
  drained := by
    intro j hj
    by_cases hji : j = i
    · subst hji
      rw [setWorker_self] at hj ⊢
      unfold Worker.notified at hj ⊢
      split at hj
      · cases hj
      · rename_i hpc
        rw [if_neg hpc]
        exact h.drained j hj
    · rw [setWorker_ne hji] at hj ⊢
      exact h.drained j hj

/-- While the pool is not stopped no worker has returned, so a turn of a call has nothing to keep. -/
theorem Drains.of_running (h : Drains s) (hstop : s.stop = false) {s' : ThreadPool} (hstop' : s'.stop = false)
    (hpc : ∀ i, (s'.workers i).pc = .returned → (s.workers i).pc = .returned) : Drains s' where
  quiet := fun hs => by rw [hstop'] at hs; cases hs
  drained := fun i hi => by
    have hs := (h.drained i (hpc i hi)).1
    rw [hstop] at hs
    cases hs

theorem CallerMove.frame {n : Nat} {c c' : CallerPc} {s' : ThreadPool} (hm : CallerMove n s p c c' s') :
    s'.stop = s.stop ∧ s'.destructor = s.destructor ∧
      ∀ i, (s'.workers i).pc = (s.workers i).pc ∨ (s'.workers i).pc = (s.workers i).notified.pc := by
  have hset : ∀ (best : Nat) (w : Worker), w.pc = (s.workers best).pc ∨ w.pc = (s.workers best).notified.pc →
      ∀ i, ((s.setWorker best w).workers i).pc = (s.workers i).pc ∨
        ((s.setWorker best w).workers i).pc = (s.workers i).notified.pc := by
    intro best w hw i
    by_cases hi : i = best
    · subst hi
      rw [setWorker_self]
      exact hw
    · rw [setWorker_ne hi]
      exact Or.inl rfl
  cases hm with
  | look => exact ⟨rfl, rfl, fun i => Or.inl rfl⟩
  | enter | emplace | throw | count | leave => exact ⟨rfl, rfl, hset _ _ (Or.inl rfl)⟩
  | notify => exact ⟨rfl, rfl, hset _ _ (Or.inr rfl)⟩

theorem notified_pc_returned (h : (s.workers i).notified.pc = .returned) : (s.workers i).pc = .returned := by
  unfold Worker.notified at h
  split at h
  · cases h
  · exact h

/-- **What a turn keeps of a pool whose calls complete first.** -/
theorem Drains.step {n : Nat} (h : Drains s) (t : PoolTurn) (ht : EnqueuesFirst s t) : Drains (s.step n t) := by
  obtain he | ⟨i, w', hm, he⟩ | ⟨p, room, c', rfl, hm⟩ | ⟨rfl, hm⟩ := step_cases n s t
  · rw [he]
    exact h
  · rw [he]
    exact h.move hm
  · have hstop : s.stop = false := ht
    obtain ⟨hstop', _, hpc⟩ := CallerMove.frame hm
    refine h.of_running hstop (hstop'.trans hstop) (fun i hi => ?_)
    rcases hpc i with he | he
    · exact he ▸ hi
    · exact notified_pc_returned (he ▸ hi)
  · generalize s.step n .destructor = s' at hm
    cases hm with
    | stop hpc => exact ⟨fun _ => ht hpc, fun i hi => ⟨rfl, (h.drained i hi).2⟩⟩
    | notify hpc hi => exact ⟨h.quiet, h.notified.drained⟩
    | notified | join | joined => exact ⟨h.quiet, h.drained⟩

theorem drains_run {n : Nat} {turns : List PoolTurn} (h : Along (ThreadPool.step n) EnqueuesFirst {} turns) :
    Drains (runPool n turns) :=
  Run.along_invariant (I := Drains) (fun _ t hs ht => hs.step t ht)
    ⟨fun hs => (by cases hs), fun _ hpc => (by cases hpc)⟩ turns h

/-- **The pool runs every task exactly once.**  In every run whose calls of `enqueue` complete before the destructor
sets `stop_`, each worker has run, has popped and still holds, in order, what its queue was given; that is each task once,
and the tasks of the calls that chose this worker; a worker that has returned has run all of it; and its counter is its
queue's length, plus one for a task popped and not counted off, and is above zero where it is taken down. -/
theorem tasks_run_once (n : Nat) (turns : List PoolTurn) (h : Along (ThreadPool.step n) EnqueuesFirst {} turns)
    (i : Nat) :
    let s := runPool n turns
    let w := s.workers i
    w.executed ++ w.pc.popped ++ w.tasks = w.accepted ∧ w.accepted.Nodup ∧
      (∀ p, p ∈ w.accepted ↔ (s.callers p).placed = some i) ∧
      (w.pc = .returned → w.tasks = [] ∧ w.executed = w.accepted) ∧
      ((∀ p, (s.callers p).inside ≠ some i) → w.inflight = w.tasks.length + w.pc.popped.length) ∧
      (∀ task, w.pc = .count task → 0 < w.inflight) := by
  have hok := workerOk_run n turns i
  refine ⟨hok.ordered, hok.once, hok.placed, ?_, ?_, fun task hpc => hok.inflight_pos hpc⟩
  · intro hpc
    have hempty := ((drains_run h).drained i hpc).2
    have hordered := hok.ordered
    rw [hpc, hempty] at hordered
    exact ⟨hempty, by simpa [WorkerPc.popped] using hordered⟩
  · intro hnobody
    have hcounted := hok.counted
    rw [uncounted_of_mtx] at hcounted
    · exact hcounted
    · intro q hq
      exact hnobody q ((hok.guards (.caller q)).2 hq)

/-- One call, one worker: the task is run, the pool is stopped, the worker returns. -/
def oneTask : List PoolTurn :=
  List.replicate 8 (.caller 0 true) ++ List.replicate 4 (.worker 0) ++ [.taskEnds 0 true] ++
    [.destructor, .worker 0, .worker 0, .worker 0]

theorem oneTask_runs_once :
    ((runPool 1 oneTask).workers 0).pc = .returned ∧
      ((runPool 1 oneTask).workers 0).executed = ((runPool 1 oneTask).workers 0).accepted := by
  have hpc : ((runPool 1 oneTask).workers 0).pc = .returned := by decide
  have henqueues : Along (ThreadPool.step 1) EnqueuesFirst {} oneTask := by
    simp only [oneTask, List.replicate, List.cons_append, List.nil_append, Run.along_cons]
    exact ⟨rfl, rfl, rfl, rfl, rfl, rfl, rfl, rfl, trivial, trivial, trivial, trivial, trivial,
      fun _ p => by cases p <;> trivial, trivial, trivial, trivial, Run.along_nil⟩
  exact ⟨hpc, ((tasks_run_once 1 oneTask henqueues 0).2.2.2.1 hpc).2⟩

end ThreadPool

end PyNetX
