import PyNetX.Lib.LeadsTo
import PyNetX.Lib.Monitor
import PyNetX.BusRun
/-!
# BusWakeups — nobody sleeps on a health event

The bus with its condition variable.  `emit` notifies one thread behind its section, and other threads may come in
between; a notified thread has to take the mutex again, and may find the queue empty.  The notifications that are due and
the threads that are woken cover what is queued whenever a thread sleeps, and on a schedule that lets both go on, what is
queued is taken (`no_lost_wakeup`).
-/
namespace PyNetX

open Run (run)
open LeadsTo (after Leads)

/-- The bus; of the threads in `next_event`, those that sleep and those that have been woken and not looked yet; and the
calls of `emit` that have left their section and not notified yet. -/
structure BusThreads where
  run : BusRun := {}
  blocked : List Nat := []
  woken : List Nat := []
  due : Nat := 0

/-- A section under `mtx_`, or what happens between two of them. -/
inductive BusMove where
  | emit (event : NotificationHealthEvent) (memory : Bool)
  /-- `notify_one`; `thread` is the one it wakes, if that sleeps. -/
  | notify (thread : Nat)
  | next (thread : Nat) (timeoutMs : Int)
  /-- A wait ends by its timeout, or for no reason. -/
  | stir (thread : Nat)
  /-- A woken thread has the mutex again, and its time is over or not. -/
  | look (thread : Nat) (timedOut : Bool)
  | clear

namespace BusThreads

/-- A thread that sleeps is woken. -/
def wake (s : BusThreads) (thread : Nat) : BusThreads :=
  if thread ∈ s.blocked then { s with blocked := s.blocked.erase thread, woken := s.woken ++ [thread] } else s

/-- The thread sleeps if it waits behind its section. -/
def settle (s : BusThreads) (thread : Nat) : BusThreads :=
  if (s.run.waiting thread).isSome then { s with blocked := s.blocked ++ [thread] } else s

def step (s : BusThreads) : BusMove → BusThreads
  | .emit event memory =>
    { s with run := s.run.step (.emit event memory), due := if memory then s.due + 1 else s.due }
  | .notify thread =>
    if s.due = 0 then s
    else
      let s := { s with due := s.due - 1 }
      match s.blocked with
      | [] => s
      | first :: _ => s.wake (if thread ∈ s.blocked then thread else first)
  | .next thread timeoutMs =>
    if (s.run.waiting thread).isSome then s
    else ({ s with run := s.run.step (.next thread timeoutMs) } : BusThreads).settle thread
  | .stir thread => s.wake thread
  | .look thread timedOut =>
    if thread ∈ s.woken then
      ({ s with run := s.run.step (.wake thread timedOut), woken := s.woken.erase thread } : BusThreads).settle thread
    else s
  | .clear => { s with run := s.run.step .clear }

@[simp] theorem wake_run (s : BusThreads) (thread : Nat) : (s.wake thread).run = s.run := by
  unfold wake
  split <;> rfl

@[simp] theorem settle_run (s : BusThreads) (thread : Nat) : (s.settle thread).run = s.run := by
  unfold settle
  split <;> rfl

theorem settle_of_none {s : BusThreads} {thread : Nat} (h : s.run.waiting thread = none) : s.settle thread = s := by
  rw [settle, h]
  rfl

/-- What the condition variable sees. -/
def monitor (s : BusThreads) : Monitor.State Nat where
  avail := s.run.bus.queue.length
  blocked := s.blocked
  woken := s.woken
  ones := s.due

/-- The events that calls of `next_event` have returned. -/
def delivered (s : BusThreads) : Nat := s.run.results.countP fun r => match r.2 with
  | .event _ => true
  | _ => false

end BusThreads

def runBusThreads (moves : List BusMove) : BusThreads := run BusThreads.step {} moves

namespace BusThreads

variable {s : BusThreads}

/-! ## What a look does -/

/-- What a look at the queue comes to, for the thread and for the queue. -/
structure Looked (r r' : BusRun) (thread : Nat) : Prop where
  others : ∀ t, t ≠ thread → r'.waiting t = r.waiting t
  found : r.bus.queue ≠ [] → r'.waiting thread = none ∧ r'.bus.queue.length + 1 = r.bus.queue.length ∧
    ∃ e, r'.results = r.results ++ [(thread, .event e)]
  empty : r.bus.queue = [] → r'.bus.queue = []

theorem looked (r : BusRun) (thread : Nat) (timeoutMs : Int) (isLast : Bool) :
    Looked r (r.look thread timeoutMs isLast) thread := by
  unfold BusRun.look EventBus.deliver
  cases hq : r.bus.queue with
  | nil =>
    cases isLast with
    | true => exact ⟨fun t ht => Function.update_of_ne ht _ _, fun h => absurd hq h, fun _ => hq⟩
    | false => exact ⟨fun t ht => Function.update_of_ne ht _ _, fun h => absurd hq h, fun _ => hq⟩
  | cons e es =>
    refine ⟨fun t ht => Function.update_of_ne ht _ _, fun _ => ⟨Function.update_self .., ?_, _, rfl⟩, fun h => ?_⟩
    · rw [hq]
      rfl
    · rw [hq] at h
      cases h

/-- A call of `next_event` is refused, or looks. -/
theorem next_cases (r : BusRun) (thread : Nat) (timeoutMs : Int) (hnew : (r.waiting thread).isSome = false) :
    ((r.step (.next thread timeoutMs)).bus = r.bus ∧ (r.step (.next thread timeoutMs)).waiting = r.waiting ∧
      ∃ what, (r.step (.next thread timeoutMs)).results = r.results ++ [(thread, .threw what)]) ∨
    Looked r (r.step (.next thread timeoutMs)) thread := by
  simp only [BusRun.step, hnew]
  rw [if_neg Bool.false_ne_true]
  split
  · exact Or.inl ⟨rfl, rfl, _, rfl⟩
  · exact Or.inr (looked r thread timeoutMs _)

theorem wake_cases (r : BusRun) (thread : Nat) (timedOut : Bool) (hwaits : (r.waiting thread).isSome = true) :
    Looked r (r.step (.wake thread timedOut)) thread := by
  obtain ⟨timeoutMs, hw⟩ := Option.isSome_iff_exists.1 hwaits
  simp only [BusRun.step, hw]
  exact looked r thread timeoutMs _

/-! ## No element without a waker -/

/-- The threads in `next_event` sleep or are woken; and what is queued is covered. -/
structure Sound (s : BusThreads) : Prop where
  threads : Monitor.Threads s.blocked s.woken (fun t => (s.run.waiting t).isSome = true)
  covered : Monitor.Covered s.monitor

/-- A state that is sound stays so when threads are put elsewhere, by a move. -/
theorem Sound.reorder {s' : BusThreads} (h : s.Sound) (hwaiting : s'.run.waiting = s.run.waiting)
    (hperm : (s'.blocked ++ s'.woken).Perm (s.blocked ++ s.woken)) (hm : Monitor.Move s.monitor s'.monitor) :
    s'.Sound where
  threads := (h.threads.perm hperm).congr fun t => by rw [hwaiting]
  covered := hm.covered h.covered

theorem Sound.wake (h : s.Sound) (thread : Nat) : (s.wake thread).Sound := by
  unfold BusThreads.wake
  split
  · rename_i ht
    exact h.reorder rfl (Monitor.perm_wake ht) (.stirs ht)
  · exact h

theorem Sound.notify (h : s.Sound) (thread : Nat) : (s.step (.notify thread)).Sound := by
  simp only [step]
  split
  · exact h
  rename_i hdue
  obtain ⟨n, hn⟩ := Nat.exists_eq_succ_of_ne_zero hdue
  split
  · rename_i hnone
    exact h.reorder rfl (List.Perm.refl _) (.notifiesNobody _ hnone)
  · rename_i first rest hblocked
    have hmem : (if thread ∈ s.blocked then thread else first) ∈ s.blocked := by
      split
      · assumption
      · rw [hblocked]
        exact List.mem_cons_self
    have hones : s.monitor.ones = s.due - 1 + 1 := by
      rw [hn]
      exact hn
    simp only [BusThreads.wake, if_pos hmem]
    exact h.reorder rfl (Monitor.perm_wake hmem) (.notifies hones hmem)

/-- **Behind its look a thread has a place**, or is gone. -/
theorem sound_settle {thread : Nat} {r : BusRun} (h : Monitor.Threads s.blocked s.woken
      (fun t => (s.run.waiting t).isSome = true ∧ t ≠ thread)) (hr : Looked s.run r thread)
    (hc : Monitor.Covered (({ s with run := r } : BusThreads).settle thread).monitor) :
    (({ s with run := r } : BusThreads).settle thread).Sound := by
  unfold BusThreads.settle at hc ⊢
  split
  · rename_i hwaits
    rw [if_pos hwaits] at hc
    refine ⟨h.sleeps (fun ht => ht.2 rfl) fun u => ?_, hc⟩
    by_cases hu : u = thread
    · rw [hu]
      exact ⟨fun _ => Or.inl rfl, fun _ => hwaits⟩
    · rw [hr.others u hu]
      exact ⟨fun hw => Or.inr ⟨hw, hu⟩, fun hw => (hw.resolve_left hu).1⟩
  · rename_i hgone
    rw [if_neg hgone] at hc
    refine ⟨h.congr fun u => ?_, hc⟩
    by_cases hu : u = thread
    · rw [hu]
      exact ⟨fun hw => absurd hw hgone, fun hw => absurd rfl hw.2⟩
    · rw [hr.others u hu]
      exact ⟨fun hw => ⟨hw, hu⟩, fun hw => hw.1⟩

/-- A thread that looks, and has been taken from the woken ones if it was one, leaves the queue covered. -/
theorem covered_settle {thread : Nat} {r : BusRun} {woken : List Nat} (hr : Looked s.run r thread)
    (htakes : 0 < s.monitor.avail →
      Monitor.Covered { s.monitor with avail := s.monitor.avail - 1, woken := woken }) :
    Monitor.Covered (({ s with run := r, woken := woken } : BusThreads).settle thread).monitor := by
  by_cases hq : s.run.bus.queue = []
  · have hempty := hr.empty hq
    refine Or.inr (Or.inl ?_)
    unfold BusThreads.settle
    split <;> simp [monitor, hempty]
  · obtain ⟨hgone, hlen, -⟩ := hr.found hq
    have havail : r.bus.queue.length = s.run.bus.queue.length - 1 := by omega
    rw [settle_of_none hgone, monitor, havail]
    exact htakes (List.length_pos_iff.2 hq)

/-- **A thread that comes** takes an event, or leaves, or sleeps. -/
theorem Sound.next (h : s.Sound) (thread : Nat) (timeoutMs : Int) : (s.step (.next thread timeoutMs)).Sound := by
  simp only [step]
  split
  · exact h
  rename_i hnew
  have hbut : Monitor.Threads s.blocked s.woken (fun t => (s.run.waiting t).isSome = true ∧ t ≠ thread) := by
    refine h.threads.congr fun t => ⟨fun ht => ht.1, fun ht => ⟨ht, ?_⟩⟩
    rintro rfl
    exact hnew ht
  have hcases := next_cases s.run thread timeoutMs (Bool.eq_false_iff.2 hnew)
  generalize s.run.step (.next thread timeoutMs) = r at hcases
  rcases hcases with ⟨hbus, hwaiting, -⟩ | hlooked
  · have hgone : r.waiting thread = none := by
      rw [hwaiting]
      exact Option.not_isSome_iff_eq_none.1 hnew
    rw [settle_of_none hgone]
    refine h.reorder hwaiting (List.Perm.refl _) ?_
    simp only [monitor, hbus]
    exact Monitor.Move.idle s.monitor
  · exact sound_settle hbut hlooked
      (covered_settle hlooked fun hpos => (Monitor.Move.takes hpos).covered h.covered)

/-- **A woken thread's look.** -/
theorem Sound.look (h : s.Sound) (thread : Nat) (timedOut : Bool) : (s.step (.look thread timedOut)).Sound := by
  simp only [step]
  split
  case isFalse => exact h
  rename_i hwoken
  have hlooked := wake_cases s.run thread timedOut ((h.threads.mem thread).2 (List.mem_append_right _ hwoken))
  generalize s.run.step (.wake thread timedOut) = r at hlooked
  have hcovered := covered_settle hlooked fun hpos =>
    (Monitor.Move.looksTakes (s := s.monitor) hwoken hpos).covered h.covered
  exact sound_settle (s := { s with woken := s.woken.erase thread }) (h.threads.leaves hwoken) hlooked hcovered

theorem length_emit (bus : EventBus) (event : NotificationHealthEvent) :
    (bus.emit event).queue.length ≤ bus.queue.length + 1 ∧ (bus.emit event).queue ≠ [] := by
  unfold EventBus.emit
  split
  · simp
  · simp

theorem length_emitRefused (bus : EventBus) : bus.emitRefused.queue.length ≤ bus.queue.length := by
  unfold EventBus.emitRefused
  split
  · simp
  · exact Nat.le_refl _

/-- **Every move keeps the threads and what covers the queue.** -/
theorem Sound.step (h : s.Sound) (m : BusMove) : (s.step m).Sound := by
  cases m with
  | emit event memory =>
    cases memory with
    | true =>
      refine h.reorder rfl (List.Perm.refl _) (.brings _ 1 0 (Or.inl ?_))
      exact (length_emit s.run.bus event).1
    | false =>
      refine h.reorder rfl (List.Perm.refl _) (.drops s.monitor ?_)
      exact length_emitRefused s.run.bus
  | notify thread => exact h.notify thread
  | next thread timeoutMs => exact h.next thread timeoutMs
  | stir thread => exact h.wake thread
  | look thread timedOut => exact h.look thread timedOut
  | clear => exact h.reorder rfl (List.Perm.refl _) (.drops s.monitor (Nat.zero_le _))

theorem sound_start : Sound {} where
  threads := Monitor.threads_nil fun _ => nofun
  covered := Or.inl rfl

theorem sound_run (moves : List BusMove) : (runBusThreads moves).Sound :=
  Run.run_invariant (fun _ m h => h.step m) moves _ sound_start

/-- The bus under the threads has a run of its own. -/
theorem step_run (s : BusThreads) (m : BusMove) : (s.step m).run = s.run ∨ ∃ turn, (s.step m).run = s.run.step turn := by
  cases m with
  | emit event memory => exact Or.inr ⟨.emit event memory, rfl⟩
  | notify thread =>
    left
    simp only [step]
    split
    · rfl
    · split
      · rfl
      · exact wake_run _ _
  | next thread timeoutMs =>
    simp only [step]
    split
    · exact Or.inl rfl
    · exact Or.inr ⟨.next thread timeoutMs, settle_run _ _⟩
  | stir thread => exact Or.inl (wake_run s thread)
  | look thread timedOut =>
    simp only [step]
    split
    · exact Or.inr ⟨.wake thread timedOut, settle_run _ _⟩
    · exact Or.inl rfl
  | clear => exact Or.inr ⟨.clear, rfl⟩

theorem runBusThreads_run (moves : List BusMove) : ∃ turns, (runBusThreads moves).run = runBus turns := by
  induction moves using List.reverseRecOn with
  | nil => exact ⟨[], rfl⟩
  | append_singleton moves m ih =>
    obtain ⟨turns, hturns⟩ := ih
    rw [runBusThreads, Run.run_concat, ← runBusThreads]
    rcases step_run (runBusThreads moves) m with h | ⟨turn, h⟩
    · exact ⟨turns, h.trans hturns⟩
    · exact ⟨turns ++ [turn], by rw [h, hturns, runBus_concat]⟩

/-! ## What is queued is taken -/

/-- The bus, seen through its condition variable. -/
def view : Monitor.View BusThreads BusMove Nat where
  monitor := monitor
  taken := delivered
  notifies m := ∃ t, m = .notify t
  looks m t := ∃ b, m = .look t b

theorem length_wake (s : BusThreads) (thread : Nat) : s.woken.length ≤ (s.wake thread).woken.length := by
  unfold BusThreads.wake
  split
  · simp
  · exact Nat.le_refl _

theorem perm_wake_all (s : BusThreads) (thread : Nat) :
    ((s.wake thread).blocked ++ (s.wake thread).woken).Perm (s.blocked ++ s.woken) := by
  unfold BusThreads.wake
  split
  · rename_i ht
    exact Monitor.perm_wake ht
  · exact List.Perm.refl _

theorem served_of_look {r : BusRun} {thread : Nat} {n : Nat} {s' : BusThreads} (h : view.Waiting n s)
    (hr : Looked s.run r thread) (hs' : s'.run = r) : view.Served n s' := by
  obtain ⟨-, -, e, hresults⟩ := hr.found (List.length_pos_iff.1 h.avail)
  refine Or.inl ?_
  rw [← h.taken]
  simp only [view, BusThreads.delivered, hs', hresults, List.countP_append]
  simp

/-- A notification that is due wakes a thread that sleeps, if one does. -/
theorem notify_cases (s : BusThreads) (thread : Nat) :
    s.step (.notify thread) = s ∧ s.due = 0 ∨
    s.step (.notify thread) = { s with due := s.due - 1 } ∧ s.blocked = [] ∨
    ∃ t ∈ s.blocked, s.step (.notify thread) = ({ s with due := s.due - 1 } : BusThreads).wake t := by
  simp only [step]
  split
  · rename_i hdue
    exact Or.inl ⟨rfl, hdue⟩
  · split
    · rename_i hnone
      exact Or.inr (Or.inl ⟨rfl, hnone⟩)
    · rename_i first rest hblocked
      refine Or.inr (Or.inr ⟨_, ?_, rfl⟩)
      split
      · assumption
      · rw [hblocked]
        exact List.mem_cons_self

theorem delivered_refused {r : BusRun} {thread : Nat} {what : String} {s' : BusThreads}
    (hr : r.results = s.run.results ++ [(thread, .threw what)]) (hs' : s'.run = r) : s'.delivered = s.delivered := by
  rw [BusThreads.delivered, BusThreads.delivered, hs', hr, List.countP_append]
  simp

/-- A move that is neither a notification nor a look is not the one that is wanted. -/
theorem not_helps {m : BusMove} (hn : ∀ t, m ≠ .notify t) (hl : ∀ t b, m ≠ .look t b) : ¬ view.Helps s m := by
  rintro (⟨-, -, t, ht⟩ | ⟨t, -, b, ht⟩)
  · exact hn t ht
  · exact hl t b ht

theorem goesOn_next {n : Nat} (h : view.Waiting n s) (thread : Nat) (timeoutMs : Int) :
    view.GoesOn n s (s.step (.next thread timeoutMs)) (.next thread timeoutMs) := by
  have hidle : ¬ view.Helps s (.next thread timeoutMs) := not_helps nofun nofun
  simp only [BusThreads.step]
  by_cases hw : (s.run.waiting thread).isSome = true
  · rw [if_pos hw]
    exact .of_same h rfl rfl hidle
  rw [if_neg hw]
  rcases next_cases s.run thread timeoutMs (Bool.eq_false_iff.2 hw) with ⟨hbus, hwaiting, what, hresults⟩ | hlooked
  · generalize s.run.step (.next thread timeoutMs) = r at hbus hwaiting hresults
    have hgone : r.waiting thread = none := by
      rw [hwaiting]
      exact Option.not_isSome_iff_eq_none.1 hw
    rw [settle_of_none hgone]
    refine .of_same h ?_ (delivered_refused hresults rfl) hidle
    simp only [view, monitor, hbus]
  · exact Or.inl (served_of_look h hlooked (settle_run _ _))

theorem goesOn_notify {n : Nat} (h : view.Waiting n s) (thread : Nat) :
    view.GoesOn n s (s.step (.notify thread)) (.notify thread) := by
  have hwants : view.Helps s (.notify thread) → s.woken = [] ∧ 0 < s.due := by
    rintro (⟨hnone, hdue, -⟩ | ⟨t, -, b, ht⟩)
    · exact ⟨hnone, hdue⟩
    · cases ht
  rcases notify_cases s thread with ⟨hs, hdue⟩ | ⟨hs, hnone⟩ | ⟨t, ht, hs⟩
  · rw [hs]
    exact .of_same h rfl rfl fun hh => absurd (hwants hh).2 (by omega)
  · rw [hs]
    refine .of_perm h rfl (List.Perm.refl _) id fun hh => ?_
    exact absurd (by simp only [view, monitor, hnone, (hwants hh).1, List.append_nil]) h.waits
  · rw [hs]
    have hwoken : (({ s with due := s.due - 1 } : BusThreads).wake t).woken ≠ [] := by
      rw [BusThreads.wake, if_pos ht]
      exact List.concat_ne_nil t s.woken
    refine .of_perm h ?_ (perm_wake_all _ t) (fun hnone => absurd hnone hwoken) fun hh => ⟨(hwants hh).1, hwoken⟩
    simp only [view, BusThreads.delivered, wake_run]

theorem goesOn_look {n : Nat} (hs : s.Sound) (h : view.Waiting n s) (thread : Nat) (timedOut : Bool) :
    view.GoesOn n s (s.step (.look thread timedOut)) (.look thread timedOut) := by
  by_cases hwoken : thread ∈ s.woken
  · have hlooked := wake_cases s.run thread timedOut ((hs.threads.mem thread).2 (List.mem_append_right _ hwoken))
    refine Or.inl (served_of_look h hlooked ?_)
    rw [BusThreads.step, if_pos hwoken, settle_run]
  · rw [BusThreads.step, if_neg hwoken]
    refine .of_same h rfl rfl ?_
    rintro (⟨-, -, t, ht⟩ | ⟨t, hmem, b, ht⟩)
    · cases ht
    · cases ht
      exact absurd hmem hwoken

/-- **A move of a schedule**: the threads that wait go on, or one is served. -/
theorem goesOn_step {n : Nat} (m : BusMove) (hs : s.Sound) (h : view.Waiting n s) : view.GoesOn n s (s.step m) m := by
  cases m with
  | emit event memory =>
    refine .of_perm h ?_ (List.Perm.refl _) id fun hh => absurd hh (not_helps nofun nofun)
    cases memory <;> rfl
  | clear => exact Or.inl (Or.inr rfl)
  | stir thread =>
    refine .of_perm h ?_ (perm_wake_all s thread) (fun hnone => ?_) fun hh => absurd hh (not_helps nofun nofun)
    · simp only [view, BusThreads.delivered, BusThreads.step, wake_run]
    · have hle := length_wake s thread
      rw [show (s.wake thread).woken = [] from hnone] at hle
      exact List.length_eq_zero_iff.1 (Nat.le_zero.1 hle)
  | next thread timeoutMs => exact goesOn_next h thread timeoutMs
  | notify thread => exact goesOn_notify h thread
  | look thread timedOut => exact goesOn_look hs h thread timedOut

end BusThreads

/-- **No lost wakeup on the bus.**  Whoever emits, calls `next_event` and clears, in what order, and whichever threads
wake: where a thread sleeps, what is queued is covered by woken threads that will look and by notifications that are due.
On a schedule that lets both go on, if events are queued and a thread is in `next_event`, then sooner or later an event
is returned to one, or the queue is empty. -/
theorem no_lost_wakeup :
    (∀ moves, (∃ turns, (runBusThreads moves).run = runBus turns) ∧ ((runBusThreads moves).blocked ≠ [] →
      (runBusThreads moves).run.bus.queue.length ≤ (runBusThreads moves).woken.length + (runBusThreads moves).due)) ∧
    ∀ moves, BusThreads.view.Fair BusThreads.step {} moves → ∀ n, (after BusThreads.step {} moves n).run.bus.queue ≠ [] →
      (∃ t, ((after BusThreads.step {} moves n).run.waiting t).isSome = true) →
        ∃ m, n ≤ m ∧ ((after BusThreads.step {} moves n).delivered < (after BusThreads.step {} moves m).delivered ∨
          (after BusThreads.step {} moves m).run.bus.queue = []) := by
  refine ⟨fun moves => ⟨BusThreads.runBusThreads_run moves, fun hblocked => ?_⟩, fun moves hfair n hqueue hwaits => ?_⟩
  · rcases (BusThreads.sound_run moves).covered with h | h | h
    · exact absurd h hblocked
    · exact h
    · exact absurd h (Nat.lt_irrefl 0)
  · have hsound : (after BusThreads.step {} moves n).Sound := BusThreads.sound_run _
    obtain ⟨t, ht⟩ := hwaits
    have hwaiting : BusThreads.view.Waiting (after BusThreads.step {} moves n).delivered
        (after BusThreads.step {} moves n) :=
      ⟨List.length_pos_iff.2 hqueue, List.ne_nil_of_mem ((hsound.threads.mem t).1 ht), rfl⟩
    have hleads := Monitor.View.leads (I := BusThreads.Sound) (fun _ m h => h.step m) (fun _ h => h.covered)
      (after BusThreads.step {} moves n).delivered (fun _ m => BusThreads.goesOn_step m) hfair
    obtain ⟨m, hm, hserved⟩ := hleads n ⟨hsound, hwaiting⟩
    exact ⟨m, hm, hserved.imp id List.length_eq_zero_iff.1⟩

/-- A thread sleeps, an event comes, and the thread is notified and looks. -/
def oneSleeper : Nat → BusMove
  | 0 => .next 1 (-1)
  | 1 => .emit { type := .malformedNotification, message := "" } true
  | 2 => .notify 1
  | 3 => .look 1 false
  | _ => .clear

theorem oneSleeper_fair : BusThreads.view.Fair BusThreads.step {} oneSleeper := by
  have hend : ∀ n, (after BusThreads.step {} oneSleeper (n + 4)).due = 0 ∧
      (after BusThreads.step {} oneSleeper (n + 4)).woken = [] := by
    intro n
    induction n with
    | zero => exact ⟨rfl, rfl⟩
    | succ n ih =>
      rw [show n + 1 + 4 = (n + 4) + 1 from rfl, LeadsTo.after_succ]
      exact ih
  constructor
  · intro n hdue
    rcases n with _ | _ | _ | _ | n
    · cases hdue
    · cases hdue
    · exact ⟨2, Nat.le_refl _, hdue, 1, rfl⟩
    · cases hdue
    · have hnone := (hend n).1
      simp [BusThreads.view, BusThreads.monitor, hnone] at hdue
  · intro n hwoken
    rcases n with _ | _ | _ | _ | n
    · exact absurd rfl hwoken
    · exact absurd rfl hwoken
    · exact absurd rfl hwoken
    · exact ⟨3, Nat.le_refl _, 1, by decide, false, rfl⟩
    · exact absurd (hend n).2 hwoken

theorem no_lost_wakeup_oneSleeper : ∃ m, 2 ≤ m ∧
    ((after BusThreads.step {} oneSleeper 2).delivered < (after BusThreads.step {} oneSleeper m).delivered ∨
      (after BusThreads.step {} oneSleeper m).run.bus.queue = []) :=
  no_lost_wakeup.2 oneSleeper oneSleeper_fair 2 (by decide) ⟨1, by decide⟩

end PyNetX
