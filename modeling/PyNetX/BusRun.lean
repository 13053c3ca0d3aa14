import PyNetX.Lib.Evicting
import PyNetX.EventBus
/-!
# BusRun — the bus of health events over whole runs

Any number of threads emit, call `next_event` with any timeout and clear, one section under `mtx_` after another.  The
bus refines a queue that evicts its oldest element (`runBus_evicting`), what an event says of its client being the
element; `bus_run_exact` adds the counter that the deliveries carry.
-/
namespace PyNetX

open Run (run)
open Evicting (Exit)

/-- What a call of `next_event` came to. -/
inductive NextEnd where
  | event (e : NotificationHealthEvent)
  | timeout (e : TimeoutEvent)
  | threw (what : String)

/-- The bus and the threads in `next_event`, each with its `timeout_ms`; since the last clearing, the events emitted and
how events left the queue; and what the calls came to. -/
structure BusRun where
  bus : EventBus := {}
  waiting : Nat → Option Int := fun _ => none
  emitted : List NotificationHealthEvent := []
  exits : List (Exit NotificationHealthEvent) := []
  results : List (Nat × NextEnd) := []

/-- A section under `mtx_`: `emit`, with memory for its `push_back` or without; `next_event` from its beginning to its
end or to its wait; the end of a wait, by a notification, for no reason or by the timeout; and `clear`. -/
inductive BusTurn where
  | emit (event : NotificationHealthEvent) (memory : Bool)
  | next (thread : Nat) (timeoutMs : Int)
  | wake (thread : Nat) (timedOut : Bool)
  | clear

namespace BusRun

def evicts (s : BusRun) : List (Exit NotificationHealthEvent) :=
  if EventBus.maxQueueSize ≤ s.bus.queue.length then (s.bus.queue.head?.map .evicted).toList else []

/-- A look at the queue, its last one if `isLast`. -/
def look (s : BusRun) (thread : Nat) (timeoutMs : Int) (isLast : Bool) : BusRun :=
  match s.bus.deliver with
  | some (event, bus) =>
    { s with
      bus := bus
      waiting := Function.update s.waiting thread none
      exits := s.exits ++ [.taken event]
      results := s.results ++ [(thread, .event event)] }
  | none =>
    if isLast then
      { s with
        waiting := Function.update s.waiting thread none
        results := s.results ++ [(thread, .timeout { healthEventsDropped := s.bus.droppedEvents })] }
    else { s with waiting := Function.update s.waiting thread (some timeoutMs) }

def step (s : BusRun) : BusTurn → BusRun
  | .emit event true =>
    { s with bus := s.bus.emit event, emitted := s.emitted ++ [event], exits := s.exits ++ s.evicts }
  | .emit _ false => { s with bus := s.bus.emitRefused, exits := s.exits ++ s.evicts }
  | .next thread timeoutMs =>
    if (s.waiting thread).isSome then s
    else if timeoutMs < -1 then
      { s with results := s.results ++ [(thread, .threw "timeout_ms must be -1 for infinite wait or >= 0")] }
    else s.look thread timeoutMs (timeoutMs = 0)
  | .wake thread timedOut =>
    match s.waiting thread with
    | none => s
    | some timeoutMs => s.look thread timeoutMs (timedOut && 0 ≤ timeoutMs)
  | .clear => { s with bus := s.bus.clear, emitted := [], exits := [] }

end BusRun

def runBus (turns : List BusTurn) : BusRun := run BusRun.step {} turns

theorem runBus_concat (turns : List BusTurn) (turn : BusTurn) :
    runBus (turns ++ [turn]) = (runBus turns).step turn := Run.run_concat turns turn

/-! ## The bus is a queue that evicts -/

/-- What an event says of its client: all of it but the bus's counter. -/
def NotificationHealthEvent.told (e : NotificationHealthEvent) : NotificationHealthEvent :=
  { e with healthEventsDropped := 0 }

@[simp] theorem NotificationHealthEvent.told_counted (e : NotificationHealthEvent) (n : Int) :
    NotificationHealthEvent.told { e with healthEventsDropped := n } = e.told := rfl

/-- What the abstract queue knows of a run. -/
def BusRun.evicting (s : BusRun) : Evicting.State NotificationHealthEvent where
  contents := s.bus.queue.map (·.told)
  offered := s.emitted.map (·.told)
  exits := s.exits.map (Exit.map (·.told))

namespace BusRun

variable {s : BusRun}

/-- What a turn asks of the abstract queue. -/
def op (s : BusRun) : BusTurn → Evicting.Op NotificationHealthEvent
  | .emit event true => .offer event.told
  | .emit _ false => .refused
  | .next thread timeoutMs => if (s.waiting thread).isSome ∨ timeoutMs < -1 then .skip else .take
  | .wake thread _ => if (s.waiting thread).isSome then .take else .skip
  | .clear => .clear

theorem evicting_look (thread : Nat) (timeoutMs : Int) (isLast : Bool) :
    (s.look thread timeoutMs isLast).evicting = Evicting.step EventBus.maxQueueSize s.evicting .take := by
  unfold look EventBus.deliver
  cases hq : s.bus.queue with
  | nil => cases isLast <;> simp [evicting, Evicting.step, hq]
  | cons e es => simp [evicting, Evicting.step, hq, Exit.map]

theorem evicting_makeRoom : s.evicting.makeRoom EventBus.maxQueueSize =
    { s.evicting with
      contents := if EventBus.maxQueueSize ≤ s.bus.queue.length then s.evicting.contents.tail else s.evicting.contents
      exits := (s.exits ++ s.evicts).map (Exit.map (·.told)) } := by
  unfold Evicting.State.makeRoom evicts
  cases hq : s.bus.queue with
  | nil => simp [evicting, hq]
  | cons e es =>
    simp only [evicting, hq, List.map_cons, List.length_cons, List.length_map, List.tail_cons]
    split <;> simp [Exit.map]

theorem evicting_step (s : BusRun) (turn : BusTurn) :
    (s.step turn).evicting = Evicting.step EventBus.maxQueueSize s.evicting (s.op turn) := by
  cases turn with
  | emit event memory =>
    cases memory with
    | true =>
      simp only [op, Evicting.step]
      rw [evicting_makeRoom]
      simp only [step, evicting, EventBus.emit]
      split <;> simp
    | false =>
      simp only [op, Evicting.step]
      rw [evicting_makeRoom]
      simp only [step, evicting, EventBus.emitRefused]
      split <;> simp
  | next thread timeoutMs =>
    simp only [op, step]
    split
    · rename_i hw
      rw [if_pos (Or.inl hw)]
      rfl
    split
    · rename_i hw ht
      rw [if_pos (Or.inr ht)]
      rfl
    · rename_i hw ht
      rw [if_neg (not_or.2 ⟨hw, ht⟩)]
      exact evicting_look thread timeoutMs _
  | wake thread timedOut =>
    simp only [op, step]
    split
    · rename_i hw
      rw [hw]
      rfl
    · rename_i timeoutMs hw
      rw [hw]
      exact evicting_look thread timeoutMs _
  | clear => rfl

end BusRun

/-- **Over every run the bus is a queue that evicts**, its bound `max_queue_size_`. -/
theorem runBus_evicting (turns : List BusTurn) :
    ∃ ops, (runBus turns).evicting = run (Evicting.step EventBus.maxQueueSize) {} ops := by
  induction turns using List.reverseRecOn with
  | nil => exact ⟨[], rfl⟩
  | append_singleton turns turn ih =>
    obtain ⟨ops, hops⟩ := ih
    refine ⟨ops ++ [(runBus turns).op turn], ?_⟩
    rw [Run.run_concat, ← hops, runBus_concat]
    exact BusRun.evicting_step _ turn

/-! ## What the bus counts -/

namespace BusRun

variable {s : BusRun}

/-- **What a turn does**: an emit, a delivery, a look at an empty queue, a call that goes no further, or a clearing. -/
inductive Move (s : BusRun) : BusTurn → BusRun → Prop where
  | emitted {event : NotificationHealthEvent} {memory : Bool} {s' : BusRun} (hexits : s'.exits = s.exits ++ s.evicts)
      (hresults : s'.results = s.results)
      (hdropped : s'.bus.droppedEvents = s.bus.droppedEvents + s.evicts.countP Exit.isEvicted) :
      Move s (.emit event memory) s'
  | delivered {turn : BusTurn} {thread : Nat} {e event : NotificationHealthEvent} {bus : EventBus} {s' : BusRun}
      (hbus : s.bus.deliver = some (event, bus)) (hbus' : s'.bus = bus)
      (hexits : s'.exits = s.exits ++ [.taken event])
      (hresults : s'.results = s.results ++ [(thread, .event event)]) : Move s turn s'
  | kept {turn : BusTurn} {s' : BusRun} (hbus : s'.bus = s.bus) (hemitted : s'.emitted = s.emitted)
      (hexits : s'.exits = s.exits) (hresults : s'.results = s.results ∨
        ∃ thread r, s'.results = s.results ++ [(thread, r)] ∧ (∀ event, r ≠ .event event) ∧
          ∀ e, r = .timeout e → s.bus.queue = []) : Move s turn s'
  | cleared : Move s .clear { s with bus := {}, emitted := [], exits := [] }

theorem look_move (turn : BusTurn) (thread : Nat) (timeoutMs : Int) (isLast : Bool) :
    Move s turn (s.look thread timeoutMs isLast) := by
  unfold look
  cases hd : s.bus.deliver with
  | some p => exact .delivered (e := p.1) hd rfl rfl rfl
  | none =>
    have hq : s.bus.queue = [] := by
      unfold EventBus.deliver at hd
      split at hd
      · assumption
      · cases hd
    cases isLast with
    | true => exact .kept rfl rfl rfl (Or.inr ⟨thread, _, rfl, fun _ => nofun, fun _ _ => hq⟩)
    | false => exact .kept rfl rfl rfl (Or.inl rfl)

/-- What is evicted is the oldest event of a queue at its bound. -/
theorem evicts_cases (s : BusRun) : s.evicts = [] ∧ s.bus.queue.length < EventBus.maxQueueSize ∨
    ∃ event, s.evicts = [.evicted event] ∧ EventBus.maxQueueSize ≤ s.bus.queue.length ∧
      s.bus.queue.head? = some event := by
  unfold evicts
  split
  · rename_i hle
    cases hq : s.bus.queue with
    | nil =>
      rw [hq] at hle
      exact absurd hle (by decide)
    | cons e es => exact Or.inr ⟨e, rfl, by rwa [hq] at hle, rfl⟩
  · rename_i hlt
    exact Or.inl ⟨rfl, Nat.lt_of_not_le hlt⟩

theorem dropped_emit (s : BusRun) : (if EventBus.maxQueueSize ≤ s.bus.queue.length then s.bus.droppedEvents + 1
    else s.bus.droppedEvents) = s.bus.droppedEvents + s.evicts.countP Exit.isEvicted := by
  obtain ⟨he, hlt⟩ | ⟨event, he, hle, -⟩ := s.evicts_cases
  · rw [if_neg (Nat.not_le_of_lt hlt), he]
    rfl
  · rw [if_pos hle, he]
    rfl

theorem step_move (s : BusRun) (turn : BusTurn) : Move s turn (s.step turn) := by
  cases turn with
  | emit event memory =>
    cases memory with
    | true =>
      refine .emitted rfl rfl ?_
      rw [← dropped_emit]
      simp only [step, EventBus.emit]
      split <;> rfl
    | false =>
      refine .emitted rfl rfl ?_
      rw [← dropped_emit]
      simp only [step, EventBus.emitRefused]
      split <;> rfl
  | next thread timeoutMs =>
    simp only [step]
    split
    · exact .kept rfl rfl rfl (Or.inl rfl)
    split
    · exact .kept rfl rfl rfl (Or.inr ⟨thread, _, rfl, fun _ => nofun, fun _ => nofun⟩)
    · exact look_move _ thread timeoutMs _
  | wake thread timedOut =>
    simp only [step]
    split
    · exact .kept rfl rfl rfl (Or.inl rfl)
    · exact look_move _ thread _ _
  | clear => exact .cleared

/-- Every event that was delivered carries how many were evicted by then. -/
def Carried (exits : List (Exit NotificationHealthEvent)) : Prop :=
  ∀ (pre : List (Exit NotificationHealthEvent)) (event : NotificationHealthEvent)
    (post : List (Exit NotificationHealthEvent)), exits = pre ++ .taken event :: post →
      event.healthEventsDropped = (pre.countP Exit.isEvicted : Nat)

theorem Carried.concat {exits : List (Exit NotificationHealthEvent)} (h : Carried exits)
    {x : Exit NotificationHealthEvent}
    (hx : ∀ event, x = .taken event → event.healthEventsDropped = (exits.countP Exit.isEvicted : Nat)) :
    Carried (exits ++ [x]) := by
  intro pre event post hsplit
  obtain ⟨rfl, hlast, -⟩ | ⟨post', -, hfront⟩ := Run.split_concat hsplit
  · exact hx event hlast.symm
  · exact h pre event post' hfront

/-- The counter counts the evictions, and the deliveries carry it. -/
structure Counts (s : BusRun) : Prop where
  dropped : s.bus.droppedEvents = s.exits.countP Exit.isEvicted
  carried : Carried s.exits

theorem Counts.step (h : s.Counts) (turn : BusTurn) : (s.step turn).Counts := by
  have hm := s.step_move turn
  generalize s.step turn = s' at hm ⊢
  cases hm with
  | emitted hexits _ hdropped =>
    refine ⟨by rw [hdropped, hexits, h.dropped, List.countP_append], ?_⟩
    rw [hexits]
    obtain ⟨he, -⟩ | ⟨event, he, -, -⟩ := s.evicts_cases
    · rw [he, List.append_nil]
      exact h.carried
    · rw [he]
      exact h.carried.concat (fun _ => nofun)
  | @delivered _ _ e event bus _ hbus hbus' hexits _ =>
    unfold EventBus.deliver at hbus
    split at hbus
    · cases hbus
    cases hbus
    refine ⟨?_, ?_⟩
    · rw [hbus', hexits, List.countP_append]
      exact h.dropped
    · rw [hexits]
      refine h.carried.concat (fun event' he => ?_)
      cases he
      exact congrArg Nat.cast h.dropped
  | kept hbus _ hexits _ => exact ⟨by rw [hbus, hexits, h.dropped], by rw [hexits]; exact h.carried⟩
  | cleared => exact ⟨rfl, fun pre event post hsplit => by cases pre <;> cases hsplit⟩

end BusRun

theorem runBus_counts (turns : List BusTurn) : (runBus turns).Counts :=
  Run.run_invariant (I := BusRun.Counts) (fun _ turn h => h.step turn) turns {}
    ⟨rfl, fun pre event post hsplit => by cases pre <;> cases hsplit⟩

/-- **The bus since its last clearing**: what left it, in order, and what it holds is what was emitted, but for the
counter; it is within its bound; the counter counts the evictions, and a delivered event carries it. -/
structure BusExact (s : BusRun) : Prop where
  history : s.emitted.map (·.told) = (s.exits.map Exit.value).map (·.told) ++ s.bus.queue.map (·.told)
  bounded : s.bus.queue.length ≤ EventBus.maxQueueSize
  dropped : s.bus.droppedEvents = s.exits.countP Exit.isEvicted
  delivered : BusRun.Carried s.exits

/-- What a turn from `s` to `s'` may do: one event at most leaves the queue, evicted from the front of a full one by an
emit or returned by a call; and a call that times out has found the queue empty and changed nothing. -/
structure TurnExact (s : BusRun) (turn : BusTurn) (s' : BusRun) : Prop where
  exits : turn = .clear ∨ s'.exits = s.exits ∨ ∃ x, s'.exits = s.exits ++ [x]
  evicts : ∀ event, s'.exits = s.exits ++ [.evicted event] → (∃ e memory, turn = .emit e memory) ∧
    s.bus.queue.length = EventBus.maxQueueSize ∧ s.bus.queue.head? = some event
  delivers : ∀ event, s'.exits = s.exits ++ [.taken event] ↔
    ∃ thread, s'.results = s.results ++ [(thread, .event event)]
  timeouts : ∀ thread e, s'.results = s.results ++ [(thread, .timeout e)] → s.bus.queue = [] ∧ s'.bus = s.bus ∧
    s'.emitted = s.emitted ∧ s'.exits = s.exits

theorem append_ne_self {α : Type} (l : List α) (x : α) : l ≠ l ++ [x] := fun h =>
  List.cons_ne_nil x [] (List.self_eq_append_right.1 h)

theorem BusRun.turnExact {s : BusRun} (h : s.bus.queue.length ≤ EventBus.maxQueueSize) (turn : BusTurn) :
    TurnExact s turn (s.step turn) := by
  have hm := s.step_move turn
  generalize s.step turn = s' at hm ⊢
  cases hm with
  | @emitted e memory _ hexits hresults hdropped =>
    have hnone : ∀ thread r, s'.results ≠ s.results ++ [(thread, r)] := fun thread r => by
      rw [hresults]
      exact append_ne_self _ _
    obtain ⟨he, -⟩ | ⟨event, he, hle, hhead⟩ := s.evicts_cases
    · rw [he, List.append_nil] at hexits
      refine ⟨Or.inr (Or.inl hexits), fun event h' => ?_, fun event => ?_, fun thread e h' => absurd h' (hnone _ _)⟩
      · exact absurd (hexits.symm.trans h') (append_ne_self _ _)
      · exact ⟨fun h' => absurd (hexits.symm.trans h') (append_ne_self _ _), fun ⟨_, h'⟩ => absurd h' (hnone _ _)⟩
    · rw [he] at hexits
      refine ⟨Or.inr (Or.inr ⟨_, hexits⟩), fun event' h' => ?_, fun event' => ?_, fun thread e h' => absurd h' (hnone _ _)⟩
      · cases List.append_cancel_left (hexits.symm.trans h')
        exact ⟨⟨e, memory, rfl⟩, Nat.le_antisymm h hle, hhead⟩
      · refine ⟨fun h' => ?_, fun ⟨_, h'⟩ => absurd h' (hnone _ _)⟩
        cases List.append_cancel_left (hexits.symm.trans h')
  | delivered hbus hbus' hexits hresults =>
    refine ⟨Or.inr (Or.inr ⟨_, hexits⟩), fun event' h' => ?_, fun event' => ?_, fun thread e h' => ?_⟩
    · cases List.append_cancel_left (hexits.symm.trans h')
    · constructor
      · intro h'
        cases List.append_cancel_left (hexits.symm.trans h')
        exact ⟨_, hresults⟩
      · rintro ⟨thread, h'⟩
        cases List.append_cancel_left (hresults.symm.trans h')
        exact hexits
    · cases List.append_cancel_left (hresults.symm.trans h')
  | kept hbus hemitted hexits hresults =>
    refine ⟨Or.inr (Or.inl hexits), fun event h' => absurd (hexits.symm.trans h') (append_ne_self _ _),
      fun event => ⟨fun h' => absurd (hexits.symm.trans h') (append_ne_self _ _), ?_⟩, fun thread e h' => ?_⟩
    · rintro ⟨thread, h'⟩
      rcases hresults with hr | ⟨_, r, hr, hne, -⟩
      · exact absurd (hr.symm.trans h') (append_ne_self _ _)
      · cases List.append_cancel_left (hr.symm.trans h')
        exact absurd rfl (hne event)
    · rcases hresults with hr | ⟨_, r, hr, -, hq⟩
      · exact absurd (hr.symm.trans h') (append_ne_self _ _)
      · cases List.append_cancel_left (hr.symm.trans h')
        exact ⟨hq e rfl, hbus, hemitted, hexits⟩
  | cleared =>
    refine ⟨Or.inl rfl, fun event h' => ?_, fun event => ⟨fun h' => ?_, fun ⟨_, h'⟩ => ?_⟩, fun thread e h' => ?_⟩
    · simp at h'
    · simp at h'
    · exact absurd h' (append_ne_self _ _)
    · exact absurd h' (append_ne_self _ _)

/-- **The bus is first in, first out and loses nothing but what it evicts and counts**: for any emits, calls of
`next_event` and clearings by any threads, and whatever the next turn is. -/
theorem bus_run_exact (turns : List BusTurn) :
    BusExact (runBus turns) ∧ ∀ turn, TurnExact (runBus turns) turn (runBus (turns ++ [turn])) := by
  have hcounts := runBus_counts turns
  obtain ⟨ops, hops⟩ := runBus_evicting turns
  have hhistory := @Evicting.run_history _ EventBus.maxQueueSize ops
  have hbounded := @Evicting.run_bounded _ EventBus.maxQueueSize (by decide) ops
  rw [← hops] at hhistory hbounded
  simp only [BusRun.evicting, List.length_map] at hbounded
  refine ⟨⟨?_, hbounded, hcounts.dropped, hcounts.carried⟩, fun turn => ?_⟩
  · simpa [Evicting.State.History, BusRun.evicting, Function.comp_def] using hhistory
  · rw [runBus_concat]
    exact BusRun.turnExact hbounded turn

end PyNetX
