import PyNetX.EventBus
import PyNetX.FullState
/-!
# EventOrder — the order in which a client's health events reach the bus

A section under `_notif_queue_mtx` makes events, and its thread emits them after it has released the mutex, one section
under the bus's mutex each.  Between the two another thread may run a section of its own and emit first.
-/
namespace PyNetX

open Run (run Along)

/-- A client's queue, its events that are made and not emitted yet, oldest first and each with the thread that will
emit it, the bus, and what was put on the bus for this client. -/
structure HealthRun where
  client : ClientRun := {}
  pending : List (Nat × NotificationHealthEvent) := []
  bus : EventBus := {}
  emitted : List NotificationHealthEvent := []

/-- What a thread does next: the sections `ops` under one hold of `_notif_queue_mtx`, an emit, or an emit on behalf of
another client. -/
inductive HealthTurn where
  | locked (thread : Nat) (ops : List QueueOp)
  | emit (thread : Nat)
  | otherClient (event : NotificationHealthEvent)

/-- A thread emits all its events before its next section. -/
def HealthTurn.step (cfg : ClientConfig) (s : HealthRun) : HealthTurn → HealthRun
  | .locked thread ops =>
    if s.pending.any (fun x => x.1 = thread) then s
    else
      let client := run (QueueOp.step cfg) s.client ops
      let made := client.events.drop s.client.events.length
      { s with client := client, pending := s.pending ++ made.map (fun event => (thread, event)) }
  | .emit thread =>
    match s.pending.find? (fun x => x.1 = thread) with
    | none => s
    | some (_, event) =>
      { s with
        pending := s.pending.eraseP (fun x => x.1 = thread)
        bus := s.bus.emit event
        emitted := s.emitted ++ [event] }
  | .otherClient event => { s with bus := s.bus.emit event }

def runHealth (cfg : ClientConfig) (turns : List HealthTurn) : HealthRun := run (HealthTurn.step cfg) {} turns

/-- What an event tells of the queue's being full, to one who holds it to be `full`; an event that does not fit is
`none`. -/
def announce (full : Bool) : HealthEventType → Option Bool
  | .notificationQueueFull => if full then none else some true
  | .notificationDropsSummary => if full then some true else none
  | .notificationQueueRecovered => if full then some false else none
  | .malformedNotification | .incompleteNotification => some full

/-- What a sequence of events tells. -/
def announced (full : Bool) (events : List NotificationHealthEvent) : Option Bool :=
  events.foldlM (fun full event => announce full event.type) full

/-- **The client's events on the bus are consistent with its queue**: full and recovered alternate, full comes first,
summaries come between a full and the next recovered; and when all are emitted the last one agrees with the flag. -/
def EventsConsistent (s : HealthRun) : Prop :=
  (announced false s.emitted).isSome = true ∧
    (s.pending = [] → announced false s.emitted = some s.client.queue.fullState)

def NotificationHealthEvent.announces (event : NotificationHealthEvent) : Bool :=
  match event.type with
  | .notificationQueueFull | .notificationDropsSummary | .notificationQueueRecovered => true
  | .malformedNotification | .incompleteNotification => false

/-- No session clears the queue, and none dies. -/
def KeepsQueue : HealthTurn → Prop
  | .locked _ ops => ∀ op ∈ ops, op ≠ .clear ∧ op ≠ .markDead
  | _ => True

/-- Of the pending events that announce, an emit takes the oldest. -/
def EmitsOldest (s : HealthRun) : HealthTurn → Prop
  | .emit thread => ∀ x, s.pending.find? (fun x => x.1 = thread) = some x → x.2.announces = true →
      s.pending.find? (fun x => x.2.announces) = some x
  | _ => True

variable {cfg : ClientConfig} {c : ClientRun} {s : HealthRun}

/-! ## The events as they are made -/

theorem announced_append (full : Bool) (es es' : List NotificationHealthEvent) :
    announced full (es ++ es') = (announced full es).bind (fun full' => announced full' es') :=
  List.foldlM_append

theorem announced_cons (full : Bool) (e : NotificationHealthEvent) (es : List NotificationHealthEvent) :
    announced full (e :: es) = (announce full e.type).bind (fun full' => announced full' es) := rfl

theorem announced_singleton (full : Bool) (e : NotificationHealthEvent) : announced full [e] = announce full e.type := by
  simp [announced]

theorem announce_neutral {e : NotificationHealthEvent} (h : e.announces = false) (full : Bool) :
    announce full e.type = some full := by
  unfold NotificationHealthEvent.announces at h
  cases ht : e.type <;> simp [ht] at h <;> rfl

/-- **The events of a section say what it does to the flag.** -/
theorem QueueOp.step_announced (cfg : ClientConfig) (c : ClientRun) (op : QueueOp) (hop : op ≠ .clear) :
    ∃ es, (op.step cfg c).events = c.events ++ es ∧
      announced c.queue.fullState es = some (op.step cfg c).queue.fullState := by
  have hs := op.step_outcome cfg c
  generalize op.step cfg c = c' at hs ⊢
  cases hs with
  | none hq ha hp ho hd he hf => exact ⟨[], by rw [he, List.append_nil], by rw [hq]; rfl⟩
  | accepted hn hroom => exact ⟨[], rfl, rfl⟩
  | reported hn hfull hr =>
    refine ⟨_, rfl, ?_⟩
    rw [announced_singleton]
    cases hfs : c.queue.fullState <;> simp [makeNotificationHealthEventLocked, announce, NotifQueue.reportDrop]
  | silent hn hfull hr => exact ⟨[], rfl, rfl⟩
  | @diagnostic fd message bytes incomplete k e he =>
    refine ⟨[e], rfl, ?_⟩
    rw [announced_singleton]
    refine announce_neutral ?_ _
    unfold NotificationHealthEvent.announces
    cases ht : e.type <;> simp [ht] at he ⊢
  | popped hl hx hr => exact ⟨[], rfl, rfl⟩
  | recovered hl hx hr =>
    refine ⟨_, rfl, ?_⟩
    rw [announced_singleton]
    simp [makeNotificationHealthEventLocked, announce, hr.1]
  | dead => exact ⟨[], rfl, rfl⟩
  | cleared => exact absurd rfl hop

theorem run_announced (cfg : ClientConfig) : ∀ (ops : List QueueOp) (c : ClientRun), (∀ op ∈ ops, op ≠ .clear) →
    ∃ es, (run (QueueOp.step cfg) c ops).events = c.events ++ es ∧
      announced c.queue.fullState es = some (run (QueueOp.step cfg) c ops).queue.fullState
  | [], c, _ => ⟨[], (List.append_nil _).symm, rfl⟩
  | op :: ops, c, h => by
    obtain ⟨es, hes, hfull⟩ := op.step_announced cfg c (h op List.mem_cons_self)
    obtain ⟨es', hes', hfull'⟩ := run_announced cfg ops (op.step cfg c) (fun o ho => h o (List.mem_cons_of_mem _ ho))
    refine ⟨es ++ es', ?_, ?_⟩
    · rw [Run.run_cons, hes', hes, List.append_assoc]
    · rw [announced_append, hfull]
      exact hfull'

/-! ## The events as they are emitted -/

/-- The invariant: what was emitted and what is pending tell together what was made. -/
structure InOrder (s : HealthRun) : Prop where
  order : (s.emitted ++ s.pending.map Prod.snd).filter (·.announces) = s.client.events.filter (·.announces)
  flag : announced false s.client.events = some s.client.queue.fullState

theorem announced_filter : ∀ (es : List NotificationHealthEvent) (full : Bool),
    announced full (es.filter (·.announces)) = announced full es
  | [], _ => rfl
  | e :: es, full => by
    cases he : e.announces with
    | true =>
      rw [List.filter_cons_of_pos (by simpa using he), announced_cons, announced_cons]
      congr 1
      funext full'
      exact announced_filter es full'
    | false =>
      rw [List.filter_cons_of_neg (by simp [he]), announced_cons, announce_neutral he]
      exact announced_filter es full

theorem emit_splits {thread : Nat} {x : Nat × NotificationHealthEvent}
    (h : s.pending.find? (fun x => x.1 = thread) = some x) : ∃ older newer, s.pending = older ++ x :: newer ∧
      (∀ y ∈ older, y.1 ≠ thread) ∧ s.pending.eraseP (fun x => x.1 = thread) = older ++ newer := by
  obtain ⟨hx, older, newer, hsplit, holder⟩ := List.find?_eq_some_iff_append.1 h
  have hne : ∀ y ∈ older, y.1 ≠ thread := fun y hy => by simpa using holder y hy
  refine ⟨older, newer, hsplit, hne, ?_⟩
  rw [hsplit, List.eraseP_append_right _ (fun y hy => by simpa using hne y hy),
    List.eraseP_cons_of_pos (p := fun y : Nat × NotificationHealthEvent => decide (y.1 = thread)) hx]

theorem older_neutral {older newer : List (Nat × NotificationHealthEvent)} {x : Nat × NotificationHealthEvent}
    (hnew : ∀ y ∈ older, y.1 ≠ x.1) (h : (older ++ x :: newer).find? (fun x => x.2.announces) = some x) :
    ∀ y ∈ older, y.2.announces = false := by
  obtain ⟨_, front, back, hsplit, hfront⟩ := List.find?_eq_some_iff_append.1 h
  have hneutral : ∀ y ∈ front, y.2.announces = false := fun y hy => by simpa using hfront y hy
  rcases List.prefix_or_prefix_of_prefix ⟨_, rfl⟩ (⟨_, hsplit.symm⟩ : front <+: older ++ x :: newer) with hle | ⟨t, rfl⟩
  · exact fun y hy => hneutral y (hle.subset hy)
  · cases t with
    | nil => simpa using hneutral
    | cons y t =>
      rw [List.append_assoc, List.append_cancel_left_eq, List.cons_append] at hsplit
      obtain rfl : y = x := (List.cons.inj hsplit).1
      exact absurd rfl (hnew y (by simp))

theorem filter_eq_nil_of_neutral {older : List (Nat × NotificationHealthEvent)}
    (h : ∀ y ∈ older, y.2.announces = false) : (older.map Prod.snd).filter (·.announces) = [] := by
  rw [List.filter_eq_nil_iff]
  intro e he
  obtain ⟨y, hy, rfl⟩ := List.mem_map.1 he
  simp [h y hy]

/-- **What a turn keeps.** -/
theorem InOrder.step (h : InOrder s) (t : HealthTurn) (hkeeps : KeepsQueue t) (holdest : EmitsOldest s t) :
    InOrder (t.step cfg s) := by
  cases t with
  | locked thread ops =>
    simp only [HealthTurn.step]
    split
    · exact h
    · obtain ⟨es, hes, hfull⟩ := run_announced cfg ops s.client (fun op hop => (hkeeps op hop).1)
      refine ⟨?_, ?_⟩
      · simp only [hes, List.drop_left, List.map_append, List.map_map]
        rw [← List.append_assoc, List.filter_append, h.order, ← List.filter_append]
        simp [Function.comp_def]
      · simp only [hes, announced_append, h.flag]
        exact hfull
  | emit thread =>
    simp only [HealthTurn.step]
    split
    · exact h
    · rename_i thread' event hfind
      obtain ⟨older, newer, hsplit, hnew, herase⟩ := emit_splits hfind
      refine ⟨?_, h.flag⟩
      have horder := h.order
      rw [hsplit] at horder
      simp only [herase]
      rw [← horder]
      simp only [List.map_append, List.map_cons, List.filter_append]
      cases hannounces : event.announces with
      | false => simp [hannounces]
      | true =>
        have hthread : thread' = thread := by simpa using List.find?_some hfind
        have hfirst := holdest _ hfind hannounces
        rw [hsplit] at hfirst
        rw [filter_eq_nil_of_neutral (older_neutral (by simpa [hthread] using hnew) hfirst)]
        simp [hannounces]
  | otherClient event => exact ⟨h.order, h.flag⟩

theorem inOrder_run {turns : List HealthTurn}
    (h : Along (HealthTurn.step cfg) (fun s t => KeepsQueue t ∧ EmitsOldest s t) {} turns) :
    InOrder (runHealth cfg turns) :=
  Run.along_invariant (I := InOrder) (fun _ t hs ht => hs.step t ht.1 ht.2) ⟨rfl, rfl⟩ turns h

theorem InOrder.consistent (h : InOrder s) : EventsConsistent s := by
  have hall : announced false (s.emitted ++ s.pending.map Prod.snd) = some s.client.queue.fullState := by
    rw [← announced_filter, h.order, announced_filter]
    exact h.flag
  refine ⟨?_, fun hnone => ?_⟩
  · rw [announced_append] at hall
    cases he : announced false s.emitted with
    | none => rw [he] at hall; cases hall
    | some full => rfl
  · rw [hnone] at hall
    simpa using hall

/-- **A client's events reach the bus in an order consistent with its queue** in every run whose emits take the oldest
event that announces. -/
theorem events_consistent (cfg : ClientConfig) (turns : List HealthTurn)
    (hkeeps : Along (HealthTurn.step cfg) (fun _ t => KeepsQueue t) {} turns)
    (holdest : Along (HealthTurn.step cfg) EmitsOldest {} turns) : EventsConsistent (runHealth cfg turns) :=
  (inOrder_run (hkeeps.and holdest)).consistent

def samplePop : QueueOp := .pop ⟨true, true, true⟩ 0

/-- The reactor's thread 0 fills the queue and drops; thread 1 pops; each emits after its own section. -/
def emitsAtOnce : List HealthTurn :=
  [.locked 0 [sampleOffer, sampleOffer], .emit 0, .locked 1 [samplePop], .emit 1]

theorem emitsAtOnce_consistent : announced false (runHealth oneSlotConfig emitsAtOnce).emitted = some false := by
  have hkeeps : Along (HealthTurn.step oneSlotConfig) (fun _ t => KeepsQueue t) {} emitsAtOnce := by
    simp [emitsAtOnce, Run.along_cons, Run.along_nil, KeepsQueue, sampleOffer, samplePop]
  have holdest : Along (HealthTurn.step oneSlotConfig) EmitsOldest {} emitsAtOnce := by
    simp only [emitsAtOnce, Run.along_cons]
    refine ⟨trivial, ?_, trivial, ?_, Run.along_nil⟩
    · intro x hx _
      rw [← hx]
      decide +kernel
    · intro x hx _
      rw [← hx]
      decide +kernel
  have hconsistent := events_consistent oneSlotConfig emitsAtOnce hkeeps holdest
  rw [hconsistent.2 (by decide +kernel)]
  decide +kernel

/-- The same sections, and the pop's event overtakes the drop's. -/
def emitsLate : List HealthTurn :=
  [.locked 0 [sampleOffer, sampleOffer], .locked 1 [samplePop], .emit 1, .emit 0]

/-- **The bus is told that a queue has recovered before it is told that it is full**, and is left with the latter. -/
theorem emitsLate_not_consistent : ¬ ∀ (cfg : ClientConfig) (turns : List HealthTurn),
    Along (HealthTurn.step cfg) (fun _ t => KeepsQueue t) {} turns → EventsConsistent (runHealth cfg turns) := by
  intro h
  have hkeeps : Along (HealthTurn.step oneSlotConfig) (fun _ t => KeepsQueue t) {} emitsLate := by
    simp [emitsLate, Run.along_cons, Run.along_nil, KeepsQueue, sampleOffer, samplePop]
  exact absurd (h oneSlotConfig emitsLate hkeeps).1 (by decide +kernel)

end PyNetX
