import PyNetX.Lib.Fifo
import PyNetX.Queue
/-!
# QueueRun — a client's notification queue over whole runs

The sections under `_notif_queue_mtx` in any order: offers and diagnostics by the reactor, pops and peeks by consumers,
the dead-session cleanup, the clearing, and the buffer reset of a new subscription.  A run keeps its history beside the
queue; the queue refines a bounded FIFO (`runQueue_fifo`), and what it counts is what happened (`queue_run_exact`).
-/
namespace PyNetX

open Run (run Along)

/-- The sections that touch the queue.  `markDead` is also `delete_subscription` and a failed `subscribe`. -/
inductive QueueOp where
  | offer (fd : Int) (notification : Bytes) (diagnosticBytes : Int)
  | diagnostic (fd : Int) (message : String) (partialBytes : Int) (incomplete : Bool)
  | pop (flags : SubscriptionFlags) (timeoutMs : Int)
  | peek (maxItems : Int)
  | markDead
  | clear
  | subscribed

/-- The queue, and what happened to it: what was accepted and popped since the last clearing, the non-empty offers ever
made, the drops of the full episode that is on, and the events made. -/
structure ClientRun where
  queue : NotifQueue := {}
  rx : RxBuffer := {}
  accepted : List Bytes := []
  popped : List Bytes := []
  offers : Nat := 0
  episodeDrops : Nat := 0
  events : List NotificationHealthEvent := []

/-- A section leaves the queue as `q` and makes `events`; the full episode goes on while the queue is at capacity. -/
def ClientRun.next (cfg : ClientConfig) (c : ClientRun) (q : NotifQueue) (events : List NotificationHealthEvent) :
    ClientRun :=
  { c with
    queue := q
    episodeDrops :=
      if AtCapacity cfg q then c.episodeDrops + (q.droppedQueueFullCount - c.queue.droppedQueueFullCount) else 0
    events := c.events ++ events }

def QueueOp.step (cfg : ClientConfig) (c : ClientRun) : QueueOp → ClientRun
  | .offer fd n d =>
    let s := enqueueOrDropLocked cfg fd n d { queue := c.queue }
    { c.next cfg s.queue s.eventsToEmit with
      accepted := if s.queuedNotifications = 0 then c.accepted else c.accepted ++ [n]
      offers := if n = [] then c.offers else c.offers + 1 }
  | .diagnostic fd message bytes incomplete =>
    let s := addDiagnosticEventLocked cfg fd
      (if incomplete then .incompleteNotification else .malformedNotification) message bytes incomplete
      { queue := c.queue }
    c.next cfg s.queue s.eventsToEmit
  | .pop flags timeoutMs =>
    match nextNotification cfg flags timeoutMs c.queue with
    | .error _ => c
    | .ok (xml, q, event) =>
      { c.next cfg q event.toList with popped := if xml = [] then c.popped else c.popped ++ [xml] }
  | .peek _ => c
  | .markDead =>
    let (q, rx) := markNotificationDead c.queue c.rx
    { c.next cfg q [] with rx := rx, accepted := [], popped := [] }
  | .clear =>
    let (q, rx) := clearNotificationQueue c.queue c.rx
    { c.next cfg q [] with rx := rx, accepted := [], popped := [] }
  | .subscribed => { c with rx := { c.rx with bytes := [], partialTimerActive := false } }

/-- A run from a client just constructed. -/
def runQueue (cfg : ClientConfig) (ops : List QueueOp) : ClientRun := run (QueueOp.step cfg) {} ops

theorem runQueue_concat (cfg : ClientConfig) (ops : List QueueOp) (op : QueueOp) :
    runQueue cfg (ops ++ [op]) = op.step cfg (runQueue cfg ops) := Run.run_concat ops op

/-! ## What one section does -/

/-- What the abstract queue knows of a run. -/
def ClientRun.fifo (c : ClientRun) : Fifo.State Bytes where
  contents := c.queue.items
  accepted := c.accepted
  popped := c.popped

/-- What a section asks of the abstract queue. -/
def QueueOp.fifo : QueueOp → Fifo.Op Bytes
  | .offer _ n _ => if n = [] then .skip else .offer n
  | .pop flags timeoutMs => if flags.Live timeoutMs then .pop else .skip
  | .markDead | .clear => .clear
  | .diagnostic .. | .peek _ | .subscribed => .skip

variable {cfg : ClientConfig} {c : ClientRun}

@[simp] theorem ClientRun.next_queue (q : NotifQueue) (evs : List NotificationHealthEvent) :
    (c.next cfg q evs).queue = q := rfl

@[simp] theorem ClientRun.next_events (q : NotifQueue) (evs : List NotificationHealthEvent) :
    (c.next cfg q evs).events = c.events ++ evs := rfl

@[simp] theorem ClientRun.next_accepted (q : NotifQueue) (evs : List NotificationHealthEvent) :
    (c.next cfg q evs).accepted = c.accepted := rfl

@[simp] theorem ClientRun.next_popped (q : NotifQueue) (evs : List NotificationHealthEvent) :
    (c.next cfg q evs).popped = c.popped := rfl

@[simp] theorem ClientRun.next_offers (q : NotifQueue) (evs : List NotificationHealthEvent) :
    (c.next cfg q evs).offers = c.offers := rfl

theorem ClientRun.next_episodeDrops_pos {q : NotifQueue} (evs : List NotificationHealthEvent) (h : AtCapacity cfg q)
    (hd : c.queue.droppedQueueFullCount < q.droppedQueueFullCount ∨ 0 < c.episodeDrops) :
    0 < (c.next cfg q evs).episodeDrops := by
  simp only [ClientRun.next, if_pos h]
  omega

/-- The queue after an accepted offer. -/
def NotifQueue.accept (q : NotifQueue) (n : Bytes) : NotifQueue :=
  { q with
    items := q.items ++ [n]
    enqueuedCount := q.enqueuedCount + 1
    highWatermark := max q.highWatermark (q.items.length + 1) }

/-- The queue after a drop nobody is told of. -/
def NotifQueue.dropSilently (q : NotifQueue) : NotifQueue :=
  { q with droppedQueueFullCount := q.droppedQueueFullCount + 1 }

/-- **What a step can do**: to an accepted offer, a drop with or without its event, a pop with or without a recovery, a
diagnostic, a clearing, or nothing. -/
inductive StepOutcome (cfg : ClientConfig) (c : ClientRun) : QueueOp → ClientRun → Prop where
  | none {op : QueueOp} {c' : ClientRun} (hq : c'.queue = c.queue) (ha : c'.accepted = c.accepted)
      (hp : c'.popped = c.popped) (ho : c'.offers = c.offers) (hd : AtCapacity cfg c.queue →
        c'.episodeDrops = c.episodeDrops) (he : c'.events = c.events)
      (hf : op.fifo = .skip ∨ op.fifo = .pop ∧ c.queue.items = []) : StepOutcome cfg c op c'
  | accepted {fd : Int} {n : Bytes} {d : Int} (hn : n ≠ []) (hroom : ¬ AtCapacity cfg c.queue) :
      StepOutcome cfg c (.offer fd n d)
        { c.next cfg (c.queue.accept n) [] with accepted := c.accepted ++ [n], offers := c.offers + 1 }
  | reported {fd : Int} {n : Bytes} {d : Int} (hn : n ≠ []) (hfull : AtCapacity cfg c.queue)
      (hr : DropReported cfg c.queue) :
      StepOutcome cfg c (.offer fd n d)
        { c.next cfg c.queue.reportDrop [makeNotificationHealthEventLocked cfg c.queue.reportDrop
            (if c.queue.fullState then .notificationDropsSummary else .notificationQueueFull) queueFullMessage fd
            (c.queue.droppedQueueFullCount + 1 - c.queue.lastDropEventCount : Nat) d] with offers := c.offers + 1 }
  | silent {fd : Int} {n : Bytes} {d : Int} (hn : n ≠ []) (hfull : AtCapacity cfg c.queue)
      (hr : ¬ DropReported cfg c.queue) :
      StepOutcome cfg c (.offer fd n d) { c.next cfg c.queue.dropSilently [] with offers := c.offers + 1 }
  | diagnostic {fd : Int} {message : String} {bytes : Int} {incomplete : Bool} {k : Nat}
      {e : NotificationHealthEvent} (he : e.type ≠ .notificationQueueFull ∧ e.type ≠ .notificationDropsSummary ∧
        e.type ≠ .notificationQueueRecovered) :
      StepOutcome cfg c (.diagnostic fd message bytes incomplete)
        (c.next cfg { c.queue with incompleteCount := k } [e])
  | popped {flags : SubscriptionFlags} {timeoutMs : Int} {x : Bytes} {xs : List Bytes} (hl : flags.Live timeoutMs)
      (hx : c.queue.items = x :: xs) (hr : ¬ PopRecovers cfg c.queue xs) :
      StepOutcome cfg c (.pop flags timeoutMs)
        { c.next cfg { c.queue with items := xs } [] with
          popped := if x = [] then c.popped else c.popped ++ [x] }
  | recovered {flags : SubscriptionFlags} {timeoutMs : Int} {x : Bytes} {xs : List Bytes} (hl : flags.Live timeoutMs)
      (hx : c.queue.items = x :: xs) (hr : PopRecovers cfg c.queue xs) :
      StepOutcome cfg c (.pop flags timeoutMs)
        { c.next cfg { c.queue with items := xs, fullState := false } [makeNotificationHealthEventLocked cfg
            { c.queue with items := xs, fullState := false } .notificationQueueRecovered queueRecoveredMessage
            (-1) 0 0] with
          popped := if x = [] then c.popped else c.popped ++ [x] }
  | dead {rx : RxBuffer} : StepOutcome cfg c .markDead
      { c.next cfg { c.queue with items := [] } [] with rx := rx, accepted := [], popped := [] }
  | cleared {rx : RxBuffer} : StepOutcome cfg c .clear
      { c.next cfg { c.queue with items := [], fullState := false, highWatermark := 0 } [] with
        rx := rx, accepted := [], popped := [] }

/-- **Every section is one of these.** -/
theorem QueueOp.step_outcome (cfg : ClientConfig) (c : ClientRun) (op : QueueOp) :
    StepOutcome cfg c op (op.step cfg c) := by
  cases op with
  | offer fd n d =>
    by_cases hn : n = []
    · subst hn
      refine .none rfl rfl rfl rfl (fun hcap => ?_) (List.append_nil _) (Or.inl rfl)
      simp [step, enqueueOrDropLocked_nil, ClientRun.next, hcap]
    by_cases hcap : AtCapacity cfg c.queue
    · by_cases hr : DropReported cfg c.queue
      · have h := @enqueueOrDropLocked_reported cfg fd n d { queue := c.queue } hn hcap hr
        simp only [step, h, if_neg hn]
        exact .reported hn hcap hr
      · have h := @enqueueOrDropLocked_silent cfg fd n d { queue := c.queue } hn hcap hr
        simp only [step, h, if_neg hn]
        exact .silent hn hcap hr
    · have h := @enqueueOrDropLocked_room cfg fd n d { queue := c.queue } hn hcap
      simp only [step, h, if_neg hn]
      exact .accepted hn hcap
  | diagnostic fd message bytes incomplete =>
    cases incomplete with
    | false => exact .diagnostic (k := c.queue.incompleteCount) (by simp [makeNotificationHealthEventLocked])
    | true => exact .diagnostic (k := c.queue.incompleteCount + 1) (by simp [makeNotificationHealthEventLocked])
  | pop flags timeoutMs =>
    by_cases hl : flags.Live timeoutMs
    · have h := nextNotification_live cfg c.queue hl
      cases hx : c.queue.items with
      | nil =>
        rw [hx] at h
        simp only [step, h]
        refine .none rfl rfl rfl rfl (fun hcap => ?_) (List.append_nil _) (Or.inr ⟨if_pos hl, hx⟩)
        simp [ClientRun.next, hcap]
      | cons x xs =>
        rw [hx] at h
        simp only at h
        by_cases hr : PopRecovers cfg c.queue xs
        · rw [if_pos hr] at h
          simp only [step, h]
          exact .recovered hl hx hr
        · rw [if_neg hr] at h
          simp only [step, h]
          exact .popped hl hx hr
    · obtain ⟨text, h⟩ := nextNotification_not_live cfg c.queue hl
      simp only [step, h]
      exact .none rfl rfl rfl rfl (fun _ => rfl) rfl (Or.inl (if_neg hl))
  | peek maxItems => exact .none rfl rfl rfl rfl (fun _ => rfl) rfl (Or.inl rfl)
  | markDead => exact .dead
  | clear => exact .cleared
  | subscribed => exact .none rfl rfl rfl rfl (fun _ => rfl) rfl (Or.inl rfl)

/-! ## The queue is a bounded FIFO -/

theorem QueueOp.step_nonempty (h : ∀ n ∈ c.queue.items, n ≠ []) (op : QueueOp) :
    ∀ n ∈ (op.step cfg c).queue.items, n ≠ [] := by
  have hs := op.step_outcome cfg c
  generalize op.step cfg c = c' at hs ⊢
  cases hs with
  | none hq => rwa [hq]
  | accepted hn hroom =>
    intro x hx
    rcases List.mem_append.1 hx with hx | hx
    · exact h x hx
    · rw [List.mem_singleton.1 hx]
      exact hn
  | reported | silent => exact h
  | diagnostic => exact h
  | popped hl hx hr | recovered hl hx hr => exact fun y hy => h y (by rw [hx]; exact List.mem_cons_of_mem _ hy)
  | dead | cleared => exact fun y hy => by cases hy

/-- **One section, on the abstract queue.** -/
theorem QueueOp.step_fifo (h : ∀ n ∈ c.queue.items, n ≠ []) (op : QueueOp) :
    (op.step cfg c).fifo = Fifo.step cfg.capacity c.fifo op.fifo := by
  have hfull : Fifo.Full cfg.capacity c.fifo.contents ↔ AtCapacity cfg c.queue := (atCapacity_iff c.queue).symm
  have hs := op.step_outcome cfg c
  generalize op.step cfg c = c' at hs ⊢
  cases hs with
  | none hq ha hp ho hd he hf =>
    have hsame : c'.fifo = c.fifo := by simp only [ClientRun.fifo, hq, ha, hp]
    rw [hsame]
    rcases hf with hf | ⟨hf, hnil⟩
    · rw [hf]
      rfl
    · simp only [hf, Fifo.step, ClientRun.fifo, hnil]
  | accepted hn hroom =>
    simp only [fifo, if_neg hn, Fifo.step]
    rw [if_neg (fun hc => hroom (hfull.1 hc))]
    rfl
  | reported hn hcap hr | silent hn hcap hr =>
    simp only [fifo, if_neg hn, Fifo.step]
    rw [if_pos (hfull.2 hcap)]
    rfl
  | diagnostic => rfl
  | popped hl hx hr | recovered hl hx hr =>
    have hne := h _ (by rw [hx]; exact List.mem_cons_self)
    simp only [fifo, if_pos hl, Fifo.step, ClientRun.fifo, ClientRun.next, hx, if_neg hne]
  | dead | cleared => rfl

theorem runQueue_nonempty (cfg : ClientConfig) (ops : List QueueOp) : ∀ n ∈ (runQueue cfg ops).queue.items, n ≠ [] :=
  Run.run_invariant (I := fun c : ClientRun => ∀ n ∈ c.queue.items, n ≠ []) (fun _ op h => op.step_nonempty h) ops {}
    (fun n h => by cases h)

/-- **Over every run the queue is the abstract queue**, its bound the configured one. -/
theorem runQueue_fifo (cfg : ClientConfig) (ops : List QueueOp) :
    (runQueue cfg ops).fifo = run (Fifo.step cfg.capacity) {} (ops.map QueueOp.fifo) := by
  induction ops using List.reverseRecOn with
  | nil => rfl
  | append_singleton ops op ih =>
    rw [List.map_append, List.map_singleton, Run.run_concat, ← ih, runQueue_concat]
    exact op.step_fifo (runQueue_nonempty cfg ops)

/-! ## What the queue counts -/

/-- The counters say what happened, the watermark bounds the queue, and an event about a full queue was made at its
bound. -/
structure QueueCounts (cfg : ClientConfig) (c : ClientRun) : Prop where
  bounded : ∀ k, cfg.capacity = some k → c.queue.items.length ≤ k
  counted : c.queue.enqueuedCount + c.queue.droppedQueueFullCount = c.offers
  watermark : c.queue.items.length ≤ c.queue.highWatermark
  watermarkBounded : ∀ k, cfg.capacity = some k → c.queue.highWatermark ≤ k
  fullEvents : ∀ e ∈ c.events, e.type = .notificationQueueFull ∨ e.type = .notificationDropsSummary →
    e.queueSize = e.queueMaxSize

theorem QueueCounts.size_of_atCapacity (h : QueueCounts cfg c) (hcap : AtCapacity cfg c.queue) :
    (c.queue.items.length : Int) = cfg.notifQueueSize := by
  obtain ⟨k, hk, hle⟩ := (atCapacity_iff c.queue).1 hcap
  have hb := h.bounded k hk
  unfold ClientConfig.capacity at hk
  split at hk
  · cases hk
    omega
  · cases hk

theorem length_lt_of_not_atCapacity {q : NotifQueue} (h : ¬ AtCapacity cfg q) {k : Nat} (hk : cfg.capacity = some k) :
    q.items.length < k := by
  by_contra hle
  exact h ((atCapacity_iff q).2 ⟨k, hk, by omega⟩)

/-- A popped queue is within its bounds still. -/
theorem QueueCounts.tail (h : QueueCounts cfg c) {x : Bytes} {xs : List Bytes} (hx : c.queue.items = x :: xs) :
    (∀ k, cfg.capacity = some k → xs.length ≤ k) ∧ xs.length ≤ c.queue.highWatermark := by
  have hlen : c.queue.items.length = xs.length + 1 := congrArg List.length hx
  refine ⟨fun k hk => ?_, ?_⟩
  · have := h.bounded k hk
    omega
  · have := h.watermark
    omega

theorem QueueCounts.fullEvents_append (h : QueueCounts cfg c) {es : List NotificationHealthEvent}
    (hes : ∀ e ∈ es, e.type = .notificationQueueFull ∨ e.type = .notificationDropsSummary →
      e.queueSize = e.queueMaxSize) :
    ∀ e ∈ c.events ++ es, e.type = .notificationQueueFull ∨ e.type = .notificationDropsSummary →
      e.queueSize = e.queueMaxSize := by
  intro e he
  rcases List.mem_append.1 he with he | he
  · exact h.fullEvents e he
  · exact hes e he

/-- **Every section keeps the counts.** -/
theorem QueueOp.step_counts (h : QueueCounts cfg c) (op : QueueOp) : QueueCounts cfg (op.step cfg c) := by
  have hs := op.step_outcome cfg c
  generalize op.step cfg c = c' at hs ⊢
  have hsilent := h.fullEvents_append (fun e (he : e ∈ []) => absurd he List.not_mem_nil)
  cases hs with
  | none hq ha hp ho hd he hf =>
    exact ⟨by rw [hq]; exact h.bounded, by rw [hq, ho]; exact h.counted, by rw [hq]; exact h.watermark,
      by rw [hq]; exact h.watermarkBounded, by rw [he]; exact h.fullEvents⟩
  | accepted hn hroom =>
    refine ⟨fun k hk => ?_, ?_, ?_, fun k hk => ?_, hsilent⟩
    · have := length_lt_of_not_atCapacity hroom hk
      simp only [ClientRun.next_queue, NotifQueue.accept, List.length_append, List.length_cons, List.length_nil]
      omega
    · have := h.counted
      simp only [ClientRun.next_queue, NotifQueue.accept]
      omega
    · simp only [ClientRun.next_queue, NotifQueue.accept, List.length_append, List.length_cons, List.length_nil]
      omega
    · have := length_lt_of_not_atCapacity hroom hk
      have := h.watermarkBounded k hk
      simp only [ClientRun.next_queue, NotifQueue.accept]
      omega
  | reported hn hcap hr =>
    refine ⟨h.bounded, ?_, h.watermark, h.watermarkBounded, h.fullEvents_append (fun e he _ => ?_)⟩
    · have := h.counted
      simp only [ClientRun.next_queue, NotifQueue.reportDrop]
      omega
    · rw [List.mem_singleton.1 he]
      exact h.size_of_atCapacity hcap
  | silent hn hcap hr =>
    refine ⟨h.bounded, ?_, h.watermark, h.watermarkBounded, hsilent⟩
    have := h.counted
    simp only [ClientRun.next_queue, NotifQueue.dropSilently]
    omega
  | diagnostic he =>
    refine ⟨h.bounded, h.counted, h.watermark, h.watermarkBounded, h.fullEvents_append (fun e' he' hty => ?_)⟩
    rw [List.mem_singleton.1 he'] at hty
    exact absurd hty (not_or.2 ⟨he.1, he.2.1⟩)
  | popped hl hx hr =>
    exact ⟨(h.tail hx).1, h.counted, (h.tail hx).2, h.watermarkBounded, hsilent⟩
  | recovered hl hx hr =>
    refine ⟨(h.tail hx).1, h.counted, (h.tail hx).2, h.watermarkBounded, h.fullEvents_append (fun e he hty => ?_)⟩
    rw [List.mem_singleton.1 he] at hty
    simp [makeNotificationHealthEventLocked] at hty
  | dead => exact ⟨fun k _ => Nat.zero_le k, h.counted, Nat.zero_le _, h.watermarkBounded, hsilent⟩
  | cleared =>
    exact ⟨fun k _ => Nat.zero_le k, h.counted, Nat.zero_le _, fun k _ => Nat.zero_le k, hsilent⟩

theorem runQueue_counts (cfg : ClientConfig) (ops : List QueueOp) : QueueCounts cfg (runQueue cfg ops) :=
  Run.run_invariant (I := QueueCounts cfg) (fun _ op h => op.step_counts h) ops {}
    ⟨fun k _ => Nat.zero_le k, rfl, Nat.zero_le _, fun k _ => Nat.zero_le k, fun e h => by cases h⟩

/-! ## Peeks and pops -/

/-- The texts that `n` pops in a row return. -/
def popMany (cfg : ClientConfig) (flags : SubscriptionFlags) (timeoutMs : Int) : Nat → NotifQueue → List Bytes
  | 0, _ => []
  | n + 1, q =>
    match nextNotification cfg flags timeoutMs q with
    | .error _ => []
    | .ok (xml, q, _) => xml :: popMany cfg flags timeoutMs n q

theorem popMany_take {flags : SubscriptionFlags} {timeoutMs : Int} (hl : flags.Live timeoutMs) : ∀ (n : Nat)
    (q : NotifQueue), n ≤ q.items.length → popMany cfg flags timeoutMs n q = q.items.take n
  | 0, _, _ => rfl
  | n + 1, q, h => by
    have hnext := nextNotification_live cfg q hl
    cases hx : q.items with
    | nil =>
      rw [hx] at h
      exact absurd h (Nat.not_succ_le_zero n)
    | cons x xs =>
      rw [hx] at h hnext
      have hn : n ≤ xs.length := Nat.le_of_succ_le_succ h
      simp only at hnext
      simp only [popMany, hnext]
      split
      · rename_i hr
        split at hr
        · cases hr
        · cases hr
      · rename_i xml q' ev hr
        split at hr
        · cases hr
          rw [popMany_take hl n _ hn, List.take_succ_cons]
        · cases hr
          rw [popMany_take hl n _ hn, List.take_succ_cons]

theorem peekNotifications_eq_take {maxItems : Int} {q : NotifQueue} {l : List Bytes}
    (h : peekNotifications maxItems q = .ok l) : l = q.items.take l.length := by
  unfold peekNotifications at h
  split at h
  · cases h
  · injection h with h
    rw [← h, List.length_take]
    split
    · rw [Nat.min_eq_left (by omega)]
    · rw [Nat.min_self, List.take_length]

theorem offer_not_skip (fd : Int) {n : Bytes} (d : Int) (hn : n ≠ []) :
    ¬ ((QueueOp.offer fd n d).fifo = .skip ∨ (QueueOp.offer fd n d).fifo = .pop ∧ c.queue.items = []) := by
  rw [QueueOp.fifo, if_neg hn]
  rintro (hskip | ⟨hpop, -⟩)
  · cases hskip
  · cases hpop

/-- **What an offer does**: at capacity it is dropped and counted, else it is queued. -/
theorem offer_cases (fd : Int) {n : Bytes} (d : Int) (hn : n ≠ []) :
    (AtCapacity cfg c.queue → ((QueueOp.offer fd n d).step cfg c).queue.items = c.queue.items ∧
      ((QueueOp.offer fd n d).step cfg c).queue.droppedQueueFullCount = c.queue.droppedQueueFullCount + 1) ∧
    (¬ AtCapacity cfg c.queue → ((QueueOp.offer fd n d).step cfg c).queue.items = c.queue.items ++ [n] ∧
      ((QueueOp.offer fd n d).step cfg c).queue.droppedQueueFullCount = c.queue.droppedQueueFullCount) := by
  have hs := (QueueOp.offer fd n d).step_outcome cfg c
  generalize (QueueOp.offer fd n d).step cfg c = c' at hs ⊢
  cases hs with
  | none hq ha hp ho hd he hf => exact absurd hf (offer_not_skip fd d hn)
  | accepted _ hroom => exact ⟨fun hcap => absurd hcap hroom, fun _ => ⟨rfl, rfl⟩⟩
  | reported _ hcap hr | silent _ hcap hr => exact ⟨fun _ => ⟨rfl, rfl⟩, fun hroom => absurd hcap hroom⟩

/-- **First in, first out, with exact counters**, over every run of a client: since the last clearing the accepted
notifications are those popped and those in the queue; a non-empty offer is dropped exactly at capacity; offers are
counted once; the bound holds of the queue and of its watermark; a peek shows what the following pops return; and an
event about a full queue carries a full queue's size. -/
theorem queue_run_exact (cfg : ClientConfig) (ops : List QueueOp) :
    (runQueue cfg ops).accepted = (runQueue cfg ops).popped ++ (runQueue cfg ops).queue.items ∧
    QueueCounts cfg (runQueue cfg ops) ∧
    (∀ fd n d, n ≠ [] →
      (cfg.capacity = some (runQueue cfg ops).queue.items.length →
        (runQueue cfg (ops ++ [.offer fd n d])).queue.items = (runQueue cfg ops).queue.items ∧
        (runQueue cfg (ops ++ [.offer fd n d])).queue.droppedQueueFullCount =
          (runQueue cfg ops).queue.droppedQueueFullCount + 1) ∧
      (cfg.capacity ≠ some (runQueue cfg ops).queue.items.length →
        (runQueue cfg (ops ++ [.offer fd n d])).queue.items = (runQueue cfg ops).queue.items ++ [n] ∧
        (runQueue cfg (ops ++ [.offer fd n d])).queue.droppedQueueFullCount =
          (runQueue cfg ops).queue.droppedQueueFullCount)) ∧
    ∀ maxItems l, peekNotifications maxItems (runQueue cfg ops).queue = .ok l →
      runQueue cfg (ops ++ [.peek maxItems]) = runQueue cfg ops ∧
      ∀ flags timeoutMs, flags.Live timeoutMs → popMany cfg flags timeoutMs l.length (runQueue cfg ops).queue = l := by
  have hcounts := runQueue_counts cfg ops
  refine ⟨?_, hcounts, ?_, ?_⟩
  · have hfifo := runQueue_fifo cfg ops
    have hhistory := Fifo.run_history cfg.capacity (ops.map QueueOp.fifo)
    rwa [← hfifo] at hhistory
  · intro fd n d hn
    have hcap : cfg.capacity = some (runQueue cfg ops).queue.items.length ↔ AtCapacity cfg (runQueue cfg ops).queue := by
      rw [atCapacity_iff]
      constructor
      · exact fun h => ⟨_, h, Nat.le_refl _⟩
      · rintro ⟨k, hk, hle⟩
        rw [hk, Nat.le_antisymm (hcounts.bounded k hk) hle]
    rw [ne_eq, hcap, runQueue_concat]
    exact offer_cases fd d hn
  · intro maxItems l hpeek
    refine ⟨runQueue_concat cfg ops _, fun flags timeoutMs hl => ?_⟩
    have htake := peekNotifications_eq_take hpeek
    have hle : l.length ≤ (runQueue cfg ops).queue.items.length := by
      have := congrArg List.length htake
      rw [List.length_take] at this
      omega
    rw [popMany_take hl _ _ hle, ← htake]

end PyNetX
