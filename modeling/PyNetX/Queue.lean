import PyNetX.Client
/-!
# Queue — the operations on a client's notification queue

Each is the body of one section under `_notif_queue_mtx`: the two lambdas of `on_notification_ready` that write
(`addDiagnosticEventLocked`, `enqueueOrDropLocked`), the consumers' reads, and the operations that empty the queue.
The line `enqueue_or_drop_locked` writes to `std::cerr` is left out.
-/
namespace PyNetX

/-- What the lambdas of `on_notification_ready` write: the queue, `events_to_emit` and `queued_notifications`. -/
structure Sink where
  queue : NotifQueue := {}
  eventsToEmit : List NotificationHealthEvent := []
  queuedNotifications : Nat := 0

def addDiagnosticEventLocked (cfg : ClientConfig) (fd : Int) (type : HealthEventType) (message : String)
    (partialBytes : Int) (incrementIncompleteCount : Bool) (s : Sink) : Sink :=
  let q := if incrementIncompleteCount then { s.queue with incompleteCount := s.queue.incompleteCount + 1 } else s.queue
  { s with
    queue := q
    eventsToEmit := s.eventsToEmit ++ [makeNotificationHealthEventLocked cfg q type message fd 0 partialBytes] }

/-- The queue is bounded and at its bound. -/
def AtCapacity (cfg : ClientConfig) (q : NotifQueue) : Prop :=
  0 ≤ cfg.notifQueueSize ∧ cfg.notifQueueSize.toNat ≤ q.items.length

instance (cfg : ClientConfig) (q : NotifQueue) : Decidable (AtCapacity cfg q) :=
  inferInstanceAs (Decidable (_ ∧ _))

def queueFullMessage : String := "Notification queue is full; dropping notifications"

def enqueueOrDropLocked (cfg : ClientConfig) (fd : Int) (notification : Bytes) (diagnosticBytes : Int) (s : Sink) :
    Sink :=
  if notification = [] then s
  else if AtCapacity cfg s.queue then
    let q := { s.queue with droppedQueueFullCount := s.queue.droppedQueueFullCount + 1 }
    let droppedDelta := q.droppedQueueFullCount - q.lastDropEventCount
    let firstQueueFullEvent := !q.fullState
    if firstQueueFullEvent ∨ cfg.notifDropEventThreshold.toNat ≤ droppedDelta then
      let q := { q with fullState := true, lastDropEventCount := q.droppedQueueFullCount }
      { s with
        queue := q
        eventsToEmit := s.eventsToEmit ++ [makeNotificationHealthEventLocked cfg q
          (if firstQueueFullEvent then .notificationQueueFull else .notificationDropsSummary)
          queueFullMessage fd droppedDelta diagnosticBytes] }
    else { s with queue := q }
  else
    let q := { s.queue with
      items := s.queue.items ++ [notification]
      enqueuedCount := s.queue.enqueuedCount + 1 }
    let q := if q.highWatermark < q.items.length then { q with highWatermark := q.items.length } else q
    { s with queue := q, queuedNotifications := s.queuedNotifications + 1 }

/-- What `next_notification` reads under `notif_mutex_`: `notif_channel_`, `notif_session_`, `notif_is_connected_`. -/
structure SubscriptionFlags where
  channel : Bool
  session : Bool
  connected : Bool

def queueRecoveredMessage : String := "Notification queue has free capacity again"

/-- `next_notification`: the checks, and the section that holds the queue when the wait is over.  The text is empty
where the wait ended without data; the event is the one emitted after the unlock. -/
def nextNotification (cfg : ClientConfig) (flags : SubscriptionFlags) (timeoutMs : Int) (q : NotifQueue) :
    Except String (Bytes × NotifQueue × Option NotificationHealthEvent) :=
  if ¬ flags.channel then .error "Unable to read from queue: Notification channel not open."
  else if ¬ flags.session then .error "Unable to read from queue: Notification session not open."
  else if ¬ flags.connected then .error "Unable to read from queue: Notification subscription is not active."
  else if timeoutMs < 0 then .error "Unable to read from queue: timeout_ms must be >= 0"
  else
    match q.items with
    | [] => .ok ([], q, none)
    | xml :: items =>
      let q := { q with items := items }
      if q.fullState ∧ (cfg.notifQueueSize < 0 ∨ q.items.length < cfg.notifQueueSize.toNat) then
        let q := { q with fullState := false }
        .ok (xml, q, some (makeNotificationHealthEventLocked cfg q .notificationQueueRecovered queueRecoveredMessage
          (-1) 0 0))
      else .ok (xml, q, none)

def peekNotifications (maxItems : Int) (q : NotifQueue) : Except String (List Bytes) :=
  if maxItems < -1 then .error "max_items must be -1 for all items or >= 0"
  else
    let limit := if 0 ≤ maxItems ∧ maxItems.toNat < q.items.length then maxItems.toNat else q.items.length
    .ok (q.items.take limit)

def notificationQueueSize (q : NotifQueue) : Nat := q.items.length

def clearNotificationQueue (q : NotifQueue) (rx : RxBuffer) : NotifQueue × RxBuffer :=
  ({ q with items := [], fullState := false, highWatermark := 0 }, { rx with bytes := [], partialTimerActive := false })

/-- `mark_notification_dead`: its section under `_notif_queue_mtx`. -/
def markNotificationDead (q : NotifQueue) (rx : RxBuffer) : NotifQueue × RxBuffer :=
  ({ q with items := [] }, { rx with bytes := [], partialTimerActive := false })

/-! ## What one offer does -/

variable {cfg : ClientConfig} {fd : Int} {n : Bytes} {d : Int} {s : Sink}

theorem enqueueOrDropLocked_nil : enqueueOrDropLocked cfg fd [] d s = s := rfl

theorem enqueueOrDropLocked_room (hn : n ≠ []) (h : ¬ AtCapacity cfg s.queue) : enqueueOrDropLocked cfg fd n d s =
    { s with
      queue := { s.queue with
        items := s.queue.items ++ [n]
        enqueuedCount := s.queue.enqueuedCount + 1
        highWatermark := max s.queue.highWatermark (s.queue.items.length + 1) }
      queuedNotifications := s.queuedNotifications + 1 } := by
  unfold enqueueOrDropLocked
  rw [if_neg hn, if_neg h]
  simp only [List.length_append, List.length_cons, List.length_nil]
  split
  · rename_i hlt
    rw [Nat.max_eq_right (by omega)]
  · rename_i hlt
    rw [Nat.max_eq_left (by omega)]

/-- The next drop is reported: it is the first one of a full episode, or it reaches the threshold. -/
def DropReported (cfg : ClientConfig) (q : NotifQueue) : Prop :=
  q.fullState = false ∨ cfg.notifDropEventThreshold.toNat ≤ q.droppedQueueFullCount + 1 - q.lastDropEventCount

/-- The queue after a reported drop. -/
def NotifQueue.reportDrop (q : NotifQueue) : NotifQueue :=
  { q with
    droppedQueueFullCount := q.droppedQueueFullCount + 1
    lastDropEventCount := q.droppedQueueFullCount + 1
    fullState := true }

theorem enqueueOrDropLocked_reported (hn : n ≠ []) (h : AtCapacity cfg s.queue) (hr : DropReported cfg s.queue) :
    enqueueOrDropLocked cfg fd n d s =
      { s with
        queue := s.queue.reportDrop
        eventsToEmit := s.eventsToEmit ++ [makeNotificationHealthEventLocked cfg s.queue.reportDrop
          (if s.queue.fullState then .notificationDropsSummary else .notificationQueueFull) queueFullMessage fd
          (s.queue.droppedQueueFullCount + 1 - s.queue.lastDropEventCount : Nat) d] } := by
  have hr' : (!s.queue.fullState) = true ∨
      cfg.notifDropEventThreshold.toNat ≤ s.queue.droppedQueueFullCount + 1 - s.queue.lastDropEventCount := by
    simpa [DropReported] using hr
  unfold enqueueOrDropLocked
  rw [if_neg hn, if_pos h]
  simp only
  rw [if_pos hr']
  cases s.queue.fullState <;> rfl

theorem enqueueOrDropLocked_silent (hn : n ≠ []) (h : AtCapacity cfg s.queue) (hr : ¬ DropReported cfg s.queue) :
    enqueueOrDropLocked cfg fd n d s =
      { s with queue := { s.queue with droppedQueueFullCount := s.queue.droppedQueueFullCount + 1 } } := by
  have hr' : ¬ ((!s.queue.fullState) = true ∨
      cfg.notifDropEventThreshold.toNat ≤ s.queue.droppedQueueFullCount + 1 - s.queue.lastDropEventCount) := by
    simpa [DropReported] using hr
  unfold enqueueOrDropLocked
  rw [if_neg hn, if_pos h]
  simp only
  rw [if_neg hr']

/-! ## What one pop does -/

/-- The checks of `next_notification` pass. -/
def SubscriptionFlags.Live (flags : SubscriptionFlags) (timeoutMs : Int) : Prop :=
  flags.channel = true ∧ flags.session = true ∧ flags.connected = true ∧ 0 ≤ timeoutMs

instance (flags : SubscriptionFlags) (timeoutMs : Int) : Decidable (flags.Live timeoutMs) :=
  inferInstanceAs (Decidable (_ ∧ _))

/-- The pop that leaves `items` ends a full episode. -/
def PopRecovers (cfg : ClientConfig) (q : NotifQueue) (items : List Bytes) : Prop :=
  q.fullState = true ∧ (cfg.notifQueueSize < 0 ∨ items.length < cfg.notifQueueSize.toNat)

instance (cfg : ClientConfig) (q : NotifQueue) (items : List Bytes) : Decidable (PopRecovers cfg q items) :=
  inferInstanceAs (Decidable (_ ∧ _))

variable {flags : SubscriptionFlags} {timeoutMs : Int} (cfg) (q : NotifQueue)

theorem nextNotification_not_live (h : ¬ flags.Live timeoutMs) :
    ∃ text, nextNotification cfg flags timeoutMs q = .error text := by
  unfold nextNotification
  split
  · exact ⟨_, rfl⟩
  split
  · exact ⟨_, rfl⟩
  split
  · exact ⟨_, rfl⟩
  split
  · exact ⟨_, rfl⟩
  · rename_i hch hse hco ht
    exact absurd ⟨Decidable.not_not.1 hch, Decidable.not_not.1 hse, Decidable.not_not.1 hco, by omega⟩ h

theorem nextNotification_live (h : flags.Live timeoutMs) : nextNotification cfg flags timeoutMs q =
    match q.items with
    | [] => .ok ([], q, none)
    | xml :: items =>
      if PopRecovers cfg q items then
        .ok (xml, { q with items := items, fullState := false },
          some (makeNotificationHealthEventLocked cfg { q with items := items, fullState := false }
            .notificationQueueRecovered queueRecoveredMessage (-1) 0 0))
      else .ok (xml, { q with items := items }, none) := by
  obtain ⟨hch, hse, hco, ht⟩ := h
  unfold nextNotification
  rw [if_neg (by simp [hch]), if_neg (by simp [hse]), if_neg (by simp [hco]), if_neg (by omega)]
  rfl

variable {cfg}

theorem atCapacity_iff (q : NotifQueue) :
    AtCapacity cfg q ↔ ∃ c, cfg.capacity = some c ∧ c ≤ q.items.length := by
  unfold AtCapacity ClientConfig.capacity
  split
  · rename_i h
    simp [h]
  · rename_i h
    simp [h]

theorem not_atCapacity_of_unbounded (h : cfg.notifQueueSize < 0) (q : NotifQueue) : ¬ AtCapacity cfg q :=
  fun hc => absurd hc.1 (by omega)

theorem enqueueOrDropLocked_unbounded (hu : cfg.notifQueueSize < 0) (hn : n ≠ []) :
    (enqueueOrDropLocked cfg fd n d s).queue.items = s.queue.items ++ [n] ∧
    (enqueueOrDropLocked cfg fd n d s).eventsToEmit = s.eventsToEmit := by
  rw [enqueueOrDropLocked_room hn (not_atCapacity_of_unbounded hu s.queue)]
  exact ⟨rfl, rfl⟩

end PyNetX
