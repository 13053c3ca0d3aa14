import PyNetX.Bytes
/-!
# Client — a client's configuration, its notification queue and its health events

The constructor's checks (`ClientArgs.check`), the members that `_notif_queue_mtx` protects (`NotifQueue`, `RxBuffer`)
and `NotificationHealthEvent`, whose counters a health event copies at the moment it is made.
-/
namespace PyNetX

/-- The constructor's arguments that the model reads, with their defaults. -/
structure ClientArgs where
  hostname : String
  port : Int
  username : String
  connectTimeout : Int := 60
  readTimeout : Int := 60
  notifQueueSize : Int := -1
  socketConnectTimeout : Int := 5
  notifIncompleteMaxKb : Int := 1024
  notifIncompleteTimeout : Int := 5
  notifDropEventThreshold : Int := 1
  label : String := "None"

/-- The constructor's checks in its order: what refuses the arguments, and the text thrown for it. -/
def ClientArgs.faults (a : ClientArgs) : List (Bool × String) := [
  (a.hostname = "", "hostname cannot be empty"),
  (a.port ≤ 0 ∨ 65535 < a.port, "port must be between 1 and 65535"),
  (a.username = "", "username cannot be empty"),
  (a.connectTimeout ≤ 0, "connect_timeout must be greater than 0"),
  (a.readTimeout ≤ 0, "read_timeout must be greater than 0"),
  (a.socketConnectTimeout ≤ 0, "socket_connect_timeout must be greater than 0"),
  (a.connectTimeout < a.socketConnectTimeout, "socket_connect_timeout cannot be greater than connect_timeout"),
  (a.notifQueueSize < -1, "notif_queue_size must be -1 for unbounded or >= 0 for bounded queue"),
  (a.notifIncompleteMaxKb < -1 ∨ a.notifIncompleteMaxKb = 0,
    "notif_incomplete_max_kb must be -1 to disable or greater than 0"),
  (a.notifIncompleteTimeout < -1 ∨ a.notifIncompleteTimeout = 0,
    "notif_incomplete_timeout must be -1 to disable or greater than 0"),
  (a.notifIncompleteMaxKb < 0 ∧ a.notifIncompleteTimeout < 0,
    "At least one of notif_incomplete_max_kb or notif_incomplete_timeout must be enabled"),
  (a.notifDropEventThreshold ≤ 0, "notif_drop_event_threshold must be greater than 0")]

/-- The constructor's body: the first fault is thrown. -/
def ClientArgs.check (a : ClientArgs) : Except String Unit :=
  match a.faults.find? (fun f => f.1) with
  | some f => .error f.2
  | none => .ok ()

/-- **A client's configuration**: arguments the constructor accepted. -/
structure ClientConfig extends ClientArgs where
  accepted : toClientArgs.check = .ok ()

theorem ClientArgs.check_ok_iff (a : ClientArgs) : a.check = .ok () ↔
    a.hostname ≠ "" ∧ (0 < a.port ∧ a.port ≤ 65535) ∧ a.username ≠ "" ∧ 0 < a.connectTimeout ∧ 0 < a.readTimeout ∧
    0 < a.socketConnectTimeout ∧ a.socketConnectTimeout ≤ a.connectTimeout ∧ -1 ≤ a.notifQueueSize ∧
    (-1 ≤ a.notifIncompleteMaxKb ∧ a.notifIncompleteMaxKb ≠ 0) ∧
    (-1 ≤ a.notifIncompleteTimeout ∧ a.notifIncompleteTimeout ≠ 0) ∧
    (0 ≤ a.notifIncompleteMaxKb ∨ 0 ≤ a.notifIncompleteTimeout) ∧ 0 < a.notifDropEventThreshold := by
  have hnone : a.check = .ok () ↔ a.faults.find? (fun f => f.1) = none := by
    unfold ClientArgs.check
    cases a.faults.find? (fun f => f.1) <;> simp
  rw [hnone, List.find?_eq_none]
  simp only [ClientArgs.faults, List.forall_mem_cons, List.not_mem_nil, false_implies, implies_true, and_true,
    decide_eq_true_eq, not_or, not_and_or, Int.not_le, Int.not_lt, ne_eq]

theorem ClientConfig.notifDropEventThreshold_pos (cfg : ClientConfig) : 0 < cfg.notifDropEventThreshold :=
  ((ClientArgs.check_ok_iff _).1 cfg.accepted).2.2.2.2.2.2.2.2.2.2.2

theorem ClientConfig.readTimeout_pos (cfg : ClientConfig) : 0 < cfg.readTimeout :=
  ((ClientArgs.check_ok_iff _).1 cfg.accepted).2.2.2.2.1

/-- **Every default passes its own check.** -/
theorem ClientArgs.defaults_accepted {hostname username : String} {port : Int} (hh : hostname ≠ "")
    (hp : 0 < port ∧ port ≤ 65535) (hu : username ≠ "") :
    (ClientArgs.mk hostname port username 60 60 (-1) 5 1024 5 1 "None").check = .ok () :=
  (ClientArgs.check_ok_iff _).2 ⟨hh, hp, hu, by simp⟩

/-- A client constructed with every default. -/
def ClientConfig.ofDefaults (hostname username : String) (port : Int) (hh : hostname ≠ "")
    (hp : 0 < port ∧ port ≤ 65535) (hu : username ≠ "") : ClientConfig :=
  ⟨ClientArgs.mk hostname port username 60 60 (-1) 5 1024 5 1 "None", ClientArgs.defaults_accepted hh hp hu⟩

/-- Such a client, for examples. -/
def defaultClient : ClientConfig := .ofDefaults "device" "admin" 830 (by decide) (by decide) (by decide)

/-- The queue is bounded by `capacity`; `_notif_queue_max_size_ < 0` is unbounded. -/
def ClientConfig.capacity (cfg : ClientConfig) : Option Nat :=
  if 0 ≤ cfg.notifQueueSize then some cfg.notifQueueSize.toNat else none

/-- The `type` of a health event. -/
inductive HealthEventType where
  | notificationQueueFull | notificationDropsSummary | notificationQueueRecovered
  | malformedNotification | incompleteNotification
  deriving DecidableEq, Repr

def HealthEventType.text : HealthEventType → String
  | .notificationQueueFull => "notification_queue_full"
  | .notificationDropsSummary => "notification_drops_summary"
  | .notificationQueueRecovered => "notification_queue_recovered"
  | .malformedNotification => "malformed_notification"
  | .incompleteNotification => "incomplete_notification"

/-- `NotificationHealthEvent`, without its wall-clock text. -/
structure NotificationHealthEvent where
  valid : Bool := true
  type : HealthEventType
  label : String := "None"
  hostname : String := ""
  port : Int := 0
  fd : Int := -1
  message : String
  queueSize : Int := 0
  queueMaxSize : Int := -1
  queueHighWatermark : Int := 0
  notificationsEnqueued : Int := 0
  notificationsDroppedQueueFull : Int := 0
  notificationsDroppedDelta : Int := 0
  incompleteNotificationsReceived : Int := 0
  partialBytes : Int := 0
  healthEventsDropped : Int := 0
  deriving DecidableEq, Repr

/-- `_notif_queue`, its counters and its full flag. -/
structure NotifQueue where
  items : List Bytes := []
  enqueuedCount : Nat := 0
  droppedQueueFullCount : Nat := 0
  lastDropEventCount : Nat := 0
  incompleteCount : Nat := 0
  highWatermark : Nat := 0
  fullState : Bool := false
  deriving DecidableEq, Repr

/-- `std::chrono::seconds(n)` on the steady clock. -/
def seconds (n : Int) : Nat := n.toNat * 1000000000

/-- `_notif_rx_buffer` and its timer; clock readings are nanoseconds of the steady clock. -/
structure RxBuffer where
  bytes : Bytes := []
  partialTimerActive : Bool := false
  partialStartedAt : Nat := 0
  deriving DecidableEq, Repr

def makeNotificationHealthEventLocked (cfg : ClientConfig) (q : NotifQueue) (type : HealthEventType) (message : String)
    (fd droppedDelta partialBytes : Int) : NotificationHealthEvent where
  valid := true
  type := type
  label := cfg.label
  hostname := cfg.hostname
  port := cfg.port
  fd := fd
  message := message
  queueSize := q.items.length
  queueMaxSize := cfg.notifQueueSize
  queueHighWatermark := q.highWatermark
  notificationsEnqueued := q.enqueuedCount
  notificationsDroppedQueueFull := q.droppedQueueFullCount
  notificationsDroppedDelta := droppedDelta
  incompleteNotificationsReceived := q.incompleteCount
  partialBytes := partialBytes

end PyNetX
