import PyNetX.Subscribe
/-!
# Callbacks — whole calls of `on_notification_ready`

The body behind the lambdas of `Parser`: a read, a section under `_notif_queue_mtx`, a flush, and the loop that waits
for the rest of a partial notification.  The clock, `poll` and `libssh2` are scripts, one `CallbackTurn` for each turn
of `while (true)`; in front of every section other threads may have worked on the queue, or cleared the receive buffer.
A script that ends leaves the call where it was.
-/
namespace PyNetX

/-! ## Reading and waiting -/

/-- What one `poll` of `poll_notification_fd` comes to; `other` has none of the flags it looks at. -/
inductive NotifPoll where
  | interrupted | failed (strerror : Bytes) | timeout | invalid | closed | ready | other
  deriving DecidableEq

/-- `poll_notification_fd`; `true` is its 1, `false` its 0. -/
def pollNotificationFd (fd : Int) (polls : List NotifPoll) : Outcome Bool :=
  if fd < 0 then some (.error (ascii "Invalid notification socket while waiting for EOM")) else go polls
where
  go : List NotifPoll → Outcome Bool
    | [] => none
    | .interrupted :: polls => go polls
    | .failed e :: _ => some (.error (ascii "Poll error while waiting for notification EOM: " ++ e))
    | .timeout :: _ => some (.ok false)
    | .invalid :: _ => some (.error (ascii "Invalid notification socket while waiting for EOM"))
    | .closed :: _ => some (.error (ascii "Notification socket closed while waiting for EOM"))
    | .ready :: _ => some (.ok true)
    | .other :: _ => some (.ok false)

/-- What other threads did to the members while the callback was not in a section: anything to the queue, and perhaps
they cleared the receive buffer, as `clear_notification_queue`, `mark_notification_dead` and a subscription do. -/
structure Meanwhile where
  queue : NotifQueue → NotifQueue := id
  clears : Bool := false

def Meanwhile.apply (m : Meanwhile) (c : Callback) : Callback where
  rx := if m.clears then { c.rx with bytes := [], partialTimerActive := false } else c.rx
  sink := { c.sink with queue := m.queue c.sink.queue }

/-- A read: the handles `read_currently_available` finds, what the reads of the channel come to, and what comes between
it and the section that parses, with the clock there should the timer start. -/
structure Reception where
  handles : Handles
  reads : List ReadTurn
  behind : Meanwhile := {}
  now : Nat := 0

/-! ## The sections -/

/-- The section behind a read. -/
def parseLocked (env : CallbackEnv) (now : Nat) (bytes : Bytes) (c : Callback) : Callback :=
  let c := if bytes ≠ [] then c.append bytes else c
  let c := processRxBufferLocked env now c
  if partialSizeLimitReachedLocked env.cfg c.rx then finalizeIncompleteLocked env sizeGuardMessage c else c

/-- One turn of `while (true)`, in the order of the code: what is in front of its first section, that section's clock
readings, the polls, and what follows a poll without data and one with data. -/
structure CallbackTurn where
  before : Meanwhile := {}
  parsedAt : Nat := 0
  checkedAt : Nat := 0
  now : Nat := 0
  polls : List NotifPoll := []
  idle : Meanwhile := {}
  idleAt : Nat := 0
  reception : Reception

def notificationPollSliceMs : Nat := 1000

/-- The two guards, the size guard first. -/
def guardsLocked (env : CallbackEnv) (now : Nat) (c : Callback) : Callback :=
  if partialSizeLimitReachedLocked env.cfg c.rx then finalizeIncompleteLocked env sizeGuardMessage c
  else if partialTimeoutReachedLocked env.cfg now c.rx then finalizeIncompleteLocked env timeoutGuardMessage c
  else c

/-- The section at the top of `while (true)`, and `wait_ms` if `should_wait`. -/
def checkLocked (env : CallbackEnv) (t : CallbackTurn) (c : Callback) : Callback × Option Nat :=
  let c := guardsLocked env t.checkedAt (processRxBufferLocked env t.parsedAt c)
  if c.rx.bytes ≠ [] ∧ 0 < env.cfg.notifIncompleteTimeout then
    let deadline := c.rx.partialStartedAt + seconds env.cfg.notifIncompleteTimeout
    if deadline ≤ t.now then (finalizeIncompleteLocked env timeoutGuardMessage c, none)
    else (c, some (min (max 1 ((deadline - t.now) / 1000000)) notificationPollSliceMs))
  else (c, none)

/-- The section behind a poll without data. -/
def idleLocked (env : CallbackEnv) (now : Nat) (c : Callback) : Callback :=
  if partialTimeoutReachedLocked env.cfg now c.rx then finalizeIncompleteLocked env timeoutGuardMessage c else c

/-! ## A call -/

/-- What a call does that is seen outside: it reads the channel, polls the descriptor, releases `_notif_queue_mtx`,
emits an event, and notifies the consumers.  A release has the receive buffer as the section found and as it left it,
what it appended, and the events it created. -/
inductive CallbackAct where
  | read
  | poll (waitMs : Nat)
  | released (entered left : RxBuffer) (appended : Bytes) (created : List NotificationHealthEvent)
  | emitted (event : NotificationHealthEvent)
  | notified

/-- What the callback did in a section and the flush behind it, and the state then. -/
structure Locked where
  acts : List CallbackAct
  left : Callback

/-- `flush_events_and_notifications`. -/
def flushActs (s : Sink) : List CallbackAct :=
  s.eventsToEmit.map .emitted ++ if 0 < s.queuedNotifications then [.notified] else []

def Callback.flushed (c : Callback) : Callback :=
  { c with sink := { c.sink with eventsToEmit := [], queuedNotifications := 0 } }

/-- The release of a section that was entered with one state and left with another, and the flush. -/
def release (entered left : Callback) (appended : Bytes) : Locked where
  acts := .released entered.rx left.rx appended (left.sink.eventsToEmit.drop entered.sink.eventsToEmit.length) ::
    flushActs left.sink
  left := left.flushed

def parse (env : CallbackEnv) (r : Reception) (bytes : Bytes) (c : Callback) : Locked :=
  release (r.behind.apply c) (parseLocked env r.now bytes (r.behind.apply c)) bytes

/-- What a call did, the state it left, and how it ended. -/
structure CallbackEnd where
  acts : List CallbackAct
  left : Callback
  outcome : Outcome Unit

def CallbackEnd.after (r : CallbackEnd) (acts : List CallbackAct) : CallbackEnd := { r with acts := acts ++ r.acts }

/-- `while (true)` of `on_notification_ready`. -/
def callbackLoop (env : CallbackEnv) (c : Callback) : List CallbackTurn → CallbackEnd
  | [] => ⟨[], c, none⟩
  | t :: turns =>
    let check := checkLocked env t (t.before.apply c)
    let checked := release (t.before.apply c) check.1 []
    match check.2 with
    | none => ⟨checked.acts, checked.left, some (.ok ())⟩
    | some waitMs =>
      match pollNotificationFd env.fd t.polls with
      | none => ⟨checked.acts ++ [.poll waitMs], checked.left, none⟩
      | some (.error e) => ⟨checked.acts ++ [.poll waitMs], checked.left, some (.error e)⟩
      | some (.ok false) =>
        let entered := t.idle.apply checked.left
        let idle := release entered (idleLocked env t.idleAt entered) []
        (callbackLoop env idle.left turns).after (checked.acts ++ .poll waitMs :: idle.acts)
      | some (.ok true) =>
        match (readCurrentlyAvailable t.reception.handles env.fd t.reception.reads).outcome with
        | none => ⟨checked.acts ++ [.poll waitMs, .read], checked.left, none⟩
        | some (.error e) => ⟨checked.acts ++ [.poll waitMs, .read], checked.left, some (.error e)⟩
        | some (.ok more) =>
          let parsed := parse env t.reception more checked.left
          (callbackLoop env parsed.left turns).after (checked.acts ++ .poll waitMs :: .read :: parsed.acts)

structure NotifMembers where
  rx : RxBuffer := {}
  queue : NotifQueue := {}

structure CallbackCall where
  fd : Int
  reception : Reception
  turns : List CallbackTurn

/-- `on_notification_ready`; the locals of a call start empty. -/
def onNotificationReady (cfg : ClientConfig) (xml : XmlParser) (m : NotifMembers) (call : CallbackCall) : CallbackEnd :=
  let env : CallbackEnv := ⟨cfg, xml, call.fd⟩
  let c : Callback := { rx := m.rx, sink := { queue := m.queue } }
  let r : CallbackEnd := match
      (readCurrentlyAvailable call.reception.handles call.fd call.reception.reads).outcome with
    | none => ⟨[.read], c, none⟩
    | some (.error e) => ⟨[.read], c, some (.error e)⟩
    | some (.ok bytes) =>
      let parsed := parse env call.reception bytes c
      (callbackLoop env parsed.left call.turns).after (.read :: parsed.acts)
  { r with outcome := rethrow "Unable to read from channel: " r.outcome }

def CallbackEnd.members (r : CallbackEnd) : NotifMembers where
  rx := r.left.rx
  queue := r.left.sink.queue

/-- Call after call; behind one that has not ended there is none. -/
def runCallbacks (cfg : ClientConfig) (xml : XmlParser) (m : NotifMembers) : List CallbackCall → List CallbackEnd
  | [] => []
  | call :: calls =>
    let r := onNotificationReady cfg xml m call
    r :: match r.outcome with
      | none => []
      | some _ => runCallbacks cfg xml r.members calls

end PyNetX
