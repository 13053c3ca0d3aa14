import PyNetX.Scanner
import PyNetX.Xml
import PyNetX.Queue
/-!
# Parser — the notification stream parser of `on_notification_ready`

The lambdas that parse `_notif_rx_buffer`, statement for statement: `processEomFrameLocked`,
`processRecoveredMissingEomLocked`, `processRxBufferLocked` with its two nested loops, and the guards'
`finalizeIncompleteLocked`.  A loop's first argument bounds its turns; `Segments` proves the bound is never reached.
-/
namespace PyNetX

open Search (find)

/-- What one callback reads and never writes: the client's configuration, the XML parser and the descriptor served. -/
structure CallbackEnv where
  cfg : ClientConfig
  xml : XmlParser
  fd : Int

/-- What the parser writes: the receive buffer, and the `Sink`. -/
structure Callback where
  rx : RxBuffer := {}
  sink : Sink := {}

def isValidNotificationDocument (xml : XmlParser) (frameWithoutEom : Bytes) : Bool :=
  let payload := trimCopy frameWithoutEom
  if payload = [] then false
  else
    match xml payload with
    | none => false
    | some doc =>
      match firstChildElement doc with
      | none => false
      | some (name, _) => decide (xmlLocalName name = notificationName)

def emptyFrameMessage : String := "Received NETCONF EOM marker without notification payload; dropped empty frame"

def malformedFrameMessage : String :=
  "Received EOM-delimited data that is not a valid NETCONF notification; queued malformed frame"

def recoveredMessage : String :=
  "Recovered complete notification XML without NETCONF EOM before the next notification; queued recovered frame"

def orphanMessage : String :=
  "Received orphan notification bytes before a notification start tag; dropped orphan fragment"

def abandonedMessage : String :=
  "Received a new notification start before the previous notification was completed; queued abandoned partial notification"

def sizeGuardMessage : String :=
  "Received notification bytes without NETCONF EOM; size guard fired and queued partial notification"

def timeoutGuardMessage : String :=
  "Received notification bytes without NETCONF EOM; timeout guard fired and queued partial notification"

def processEomFrameLocked (env : CallbackEnv) (frameWithoutEom : Bytes) (s : Sink) : Sink :=
  let trimmed := trimCopy frameWithoutEom
  let frameBytes : Int := frameWithoutEom.length
  if trimmed = [] then
    addDiagnosticEventLocked env.cfg env.fd .malformedNotification emptyFrameMessage frameBytes false s
  else
    let malformed := !isValidNotificationDocument env.xml frameWithoutEom
    let s := if malformed then
      addDiagnosticEventLocked env.cfg env.fd .malformedNotification malformedFrameMessage frameBytes false s else s
    enqueueOrDropLocked env.cfg env.fd (frameWithoutEom ++ eom) (if malformed then frameBytes else 0) s

def processRecoveredMissingEomLocked (env : CallbackEnv) (frameWithoutEom : Bytes) (s : Sink) : Sink :=
  let frameBytes : Int := frameWithoutEom.length
  enqueueOrDropLocked env.cfg env.fd frameWithoutEom frameBytes
    (addDiagnosticEventLocked env.cfg env.fd .malformedNotification recoveredMessage frameBytes false s)

/-- The inner `while` of `process_rx_buffer_locked`: every frame that a marker ends, and whether there was one. -/
def processEomFramesLocked (env : CallbackEnv) : Nat → Callback → Bool → Callback × Bool
  | 0, c, progressed => (c, progressed)
  | n + 1, c, progressed =>
    match find eom c.rx.bytes with
    | none => (c, progressed)
    | some eomPos =>
      let frame := c.rx.bytes.take eomPos
      processEomFramesLocked env n
        { rx := { c.rx with bytes := c.rx.bytes.drop (eomPos + eomLen), partialTimerActive := false }
          sink := processEomFrameLocked env frame c.sink } true

/-- What stands behind the inner `while`: the look-ahead for a next start tag; `true` is `continue`. -/
def processLookaheadLocked (env : CallbackEnv) (c : Callback) (progressed : Bool) : Callback × Bool :=
  match findNotificationStartTag c.rx.bytes 0 with
  | none => (c, progressed)
  | some notificationStart =>
    match notificationEndAfterStart c.rx.bytes notificationStart with
    | some notificationEnd =>
      match findNotificationStartTag c.rx.bytes notificationEnd with
      | some _ =>
        ({ rx := { c.rx with bytes := c.rx.bytes.drop notificationEnd, partialTimerActive := false }
           sink := processRecoveredMissingEomLocked env (c.rx.bytes.take notificationEnd) c.sink }, true)
      | none => (c, progressed)
    | none =>
      match findNotificationStartTag c.rx.bytes (notificationStart + 1) with
      | some nextNotification =>
        let abandonedPartial := c.rx.bytes.take nextNotification
        let partialBytes : Int := abandonedPartial.length
        ({ rx := { c.rx with bytes := c.rx.bytes.drop nextNotification, partialTimerActive := false }
           sink := enqueueOrDropLocked env.cfg env.fd abandonedPartial partialBytes
             (addDiagnosticEventLocked env.cfg env.fd .incompleteNotification abandonedMessage partialBytes true
               c.sink) }, true)
      | none => (c, progressed)

/-- One turn of `while (progressed)`, and whether there is another one. -/
def processRxTurnLocked (env : CallbackEnv) (c : Callback) : Callback × Bool :=
  if c.rx.bytes = [] then ({ c with rx := { c.rx with partialTimerActive := false } }, false)
  else
    let orphan := match findNotificationStartTag c.rx.bytes 0 with
      | some firstNotification =>
        if 0 < firstNotification ∧ ¬ benignNotificationPrefix (c.rx.bytes.take firstNotification) then
          some firstNotification else none
      | none => none
    match orphan with
    | some firstNotification =>
      ({ rx := { c.rx with bytes := c.rx.bytes.drop firstNotification, partialTimerActive := false }
         sink := addDiagnosticEventLocked env.cfg env.fd .malformedNotification orphanMessage
           (c.rx.bytes.take firstNotification).length false c.sink }, true)
    | none =>
      let (c, progressed) := processEomFramesLocked env (c.rx.bytes.length + 1) c false
      if c.rx.bytes = [] then ({ c with rx := { c.rx with partialTimerActive := false } }, false)
      else processLookaheadLocked env c progressed

/-- `while (progressed)`. -/
def processRxLoopLocked (env : CallbackEnv) : Nat → Callback → Callback
  | 0, c => c
  | n + 1, c =>
    match processRxTurnLocked env c with
    | (c, true) => processRxLoopLocked env n c
    | (c, false) => c

/-- `process_rx_buffer_locked`; `now` is the clock's reading should the partial timer start. -/
def processRxBufferLocked (env : CallbackEnv) (now : Nat) (c : Callback) : Callback :=
  let c := processRxLoopLocked env (c.rx.bytes.length + 1) c
  if c.rx.bytes = [] then { c with rx := { c.rx with partialTimerActive := false } }
  else if ¬ c.rx.partialTimerActive then
    { c with rx := { c.rx with partialTimerActive := true, partialStartedAt := now } }
  else c

/-- `_notif_rx_buffer.append(bytes)`. -/
def Callback.append (c : Callback) (bytes : Bytes) : Callback := { c with rx := { c.rx with bytes := c.rx.bytes ++ bytes } }

def partialSizeLimitReachedLocked (cfg : ClientConfig) (rx : RxBuffer) : Bool :=
  if cfg.notifIncompleteMaxKb ≤ 0 ∨ rx.bytes = [] then false
  else decide (cfg.notifIncompleteMaxKb.toNat * 1024 ≤ rx.bytes.length)

def partialTimeoutReachedLocked (cfg : ClientConfig) (now : Nat) (rx : RxBuffer) : Bool :=
  if cfg.notifIncompleteTimeout ≤ 0 ∨ ¬ rx.partialTimerActive ∨ rx.bytes = [] then false
  else decide (seconds cfg.notifIncompleteTimeout ≤ now - rx.partialStartedAt)

def finalizeIncompleteLocked (env : CallbackEnv) (reason : String) (c : Callback) : Callback :=
  if c.rx.bytes = [] then { c with rx := { c.rx with partialTimerActive := false } }
  else
    let partialBytes : Int := c.rx.bytes.length
    { rx := { c.rx with bytes := [], partialTimerActive := false }
      sink := enqueueOrDropLocked env.cfg env.fd c.rx.bytes partialBytes
        (addDiagnosticEventLocked env.cfg env.fd .incompleteNotification reason partialBytes true c.sink) }

end PyNetX
