import PyNetX.Lib.Throwing
import PyNetX.Manager
import PyNetX.Queue
import PyNetX.Rpc
/-!
# Connecting — the notification session, step by step

`connect_notification_non_blocking` and `connect_notification_blocking` with every point at which they throw; what the
libraries and the kernel come to in each call is a script.
-/
namespace PyNetX

open Search (find)

/-- What a client holds of its notification session, and the manager that all clients share. -/
structure NotifSession where
  notifIsConnected : Bool := false
  notifIsBlocking : Bool := false
  session : Option Nat := none
  channel : Option Nat := none
  socket : Int := -1
  resolvedHost : Bytes := []
  queue : NotifQueue := {}
  rx : RxBuffer := {}
  manager : Manager := {}

/-- How a call does not return: with an exception, never (it waits for what its script does not have), or by reading
behind the end of `reactors_`. -/
inductive Halt where
  | threw (what : Bytes)
  | waits
  | undefined
  deriving DecidableEq

/-- A function that works on a notification session and may throw. -/
abbrev Calls (α : Type) := Throwing.Prog Halt NotifSession α

namespace Calls

def throwIf (c : Bool) (what : Bytes) : Calls Unit := if c then throw (.threw what) else pure ()

/-- What a call of a library gives, or an exception with its text behind `text`. -/
def demand {α : Type} (text : String) : Except Bytes α → Calls α
  | .ok a => pure a
  | .error e => throw (.threw (ascii text ++ e))

def pointer (raw : Option Nat) : Except Bytes Nat := raw.elim (.error []) .ok

def transport {α : Type} : Outcome α → Calls α
  | some (.ok a) => pure a
  | some (.error e) => throw (.threw e)
  | none => throw .waits

/-- `catch (const std::exception& e)`. -/
def catching {α : Type} (x : Calls α) (handler : Bytes → Calls α) : Calls α :=
  tryCatch x (fun
    | .threw what => handler what
    | halt => throw halt)

end Calls

section

open Throwing (Triple Keeps exec exec_tryCatch)

variable {α β : Type} {P : NotifSession → Prop} {Q : β → NotifSession → Prop} {E E' : Halt → NotifSession → Prop}
  {f : α → Calls β}

theorem Calls.exec_throwIf_bind (c : Bool) (what : Bytes) (f : Unit → Calls β) (s : NotifSession) :
    exec (Calls.throwIf c what >>= f) s = if c then (.error (.threw what), s) else exec (f ()) s := by
  cases c <;> rfl

theorem Calls.exec_transport_bind (o : Outcome α) (f : α → Calls β) (s : NotifSession) :
    exec (Calls.transport o >>= f) s =
      match o with
      | some (.ok a) => exec (f a) s
      | some (.error e) => (.error (.threw e), s)
      | none => (.error .waits, s) := by
  rcases o with _ | _ | _ <;> rfl

theorem Calls.exec_catching (x : Calls β) (handler : Bytes → Calls β) (s : NotifSession) :
    exec (Calls.catching x handler) s =
      match exec x s with
      | (.error (.threw what), s') => exec (handler what) s'
      | r => r := by
  rw [Calls.catching, exec_tryCatch]
  rcases exec x s with ⟨(_ | _ | _) | _, s'⟩ <;> rfl

theorem Calls.throwIf_bind {c : Bool} {what : Bytes} {f : Unit → Calls β}
    (hgo : c = false → Triple P (f ()) Q E) (hthrow : c = true → ∀ s, P s → E (.threw what) s) :
    Triple P (Calls.throwIf c what >>= f) Q E := by
  cases c with
  | false => exact hgo rfl
  | true => exact hthrow rfl

theorem Calls.demand_bind {text : String} {o : Except Bytes α} (hgo : ∀ a, o = .ok a → Triple P (f a) Q E)
    (hthrow : ∀ e, o = .error e → ∀ s, P s → E (.threw (ascii text ++ e)) s) :
    Triple P (Calls.demand text o >>= f) Q E := by
  cases o with
  | ok a => exact hgo a rfl
  | error e => exact hthrow e rfl

theorem Calls.pointer_eq_error {raw : Option Nat} {e : Bytes} (h : Calls.pointer raw = .error e) : raw.isSome = false := by
  cases raw with
  | none => rfl
  | some p => cases h

theorem Calls.pointer_eq_ok {raw : Option Nat} {p : Nat} (h : Calls.pointer raw = .ok p) : raw.isSome = true := by
  cases raw with
  | none => cases h
  | some p => rfl

theorem Calls.transport_bind {o : Outcome α} (hgo : ∀ a, o = some (.ok a) → Triple P (f a) Q E)
    (hthrow : ∀ e, o = some (.error e) → ∀ s, P s → E (.threw e) s) (hwaits : o = none → ∀ s, P s → E .waits s) :
    Triple P (Calls.transport o >>= f) Q E := by
  rcases o with _ | e | a
  · exact hwaits rfl
  · exact hthrow e rfl
  · exact hgo a rfl

theorem Calls.catching_triple {x : Calls β} {handler : Bytes → Calls β} (hx : Triple P x Q E)
    (hhandler : ∀ what, Triple (E (.threw what)) (handler what) Q E')
    (hhalt : ∀ halt s, (∀ what, halt ≠ .threw what) → E halt s → E' halt s) : Triple P (Calls.catching x handler) Q E' := by
  refine hx.tryCatch (fun halt => ?_)
  cases halt with
  | threw what => exact hhandler what
  | waits => exact Triple.throw (hhalt .waits · nofun)
  | undefined => exact Triple.throw (hhalt .undefined · nofun)

variable {I : NotifSession → Prop}

theorem Calls.throwIf_keeps {c : Bool} {what : Bytes} : Keeps I (Calls.throwIf c what) := by
  unfold Calls.throwIf
  split
  · exact Keeps.throw
  · exact Keeps.pure

theorem Calls.demand_keeps {text : String} {o : Except Bytes α} : Keeps I (Calls.demand text o) := by
  cases o with
  | ok a => exact Keeps.pure
  | error e => exact Keeps.throw

theorem Calls.transport_keeps {o : Outcome α} : Keeps I (Calls.transport o) := by
  rcases o with _ | e | a
  · exact Keeps.throw
  · exact Keeps.throw
  · exact Keeps.pure

theorem Calls.catching_keeps {x : Calls α} {handler : Bytes → Calls α} (hx : Keeps I x)
    (hhandler : ∀ what, Keeps I (handler what)) : Keeps I (Calls.catching x handler) := by
  refine hx.tryCatch (fun halt => ?_)
  cases halt with
  | threw what => exact hhandler what
  | waits => exact Keeps.throw
  | undefined => exact Keeps.throw

end

namespace NotifSession

/-- The pointers and the descriptor, as the transport functions get them. -/
def handles (s : NotifSession) : Handles where
  channel := s.channel.isSome
  session := s.session.isSome
  socket := s.socket

/-- `notif_socket_.reset(fd)`: the old descriptor is closed. -/
def resetSocket (s : NotifSession) (fd : Int) : NotifSession :=
  { s with
    socket := fd
    manager := if 0 ≤ s.socket then s.manager.socketClosed s.socket else s.manager }

/-- `notif_session_.reset()`, `notif_channel_.reset()` and `notif_socket_.reset()`. -/
def resetHandles (s : NotifSession) : NotifSession := { s with session := none, channel := none }.resetSocket (-1)

end NotifSession

def buildClientHello : Bytes :=
  ascii ("<?xml version=\"1.0\" encoding=\"UTF-8\"?>" ++
    "<hello xmlns=\"urn:ietf:params:xml:ns:netconf:base:1.0\">" ++ "<capabilities>" ++
    "<capability>urn:ietf:params:netconf:base:1.0</capability>" ++ "</capabilities>" ++ "</hello>" ++ "]]>]]>")

def sendClientHelloNonBlocking (writes : List ChannelWrite) : Outcome Unit :=
  rethrow "Error occured sending hello message: "
    (writeLoop "Poll error during send_client_hello: " "Failed to send client <hello>: " buildClientHello writes).outcome

def sendClientHelloBlocking (writes : List ChannelWrite) : Outcome Unit :=
  rethrow "Error occured while sending hello message: "
    (writeOnce "Failed to send client <hello>: " buildClientHello writes).outcome

/-! ## The loops of the non-blocking connection; a script that ends is a loop whose time is over -/

inductive HandshakeTurn where
  | pollFailed (strerror : Bytes)
  | pollTimeout
  | eagain
  | failed (errMsg : Option Bytes)
  | done

def handshakeLoop : List HandshakeTurn → Except Bytes Unit
  | [] => .error (ascii "SSH handshake timed out")
  | .pollFailed e :: _ => .error (ascii "Poll error during handshake: " ++ e)
  | .pollTimeout :: turns | .eagain :: turns => handshakeLoop turns
  | .failed e :: _ => .error (ascii "SSH handshake failed: " ++ lastError e)
  | .done :: _ => .ok ()

/-- A turn of the loops that authenticate and that start the subsystem. -/
inductive SshTurn where
  | pollFailed (strerror : Bytes)
  | eagain
  | failed (errMsg : Option Bytes)
  | done

/-- `while (rc == LIBSSH2_ERROR_EAGAIN && ...)`; `errMsg` is the session's last error when the time is over. -/
def sshLoop (pollText failText : String) (errMsg : Option Bytes) : List SshTurn → Except Bytes Unit
  | [] => .error (ascii failText ++ lastError errMsg)
  | .pollFailed e :: _ => .error (ascii pollText ++ e)
  | .eagain :: turns => sshLoop pollText failText errMsg turns
  | .failed e :: _ => .error (ascii failText ++ lastError e)
  | .done :: _ => .ok ()

/-- A turn of the loop that opens the channel. -/
inductive ChannelTurn where
  | eagain
  | failed
  | opened (raw : Nat)

def channelLoop : List ChannelTurn → Option Nat
  | [] | .failed :: _ => none
  | .eagain :: turns => channelLoop turns
  | .opened raw :: _ => some raw

/-- Where `connect_timeout_` is looked at. -/
inductive Stage where
  | resolving | handshake | authentication | channel | startup

structure ConnectScript where
  sessionInit : Option Nat
  elapsed : Stage → Nat
  resolved : Except Bytes Bytes
  rawSock : Except Bytes Nat
  setsockopt : Except Bytes Unit
  fcntl : Except Bytes Unit
  inetPton : Bool
  connect : Except Bytes Unit
  /-- Whether the socket was ready in time. -/
  polled : Except Bytes Bool
  soError : Except Bytes Unit
  handshake : List HandshakeTurn
  authentication : List SshTurn
  authenticationError : Option Bytes
  channel : List ChannelTurn
  startup : List SshTurn
  startupError : Option Bytes
  helloAt : Nat
  hello : List ReadTurn
  helloWrites : List ChannelWrite

/-- `current_timeout`, in seconds. -/
def currentTimeout (cfg : ClientConfig) (elapsed : Nat) : Int :=
  (cfg.connectTimeout * 1000000000 - elapsed).tdiv 1000000000

def connectionTimedOut (cfg : ClientConfig) : Bytes :=
  ascii "Connection failed to " ++ ascii cfg.hostname ++ ascii " try increasing connection timeout"

open Calls

/-- The `try` of `connect_notification_non_blocking`. -/
def establishNonBlocking (cfg : ClientConfig) (w : ConnectScript) : Calls Bool := do
  let rawSession ← demand "Failed to initialize libssh2 session" (pointer w.sessionInit)
  modify (fun s => { s with session := some rawSession })
  throwIf (currentTimeout cfg (w.elapsed .resolving) ≤ 0) (ascii "Connection timed out resolving " ++ ascii cfg.hostname)
  let resolved ← demand "" w.resolved
  modify (fun s => { s with resolvedHost := resolved })
  throwIf (resolved = []) (ascii "Failed to resolve hostname: " ++ ascii cfg.hostname)
  let rawSock ← demand "Failed to create socket: " w.rawSock
  modify (fun s => s.resetSocket rawSock)
  demand "Failed to set SO_REUSEADDR: " w.setsockopt
  demand "Failed to set non-blocking mode: " w.fcntl
  throwIf (¬ w.inetPton) (ascii "Invalid IP address: " ++ resolved)
  demand "Connection failed: " w.connect
  let ready ← demand "Poll error: " w.polled
  throwIf (¬ ready) (ascii "Timeout establishing TCP connection")
  demand "TCP connect failed: " w.soError
  throwIf (currentTimeout cfg (w.elapsed .handshake) ≤ 0) (connectionTimedOut cfg)
  demand "" (handshakeLoop w.handshake)
  throwIf (currentTimeout cfg (w.elapsed .authentication) ≤ 0) (connectionTimedOut cfg)
  demand "" (sshLoop "Poll error during authentication: " "Authentication failed: " w.authenticationError
    w.authentication)
  throwIf (currentTimeout cfg (w.elapsed .channel) ≤ 0) (connectionTimedOut cfg)
  let rawChannel ← demand "Failed to create channel for NETCONF" (pointer (channelLoop w.channel))
  modify (fun s => { s with channel := some rawChannel })
  throwIf (currentTimeout cfg (w.elapsed .startup) ≤ 0) (connectionTimedOut cfg)
  demand "" (sshLoop "Poll error during channel startup: " "Failed to request NETCONF subsystem: " w.startupError
    w.startup)
  let s ← get
  let serverHello ← transport (readUntilEomNonBlocking
    { chan := s.handles.channel, sess := s.handles.session, socFd := s.handles.socket, readTimeout := cfg.readTimeout }
    w.helloAt w.hello).outcome
  throwIf (find (ascii "capabilities") serverHello).isNone (ascii "Invalid NETCONF <hello> from server")
  transport (sendClientHelloNonBlocking w.helloWrites)
  modify (fun s => { s with notifIsConnected := false, notifIsBlocking := false })
  return true

def connectNotificationNonBlocking (cfg : ClientConfig) (w : ConnectScript) : Calls Bool := do
  let s ← get
  throwIf s.notifIsConnected (ascii "Session already exists, possible double connection attempt")
  catching (establishNonBlocking cfg w) (fun what => throw (.threw (ascii "Unable to connect to device: " ++ what)))

structure BlockingScript where
  sessionInit : Option Nat
  resolved : Except Bytes Bytes
  rawSock : Except Bytes Nat
  inetPton : Bool
  connect : Except Bytes Unit
  handshake : Except Bytes Unit
  authentication : Except Bytes Unit
  channel : Option Nat
  startup : Except Bytes Unit
  helloAt : Nat
  hello : List ReadTurn
  helloWrites : List ChannelWrite

/-- **Every step of the attempt goes well**, down to the hellos. -/
structure BlockingScript.Connects (cfg : ClientConfig) (w : BlockingScript) : Prop where
  sessionInit : w.sessionInit.isSome = true
  resolved : ∃ ip, w.resolved = .ok ip ∧ ip ≠ []
  rawSock : ∃ sock, w.rawSock = .ok sock
  inetPton : w.inetPton = true
  connect : w.connect = .ok ()
  handshake : w.handshake = .ok ()
  authentication : w.authentication = .ok ()
  channel : w.channel.isSome = true
  startup : w.startup = .ok ()
  hello : ∃ serverHello, (readUntilEomBlocking true cfg.readTimeout w.helloAt w.hello).outcome = some (.ok serverHello) ∧
    (find (ascii "capabilities") serverHello).isSome = true
  sent : sendClientHelloBlocking w.helloWrites = some (.ok ())

/-- The `try` of `connect_notification_blocking`. -/
def establishBlocking (cfg : ClientConfig) (w : BlockingScript) : Calls Bool := do
  let rawSess ← demand "Failed to init libssh2 session for notifications" (pointer w.sessionInit)
  modify (fun s => { s with session := some rawSess })
  let resolvedIp ← demand "" w.resolved
  throwIf (resolvedIp = []) (ascii "Failed to resolve hostname for notifications: " ++ ascii cfg.hostname)
  let sock ← demand "Failed to create socket for notification session: " w.rawSock
  modify (fun s => s.resetSocket sock)
  throwIf (¬ w.inetPton) (ascii "Invalid IP address: " ++ resolvedIp)
  demand "Notification connect() failed: " w.connect
  demand "Notification handshake failed: " w.handshake
  demand "Notification auth failed: " w.authentication
  let rawCh ← demand "Failed to open notification channel" (pointer w.channel)
  modify (fun s => { s with channel := some rawCh })
  demand "Failed to request netconf subsystem for notifications: " w.startup
  let s ← get
  let serverHello ← transport (readUntilEomBlocking s.handles.channel cfg.readTimeout w.helloAt w.hello).outcome
  throwIf (find (ascii "capabilities") serverHello).isNone (ascii "Notification session: no valid hello from device")
  transport (sendClientHelloBlocking w.helloWrites)
  modify (fun s => { s with notifIsConnected := true, notifIsBlocking := true })
  return true

def connectNotificationBlocking (cfg : ClientConfig) (w : BlockingScript) : Calls Bool := do
  let s ← get
  throwIf s.notifIsConnected (ascii "Notification session already exists")
  catching (establishBlocking cfg w) (fun what => do
    modify NotifSession.resetHandles
    throw (.threw (ascii "Failed to establish notification session: " ++ what)))

end PyNetX
