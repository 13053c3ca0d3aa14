import PyNetX.Connecting
/-!
# MainSession — the connection of the session itself

`connect_non_blocking` and `connect_blocking` with every point at which they throw, on the members they keep their
session, channel and socket in.  What a failed call leaves there is what it had opened (`failed_connect_clean_iff`).
-/
namespace PyNetX

open Search (find)
open Throwing (Triple Keeps exec exec_tryCatch)

/-- How a connecting call ends other than by returning. -/
inductive ConnectHalt where
  | threw (what : Bytes)
  /-- It threw at a check of `connect_timeout_`, so many nanoseconds after its start. -/
  | timedOut (elapsed : Nat) (what : Bytes)
  | waits
  deriving DecidableEq

/-- A connecting function on a state `σ`. -/
abbrev Attempt (σ α : Type) := Throwing.Prog ConnectHalt σ α

/-- What a client holds of its session. -/
structure MainSession where
  isConnected : Bool := false
  isBlocking : Bool := false
  session : Option Nat := none
  channel : Option Nat := none
  socket : Int := -1
  resolvedHost : Bytes := []
  deriving DecidableEq

namespace MainSession

/-- The pointers and the descriptor, as the transport functions get them. -/
def handles (s : MainSession) : Handles where
  channel := s.channel.isSome
  session := s.session.isSome
  socket := s.socket

/-- `session_`, `channel_` and `socket_` hold nothing. -/
def Empty (s : MainSession) : Prop := s.session = none ∧ s.channel = none ∧ s.socket = -1

end MainSession

namespace Attempt

variable {σ α β : Type}

def throwIf (c : Bool) (what : Bytes) : Attempt σ Unit := if c then throw (.threw what) else pure ()

/-- What a call of a library gives, or an exception with its text behind `text`. -/
def demand (text : String) : Except Bytes α → Attempt σ α
  | .ok a => pure a
  | .error e => throw (.threw (ascii text ++ e))

def transport : Outcome α → Attempt σ α
  | some (.ok a) => pure a
  | some (.error e) => throw (.threw e)
  | none => throw .waits

/-- A check of `connect_timeout_`: if it comes too `late`, it throws. -/
def budget (late : Bool) (elapsed : Nat) (what : Bytes) : Attempt σ Unit :=
  if late then throw (.timedOut elapsed what) else pure ()

/-- `if (current_timeout <= 0) throw ...`. -/
def withinSeconds (cfg : ClientConfig) (elapsed : Nat) (what : Bytes) : Attempt σ Unit :=
  budget (currentTimeout cfg elapsed ≤ 0) elapsed what

/-- `if (steady_clock::now() - start_time > connect_timeout) throw ...`. -/
def withinTimeout (cfg : ClientConfig) (elapsed : Nat) (what : Bytes) : Attempt σ Unit :=
  budget (seconds cfg.connectTimeout < elapsed) elapsed what

/-- `catch (const std::exception& err)`, and the throw of another exception with `text` in front of its text. -/
def rethrowing (text : String) (x : Attempt σ α) : Attempt σ α :=
  tryCatch x (fun
    | .threw what => throw (.threw (ascii text ++ what))
    | .timedOut elapsed what => throw (.timedOut elapsed (ascii text ++ what))
    | .waits => throw .waits)

end Attempt

/-- What a call of `connect_non_blocking` meets; `socketElapsed` is the clock at the check in front of the socket. -/
structure MainScript extends ConnectScript where
  socketElapsed : Nat

/-- Where `connect_blocking` looks at `connect_timeout_`. -/
inductive BlockingStage where
  | resolution | tcp | handshake | authentication | startup

/-- What a call of `connect_blocking` meets; a call of libssh2 that fails has the session's last error. -/
structure MainBlockingScript where
  sessionInit : Option Nat
  elapsed : BlockingStage → Nat
  resolved : Except Bytes Bytes
  rawSock : Except Bytes Nat
  setsockopt : Except Bytes Unit
  inetPton : Bool
  connect : Except Bytes Unit
  handshake : Except (Option Bytes) Unit
  authentication : Except (Option Bytes) Unit
  channel : Option Nat
  startup : Except (Option Bytes) Unit
  helloAt : Nat
  hello : List ReadTurn
  helloWrites : List ChannelWrite

open Attempt
open Calls (pointer pointer_eq_ok pointer_eq_error)

namespace MainSession

/-- The `try` of `connect_non_blocking`. -/
def establishMain (cfg : ClientConfig) (w : MainScript) : Attempt MainSession Bool := do
  let rawSession ← demand "Failed to initialize libssh2 session" (pointer w.sessionInit)
  modify (fun s => { s with session := some rawSession })
  withinSeconds cfg (w.elapsed .resolving) (connectionTimedOut cfg)
  let resolvedIp ← demand "" w.resolved
  throwIf (resolvedIp = []) (ascii "Failed to resolve hostname: " ++ ascii cfg.hostname)
  modify (fun s => { s with resolvedHost := resolvedIp })
  withinSeconds cfg w.socketElapsed (connectionTimedOut cfg)
  let rawSock ← demand "Failed to create socket: " w.rawSock
  modify (fun s => { s with socket := rawSock })
  demand "Failed to set socket options: " w.setsockopt
  demand "Failed to set non-blocking mode: " w.fcntl
  throwIf (¬ w.inetPton) (ascii "Invalid IP address: " ++ resolvedIp)
  demand "Connection failed: " w.connect
  let ready ← demand "Poll error: " w.polled
  throwIf (¬ ready) (ascii "Unable to open socket for " ++ ascii cfg.hostname ++ ascii " ")
  demand "Connection failed: " w.soError
  withinSeconds cfg (w.elapsed .handshake) (connectionTimedOut cfg)
  demand "" (handshakeLoop w.handshake)
  withinSeconds cfg (w.elapsed .authentication) (connectionTimedOut cfg)
  demand "" (sshLoop "Poll error during authentication: " "Authentication failed: " w.authenticationError
    w.authentication)
  withinSeconds cfg (w.elapsed .channel) (connectionTimedOut cfg)
  let rawChannel ← demand "Failed to create channel for NETCONF" (pointer (channelLoop w.channel))
  modify (fun s => { s with channel := some rawChannel })
  withinSeconds cfg (w.elapsed .startup) (connectionTimedOut cfg)
  demand "" (sshLoop "Poll error during channel startup: " "Failed to request NETCONF subsystem: " w.startupError
    w.startup)
  let s ← get
  let serverHello ← transport (readUntilEomNonBlocking
    { chan := s.handles.channel, sess := s.handles.session, socFd := s.handles.socket, readTimeout := cfg.readTimeout }
    w.helloAt w.hello).outcome
  throwIf (find (ascii "capabilities") serverHello).isNone
    (ascii "Didn't receive proper NETCONF 'hello' message from device.")
  transport (sendClientHelloNonBlocking w.helloWrites)
  modify (fun s => { s with isConnected := true, isBlocking := false })
  return true

def connectNonBlocking (cfg : ClientConfig) (w : MainScript) : Attempt MainSession Bool := do
  let s ← get
  throwIf s.isConnected (ascii "Session already exists, possible double connection attempt")
  rethrowing "Unable to connect to device: " (establishMain cfg w)

/-- The `try` of `connect_blocking`. -/
def establishMainBlocking (cfg : ClientConfig) (w : MainBlockingScript) : Attempt MainSession Bool := do
  let rawSession ← demand "Failed to initialize libssh2 session" (pointer w.sessionInit)
  modify (fun s => { s with session := some rawSession })
  let resolvedIp ← demand "" w.resolved
  throwIf (resolvedIp = []) (ascii "Failed to resolve hostname: " ++ ascii cfg.hostname)
  withinTimeout cfg (w.elapsed .resolution) (ascii "Connection timed out during hostname resolution")
  modify (fun s => { s with resolvedHost := resolvedIp })
  let rawSock ← demand "Failed to create socket: " w.rawSock
  modify (fun s => { s with socket := rawSock })
  demand "Failed to set socket options: " w.setsockopt
  throwIf (¬ w.inetPton) (ascii "Invalid IP address: " ++ resolvedIp)
  demand "Connection failed: " w.connect
  withinTimeout cfg (w.elapsed .tcp) (ascii "Connection timed out during TCP connection")
  demand "SSH handshake failed: " (w.handshake.mapError lastError)
  withinTimeout cfg (w.elapsed .handshake) (ascii "Connection timed out during SSH handshake")
  demand "Authentication failed: " (w.authentication.mapError lastError)
  withinTimeout cfg (w.elapsed .authentication) (ascii "Connection timed out during authentication")
  let rawChannel ← demand "Failed to create channel for NETCONF" (pointer w.channel)
  modify (fun s => { s with channel := some rawChannel })
  demand "Failed to request NETCONF subsystem: " (w.startup.mapError lastError)
  withinTimeout cfg (w.elapsed .startup) (ascii "Connection timed out during subsystem startup")
  let s ← get
  let serverHello ← transport (readUntilEomBlocking s.handles.channel cfg.readTimeout w.helloAt w.hello).outcome
  throwIf (find (ascii "capabilities") serverHello).isNone
    (ascii "Didn't receive proper NETCONF 'hello' message from device.")
  transport (sendClientHelloBlocking w.helloWrites)
  modify (fun s => { s with isBlocking := true, isConnected := true })
  return true

def connectBlocking (cfg : ClientConfig) (w : MainBlockingScript) : Attempt MainSession Bool := do
  let s ← get
  throwIf s.isConnected (ascii "Session already exists, possible double connection attempt")
  rethrowing "Unable to connect to device: " (establishMainBlocking cfg w)

end MainSession

/-! ## What a failed call leaves -/

namespace Attempt

variable {σ α : Type} {I : σ → Prop}

theorem throwIf_keeps {c : Bool} {what : Bytes} : Keeps I (throwIf c what) := by
  unfold throwIf
  split
  · exact Keeps.throw
  · exact Keeps.pure

theorem budget_keeps {late : Bool} {elapsed : Nat} {what : Bytes} : Keeps I (budget late elapsed what) := by
  unfold budget
  split
  · exact Keeps.throw
  · exact Keeps.pure

theorem withinSeconds_keeps {cfg : ClientConfig} {elapsed : Nat} {what : Bytes} :
    Keeps I (withinSeconds cfg elapsed what) := budget_keeps

theorem withinTimeout_keeps {cfg : ClientConfig} {elapsed : Nat} {what : Bytes} :
    Keeps I (withinTimeout cfg elapsed what) := budget_keeps

theorem demand_keeps {text : String} {o : Except Bytes α} : Keeps I (demand text o) := by
  cases o with
  | ok a => exact Keeps.pure
  | error e => exact Keeps.throw

theorem demand_bind {β : Type} {text : String} {o : Except Bytes α} {f : α → Attempt σ β} {P : σ → Prop}
    {Q : β → σ → Prop} {E : ConnectHalt → σ → Prop} (hgo : ∀ a, o = .ok a → Triple P (f a) Q E)
    (hthrow : ∀ e, o = .error e → ∀ s, P s → E (.threw (ascii text ++ e)) s) : Triple P (demand text o >>= f) Q E := by
  cases o with
  | ok a => exact hgo a rfl
  | error e => exact hthrow e rfl

theorem transport_keeps {o : Outcome α} : Keeps I (transport o) := by
  rcases o with _ | e | a
  · exact Keeps.throw
  · exact Keeps.throw
  · exact Keeps.pure

/-- What holds where an exception was thrown holds where it is thrown again. -/
theorem rethrowing_triple {text : String} {x : Attempt σ α} {P : σ → Prop} {Q : α → σ → Prop}
    (h : Triple P x Q (fun _ => I)) : Triple P (rethrowing text x) Q (fun _ => I) := by
  refine Triple.tryCatch h (fun halt => ?_)
  cases halt with
  | threw what | timedOut elapsed what | waits => exact Triple.throw (fun _ hs => hs)

end Attempt

namespace MainSession

/-- A client without a session. -/
def Fresh (s : MainSession) : Prop := s.Empty ∧ s.isConnected = false

/-- A session has been opened, and the client is not connected. -/
def Opened (s : MainSession) : Prop := s.session.isSome = true ∧ s.isConnected = false

/-- What is left where the call threw: nothing if it could not open a session, and that session if it could. -/
def LeftBy (sessionInit : Option Nat) (s : MainSession) : Prop :=
  s.isConnected = false ∧ (s.Empty ↔ sessionInit = none)

theorem Opened.leftBy {s : MainSession} {sessionInit : Option Nat} (h : s.Opened) (hinit : sessionInit.isSome = true) :
    s.LeftBy sessionInit := by
  refine ⟨h.2, iff_of_false (fun hempty => ?_) (Option.isSome_iff_ne_none.1 hinit)⟩
  rw [Opened, hempty.1] at h
  cases h.1

/-- A session is opened first; behind it every throw leaves it open. -/
theorem opening_triple {text : String} {sessionInit : Option Nat} {rest : Attempt MainSession Bool}
    (h : Triple Opened rest (fun _ _ => True) (fun _ => Opened)) :
    Triple Fresh
      (demand text (pointer sessionInit) >>= fun raw => modify (fun s => { s with session := some raw }) >>= fun _ => rest)
      (fun _ _ => True) (fun _ => LeftBy sessionInit) := by
  refine demand_bind (fun raw hraw => ?_) (fun e he s hs => ⟨hs.2, iff_of_true hs.1 ?_⟩)
  · have hopened : ∀ s : MainSession, s.Fresh → Opened { s with session := some raw } :=
      fun s hs => ⟨rfl, hs.2⟩
    apply Triple.modify_bind Opened hopened
    exact h.imp (fun _ hs => hs) (fun _ _ hq => hq) (fun _ s hs => hs.leftBy (pointer_eq_ok hraw))
  · exact Option.not_isSome_iff_eq_none.1 (Bool.eq_false_iff.1 (pointer_eq_error he))

theorem establishMain_triple (cfg : ClientConfig) (w : MainScript) :
    Triple Fresh (establishMain cfg w) (fun _ _ => True) (fun _ => LeftBy w.sessionInit) := by
  unfold establishMain
  apply opening_triple
  repeat' first
    | with_reducible exact Triple.modify_bind (fun _ => True) (fun _ _ => trivial) (Triple.pure (fun _ h => h))
    | with_reducible refine Keeps.bind_triple ?_ (fun _ => ?_)
  all_goals first
    | with_reducible exact demand_keeps
    | with_reducible exact throwIf_keeps
    | with_reducible exact withinSeconds_keeps
    | with_reducible exact transport_keeps
    | with_reducible exact Keeps.get
    | with_reducible refine Keeps.modify (fun _ h => ?_)
  all_goals exact h

theorem establishMainBlocking_triple (cfg : ClientConfig) (w : MainBlockingScript) :
    Triple Fresh (establishMainBlocking cfg w) (fun _ _ => True) (fun _ => LeftBy w.sessionInit) := by
  unfold establishMainBlocking
  apply opening_triple
  repeat' first
    | with_reducible exact Triple.modify_bind (fun _ => True) (fun _ _ => trivial) (Triple.pure (fun _ h => h))
    | with_reducible refine Keeps.bind_triple ?_ (fun _ => ?_)
  all_goals first
    | with_reducible exact demand_keeps
    | with_reducible exact throwIf_keeps
    | with_reducible exact withinTimeout_keeps
    | with_reducible exact transport_keeps
    | with_reducible exact Keeps.get
    | with_reducible refine Keeps.modify (fun _ h => ?_)
  all_goals exact h

/-- The check in front of the `try`, and the `catch` behind it. -/
theorem connect_triple {present text : String} {sessionInit : Option Nat} {establish : Attempt MainSession Bool}
    (h : Triple Fresh establish (fun _ _ => True) (fun _ => LeftBy sessionInit)) :
    Triple Fresh (get >>= fun s => throwIf s.isConnected (ascii present) >>= fun _ => rethrowing text establish)
      (fun _ _ => True) (fun _ => LeftBy sessionInit) := by
  refine Triple.get_bind (fun s hs => ?_)
  rw [hs.2]
  exact rethrowing_triple (h.imp (fun s' hs' => hs' ▸ hs) (fun _ _ hq => hq) (fun _ _ hleft => hleft))

/-- A call of `connect_non_blocking` or `connect_blocking`, with what it meets. -/
inductive ConnectCall where
  | nonBlocking (w : MainScript)
  | blocking (w : MainBlockingScript)

def ConnectCall.run (cfg : ClientConfig) : ConnectCall → Attempt MainSession Bool
  | .nonBlocking w => connectNonBlocking cfg w
  | .blocking w => connectBlocking cfg w

/-- What `libssh2_session_init` gives the call. -/
def ConnectCall.sessionInit : ConnectCall → Option Nat
  | .nonBlocking w => w.sessionInit
  | .blocking w => w.sessionInit

theorem ConnectCall.run_triple (cfg : ClientConfig) (call : ConnectCall) :
    Triple Fresh (call.run cfg) (fun _ _ => True) (fun _ => LeftBy call.sessionInit) := by
  cases call with
  | nonBlocking w => exact connect_triple (establishMain_triple cfg w)
  | blocking w => exact connect_triple (establishMainBlocking_triple cfg w)

/-- **A failed call leaves the client as empty as it was exactly when it could not even open a session**: what it has
opened by then stays in the members. -/
theorem failed_connect_clean_iff (cfg : ClientConfig) (call : ConnectCall) {s s' : MainSession} {halt : ConnectHalt}
    (hempty : s.Empty) (hno : s.isConnected = false) (hfailed : exec (call.run cfg) s = (.error halt, s')) :
    (s'.isConnected = false ∧ s'.Empty) ↔ call.sessionInit = none := by
  obtain ⟨hconnected, hleft⟩ := (call.run_triple cfg).threw ⟨hempty, hno⟩ hfailed
  exact (and_iff_right hconnected).trans hleft

/-- An attempt in which everything goes well, `elapsed` nanoseconds being over at every check. -/
def smooth (elapsed : Nat) : MainScript where
  sessionInit := some 1
  elapsed := fun _ => elapsed
  socketElapsed := elapsed
  resolved := .ok (ascii "10.0.0.1")
  rawSock := .ok 7
  setsockopt := .ok ()
  fcntl := .ok ()
  inetPton := true
  connect := .ok ()
  polled := .ok true
  soError := .ok ()
  handshake := [.done]
  authentication := [.done]
  authenticationError := none
  channel := [.opened 2]
  startup := [.done]
  startupError := none
  helloAt := 0
  hello := [{ read := .bytes (ascii "<hello><capabilities/></hello>]]>]]>") }]
  helloWrites := [.accepted 1000]

theorem noSession_clean :
    (exec (ConnectCall.run defaultClient (.nonBlocking { smooth 0 with sessionInit := none })) {}).2.Empty :=
  ((@failed_connect_clean_iff defaultClient (.nonBlocking { smooth 0 with sessionInit := none }) {} _
    (.threw (ascii "Unable to connect to device: Failed to initialize libssh2 session")) ⟨rfl, rfl, rfl⟩ rfl rfl).2 rfl).2

/-- **A wrong password leaves the session and the socket behind.** -/
theorem wrongPassword_not_clean :
    exec (connectNonBlocking defaultClient { smooth 0 with authentication := [.failed none] }) {} =
      (.error (.threw (ascii "Unable to connect to device: Authentication failed: Unknown error")),
        { session := some 1, socket := 7, resolvedHost := ascii "10.0.0.1" }) ∧
    ¬ ∀ (cfg : ClientConfig) (call : ConnectCall) (s s' : MainSession) (what : Bytes), s.Empty → s.isConnected = false →
      exec (call.run cfg) s = (.error (.threw what), s') → s'.isConnected = false ∧ s'.Empty := by
  have hthrew : exec (connectNonBlocking defaultClient { smooth 0 with authentication := [.failed none] }) {} =
      (.error (.threw (ascii "Unable to connect to device: Authentication failed: Unknown error")),
        { session := some 1, socket := 7, resolvedHost := ascii "10.0.0.1" }) := by decide +kernel
  refine ⟨hthrew, fun h => ?_⟩
  have hclean := h defaultClient (.nonBlocking _) {} _ _ ⟨rfl, rfl, rfl⟩ rfl hthrew
  cases hclean.2.1

end MainSession

end PyNetX
