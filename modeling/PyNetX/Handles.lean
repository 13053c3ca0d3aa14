import PyNetX.Lib.Run
import Mathlib.Logic.Function.Basic
/-!
# Handles — the libssh2 handles that a client holds

`session_` with `channel_` and `notif_session_` with `notif_channel_` are replaced one by one by
`std::unique_ptr::reset`, which frees the handle that was there.  One call at a time works on them under
`session_mutex_`, and `mark_notification_dead` may come between any two of its steps.
-/
namespace PyNetX

/-- Which of the two sessions of a client: of its RPCs, or of its notifications. -/
inductive Side where
  | rpc | notification
  deriving DecidableEq

/-- `session_` and `channel_`, or `notif_session_` and `notif_channel_`. -/
structure HandlePair where
  session : Option Nat := none
  channel : Option Nat := none

inductive Connect where
  | nonBlocking | blocking | notificationNonBlocking | notificationBlocking
  deriving DecidableEq

def Connect.side : Connect → Side
  | .nonBlocking | .blocking => .rpc
  | .notificationNonBlocking | .notificationBlocking => .notification

inductive Handle where
  | session (k : Nat)
  | channel (c : Nat)
  deriving DecidableEq

/-- What libssh2 has given out, every handle under a number of its own: how many handles, which session a channel was
opened on, and what was passed to its free function, in order. -/
structure Libssh2 where
  given : Nat := 0
  openedOn : Nat → Option Nat := fun _ => none
  freed : List Handle := []

namespace Libssh2

/-- `libssh2_session_init`; its handle is the old `given`. -/
def sessionInit (ssh : Libssh2) : Libssh2 := { ssh with given := ssh.given + 1 }

/-- `libssh2_channel_open_session` on session `k`; its handle is the old `given`. -/
def channelOpenSession (ssh : Libssh2) (k : Nat) : Libssh2 :=
  { ssh with given := ssh.given + 1, openedOn := Function.update ssh.openedOn ssh.given (some k) }

/-- `Libssh2SessionDeleter` and `Libssh2ChannelDeleter`. -/
def free (ssh : Libssh2) (h : Option Handle) : Libssh2 := { ssh with freed := ssh.freed ++ h.toList }

end Libssh2

inductive HandlePc where
  | idle
  /-- In front of the check of the connection flag. -/
  | check (f : Connect)
  | init (f : Connect)
  /-- Between `libssh2_session_init` and `libssh2_channel_open_session`. -/
  | openChannel (f : Connect)
  /-- With a channel in hand, in front of the `reset` that stores it. -/
  | store (f : Connect) (raw : Nat)
  /-- In front of the subsystem and the hellos. -/
  | finish (f : Connect)
  /-- In the function's `catch`. -/
  | caught (f : Connect)
  | caughtChannel
  /-- The rest of a `subscribe`: the request, the registration and the flag. -/
  | request (f : Connect)
  /-- In the `catch` of `subscribe_non_blocking`. -/
  | failed
  /-- In `disconnect`, called by the destructor if `destroy`. -/
  | disconnectChannel (destroy : Bool)
  | disconnectSession (destroy : Bool)
  | disconnectNotification (destroy : Bool)
  | disconnectFlags (destroy : Bool)
  /-- The client is destroyed. -/
  | gone
  deriving DecidableEq

/-- A client's handles, its `is_connected_` and `notif_is_connected_`, libssh2, and the call that is on. -/
structure HandleRun where
  pairs : Side → HandlePair := fun _ => {}
  connected : Side → Bool := fun _ => false
  ssh : Libssh2 := {}
  call : HandlePc := .idle

/-- The turns: a call takes `session_mutex_`, its next step goes well or not, and `mark_notification_dead`, for
`delete_subscription` or for a reactor's thread. -/
inductive HandleTurn where
  | connect (f : Connect)
  | disconnect (destroy : Bool)
  | go (ok : Bool)
  | mark

namespace HandleRun

def goto (s : HandleRun) (pc : HandlePc) : HandleRun := { s with call := pc }

def setConnected (s : HandleRun) (side : Side) (b : Bool) : HandleRun :=
  { s with connected := Function.update s.connected side b }

/-- `session_.reset(raw)`. -/
def resetSession (s : HandleRun) (side : Side) (raw : Option Nat) : HandleRun :=
  { s with
    pairs := Function.update s.pairs side { s.pairs side with session := raw }
    ssh := s.ssh.free ((s.pairs side).session.map .session) }

/-- `channel_.reset(raw)`. -/
def resetChannel (s : HandleRun) (side : Side) (raw : Option Nat) : HandleRun :=
  { s with
    pairs := Function.update s.pairs side { s.pairs side with channel := raw }
    ssh := s.ssh.free ((s.pairs side).channel.map .channel) }

/-- `mark_notification_dead`, its section under `notif_mutex_`. -/
def markNotificationDead (s : HandleRun) : HandleRun :=
  ((s.setConnected .notification false).resetChannel .notification none).resetSession .notification none

def callStep (s : HandleRun) (ok : Bool) : HandleRun :=
  match s.call with
  | .idle | .gone => s
  | .check f =>
    if s.connected f.side then
      -- only `subscribe_non_blocking` calls its function inside its own `try`
      s.goto (if f = .notificationNonBlocking then .failed else .idle)
    else s.goto (.init f)
  | .init f =>
    if ok then
      (resetSession { s with ssh := s.ssh.sessionInit } f.side (some s.ssh.given)).goto (.openChannel f)
    else s.goto (.caught f)
  | .openChannel f =>
    match (s.pairs f.side).session, ok with
    | some k, true => goto { s with ssh := s.ssh.channelOpenSession k } (.store f s.ssh.given)
    | _, _ => s.goto (.caught f)
  | .store f raw => (s.resetChannel f.side (some raw)).goto (.finish f)
  | .finish f =>
    if ok then
      match f with
      | .nonBlocking | .blocking => (s.setConnected .rpc true).goto .idle
      | .notificationNonBlocking => (s.setConnected .notification false).goto (.request f)
      | .notificationBlocking => (s.setConnected .notification true).goto (.request f)
    else s.goto (.caught f)
  | .caught f =>
    match f with
    | .nonBlocking | .blocking => s.goto .idle
    | .notificationNonBlocking => s.goto .failed
    | .notificationBlocking => (s.resetSession .notification none).goto .caughtChannel
  | .caughtChannel => (s.resetChannel .notification none).goto .idle
  | .request f =>
    if f = .notificationNonBlocking then
      if ok then (s.setConnected .notification true).goto .idle else s.goto .failed
    else s.goto .idle
  | .failed => s.markNotificationDead.goto .idle
  | .disconnectChannel destroy => (s.resetChannel .rpc none).goto (.disconnectSession destroy)
  | .disconnectSession destroy => (s.resetSession .rpc none).goto (.disconnectNotification destroy)
  | .disconnectNotification destroy => s.markNotificationDead.goto (.disconnectFlags destroy)
  | .disconnectFlags destroy => (s.setConnected .rpc false).goto (if destroy then .gone else .idle)

def step (s : HandleRun) : HandleTurn → HandleRun
  | .connect f => if s.call = .idle then s.goto (.check f) else s
  | .disconnect destroy => if s.call = .idle then s.goto (.disconnectChannel destroy) else s
  | .go ok => s.callStep ok
  | .mark => if s.call = .gone then s else s.markNotificationDead

end HandleRun

def runHandles (turns : List HandleTurn) : HandleRun := Run.run HandleRun.step {} turns

end PyNetX
