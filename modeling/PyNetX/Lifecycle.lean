import PyNetX.Manager
/-!
# Lifecycle — subscriptions that come and go while the reactors' threads serve them

Any number of clients, each with its calls of `subscribe_non_blocking` one after another (`session_mutex_` orders them),
calls of `delete_notification_session` at any time, and the reactors' threads.  A turn is one section under a mutex, or
one step between two of them; the kernel may give the number of a closed descriptor to the next socket.
-/
namespace PyNetX

/-- An open notification socket: the client that opened it, and for which of its sessions. -/
structure File where
  client : Nat
  session : Nat

/-- What a client holds of its notification session.  Its sessions are numbered from 1 on; `generation` is the last,
`cleared` the last whose subscription has cleared the receive buffer, and a byte is the number of the session it was
read from. -/
structure NotifClient where
  session : Option Nat := none
  channel : Bool := false
  socket : Option Int := none
  connected : Bool := false
  rx : List Nat := []
  queue : List Nat := []
  generation : Nat := 0
  cleared : Nat := 0

/-- The newest session, if the client holds anything of one. -/
def NotifClient.held (c : NotifClient) : Option Nat :=
  if c.session.isSome ∨ c.channel ∨ c.socket.isSome then some c.generation else none

/-- An event of `epoll_wait`, and the socket it is about. -/
structure Event where
  fd : Int
  error : Bool
  file : File

/-- What a reactor's thread works on: the descriptor, its client, and the client's session that the event was of (the
newest, when the event was another client's). -/
structure InHand where
  fd : Int
  client : Nat
  since : Nat

/-- Where a reactor's thread is in `loop`, with the events of its batch that it has not looked up. -/
inductive ThreadPc where
  | poll
  | lookup (batch : List Event)
  /-- In `on_notification_ready`, in front of `read_currently_available`. -/
  | read (h : InHand) (batch : List Event)
  /-- With the bytes of a session in hand, in front of the section that appends them. -/
  | append (h : InHand) (session : Nat) (batch : List Event)
  /-- In the loop that waits for the rest. -/
  | wait (h : InHand) (batch : List Event)
  /-- In `cleanup_dead_fd`, in front of the manager's `remove`. -/
  | managerRemove (h : InHand) (batch : List Event)
  | reactorRemove (h : InHand) (batch : List Event)
  | markHandles (h : InHand) (batch : List Event)
  | markQueue (h : InHand) (batch : List Event)

def ThreadPc.inHand : ThreadPc → Option InHand
  | .poll | .lookup _ => none
  | .read h _ | .append h _ _ | .wait h _ | .managerRemove h _ | .reactorRemove h _ | .markHandles h _
  | .markQueue h _ => some h

def ThreadPc.batch : ThreadPc → List Event
  | .poll => []
  | .lookup batch | .read _ batch | .append _ _ batch | .wait _ batch | .managerRemove _ batch
  | .reactorRemove _ batch | .markHandles _ batch | .markQueue _ batch => batch

/-- Where a client's call of `subscribe_non_blocking` is. -/
inductive SubscribePc where
  | idle
  | check
  | session
  | socket
  | channel
  | reply
  | clear
  /-- In front of the reading of `notif_socket_` for `NotificationReactorManager::add`. -/
  | add
  /-- With the number that was read in hand, in front of `add`'s section under `mtx_`. -/
  | register (fd : Int)
  | flag
  /-- In the `catch`, in front of `mark_notification_dead`. -/
  | failed
  | failedQueue
  deriving DecidableEq

inductive DeletePc where
  | idle
  | readFd (c : Nat)
  | remove (c : Nat) (fd : Int)
  | markHandles (c : Nat)
  | markQueue (c : Nat)
  deriving DecidableEq

/-- A reactor's thread appended bytes of `session` when session `cleared` had cleared the buffer last. -/
structure Appended where
  client : Nat
  session : Nat
  cleared : Nat

/-- A reactor's thread marked a client dead that held something of session `held`, on an event of session `since`. -/
structure Closed where
  client : Nat
  since : Nat
  held : Option Nat

/-- The clients and their calls, the manager, the reactors' threads and the kernel's table of open sockets; and what the
threads have appended and marked dead so far. -/
structure Lifecycle where
  clients : Nat → NotifClient := fun _ => {}
  subscribes : Nat → SubscribePc := fun _ => .idle
  deletes : Nat → DeletePc := fun _ => .idle
  threads : Nat → ThreadPc := fun _ => .poll
  manager : Manager := {}
  files : Int → Option File := fun _ => none
  appended : List Appended := []
  closed : List Closed := []

namespace Lifecycle

def setClient (s : Lifecycle) (c : Nat) (x : NotifClient) : Lifecycle :=
  { s with clients := Function.update s.clients c x }

def setSubscribe (s : Lifecycle) (c : Nat) (pc : SubscribePc) : Lifecycle :=
  { s with subscribes := Function.update s.subscribes c pc }

def setDelete (s : Lifecycle) (u : Nat) (pc : DeletePc) : Lifecycle :=
  { s with deletes := Function.update s.deletes u pc }

def setThread (s : Lifecycle) (r : Nat) (pc : ThreadPc) : Lifecycle :=
  { s with threads := Function.update s.threads r pc }

/-- `notif_socket_.reset()`: the kernel takes a closed socket out of its table and of every epoll set. -/
def closeSocket (s : Lifecycle) (c : Nat) : Lifecycle :=
  match (s.clients c).socket with
  | none => s
  | some fd =>
    { s.setClient c { s.clients c with socket := none } with
      files := Function.update s.files fd none
      manager := s.manager.socketClosed fd }

/-- `mark_notification_dead`, its section under `notif_mutex_`. -/
def markHandles (s : Lifecycle) (c : Nat) : Lifecycle :=
  let s := s.closeSocket c
  s.setClient c { s.clients c with connected := false, channel := false, session := none }

/-- Its section under `_notif_queue_mtx`. -/
def markQueue (s : Lifecycle) (c : Nat) : Lifecycle := s.setClient c { s.clients c with queue := [], rx := [] }

/-- A turn of client `c`'s call of `subscribe_non_blocking`.  `ok` is whether the step goes well, `fd` what `socket()`
gives, and `created` and `kernel` what `NotificationReactorManager::add` meets. -/
def subscribeStep (s : Lifecycle) (c : Nat) (ok : Bool) (fd : Int) (created kernel : Except String Unit) : Lifecycle :=
  let x := s.clients c
  match s.subscribes c with
  | .idle => s.setSubscribe c .check
  | .check => s.setSubscribe c (if x.connected then .failed else .session)
  | .session =>
    if ok then
      (s.setClient c { x with session := some (x.generation + 1), generation := x.generation + 1 }).setSubscribe c .socket
    else s.setSubscribe c .failed
  | .socket =>
    if ok then
      if 0 ≤ fd ∧ s.files fd = none then
        let s := s.closeSocket c
        { (s.setClient c { s.clients c with socket := some fd }).setSubscribe c .channel with
          files := Function.update s.files fd (some ⟨c, x.generation⟩) }
      else s
    else s.setSubscribe c .failed
  | .channel =>
    if ok ∧ x.session.isSome then (s.setClient c { x with channel := true }).setSubscribe c .reply
    else s.setSubscribe c .failed
  | .reply =>
    -- the end of `connect_notification_non_blocking`, the checks, and the RPC
    let s := s.setClient c { x with connected := false }
    s.setSubscribe c (if ok ∧ x.channel ∧ x.session.isSome ∧ x.socket.isSome then .clear else .failed)
  | .clear => (s.setClient c { x with rx := [], cleared := x.generation }).setSubscribe c .add
  | .add => s.setSubscribe c (.register (x.socket.getD (-1)))
  | .register number =>
    match s.manager.add number (some c) created kernel with
    | (m, .returned) => { s.setSubscribe c .flag with manager := m }
    | (m, _) => { s.setSubscribe c .failed with manager := m }
  | .flag => (s.setClient c { x with connected := true }).setSubscribe c .idle
  | .failed => (s.markHandles c).setSubscribe c .failedQueue
  | .failedQueue => (s.markQueue c).setSubscribe c .idle

/-- A turn of call `u` of `delete_notification_session`, of client `c` when it begins. -/
def deleteStep (s : Lifecycle) (u c : Nat) : Lifecycle :=
  match s.deletes u with
  | .idle => s.setDelete u (.readFd c)
  | .readFd c =>
    match (s.clients c).socket with
    | some fd => s.setDelete u (.remove c fd)
    | none => s.setDelete u (.markHandles c)
  | .remove c fd => { s.setDelete u (.markHandles c) with manager := s.manager.remove fd }
  | .markHandles c => (s.markHandles c).setDelete u (.markQueue c)
  | .markQueue c => (s.markQueue c).setDelete u .idle

/-- `epoll_wait` of reactor `r` returns: of the descriptors `ready`, those that its set holds. -/
def pollStep (s : Lifecycle) (r : Nat) (ready : List (Int × Bool)) : Lifecycle :=
  match s.threads r, s.manager.reactors[r]? with
  | .poll, some reactor =>
    s.setThread r (.lookup (ready.filterMap (fun (fd, error) =>
      if fd ∈ reactor.epoll then (s.files fd).map (fun file => ⟨fd, error, file⟩) else none)))
  | _, _ => s

/-- A turn of reactor `r`'s thread.  `ok` is whether the read, or the wait, goes well, `again` whether it reads again,
and `parsed` how many bytes of the buffer are complete notifications. -/
def threadStep (s : Lifecycle) (r : Nat) (ok again : Bool) (parsed : Nat) : Lifecycle :=
  match s.threads r with
  | .poll => s
  | .lookup [] => s.setThread r .poll
  | .lookup (ev :: batch) =>
    match (s.manager.reactors[r]?).bind (fun reactor => reactor.handlers.lookup ev.fd) with
    | none => s.setThread r (.lookup batch)
    | some c =>
      let h : InHand := ⟨ev.fd, c, if ev.file.client = c then ev.file.session else (s.clients c).generation⟩
      s.setThread r (if ev.error then .managerRemove h batch else .read h batch)
  | .read h batch =>
    let x := s.clients h.client
    match x.session with
    | some session =>
      -- a read that fails, and an FD mismatch, end in `cleanup_dead_fd`
      s.setThread r (if x.channel ∧ x.socket = some h.fd ∧ ok then .append h session batch else .managerRemove h batch)
    | none => s.setThread r (.managerRemove h batch)
  | .append h session batch =>
    let x := s.clients h.client
    { (s.setClient h.client { x with
        rx := (x.rx ++ [session]).drop parsed
        queue := x.queue ++ (x.rx ++ [session]).take parsed }).setThread r (.wait h batch) with
      appended := s.appended ++ [⟨h.client, session, x.cleared⟩] }
  | .wait h batch =>
    s.setThread r (if ok = false then .managerRemove h batch else if again then .read h batch else .lookup batch)
  | .managerRemove h batch => { s.setThread r (.reactorRemove h batch) with manager := s.manager.remove h.fd }
  | .reactorRemove h batch => { s.setThread r (.markHandles h batch) with manager := s.manager.reactorRemove r h.fd }
  | .markHandles h batch =>
    { (s.markHandles h.client).setThread r (.markQueue h batch) with
      closed := s.closed ++ [⟨h.client, h.since, (s.clients h.client).held⟩] }
  | .markQueue h batch => (s.markQueue h.client).setThread r (.lookup batch)

/-- `set_reactor_count` at start-up, as `init` calls it, when all goes well: no reactor is there, and nothing is
registered.  Without it, the first `add` makes one reactor. -/
def startReactors (s : Lifecycle) (newCount : Nat) : Lifecycle :=
  if s.manager.reactors = [] ∧ s.manager.fdToClient.entries = [] then
    { s with manager := (s.manager.setReactorCount newCount { walk_perm := List.Perm.refl }).1 }
  else s

end Lifecycle

inductive LifeTurn where
  | setReactorCount (newCount : Nat)
  | subscribe (c : Nat) (ok : Bool) (fd : Int) (created kernel : Except String Unit)
  | delete (u c : Nat)
  | poll (r : Nat) (ready : List (Int × Bool))
  | thread (r : Nat) (ok again : Bool) (parsed : Nat)

def Lifecycle.step (s : Lifecycle) : LifeTurn → Lifecycle
  | .setReactorCount newCount => s.startReactors newCount
  | .subscribe c ok fd created kernel => s.subscribeStep c ok fd created kernel
  | .delete u c => s.deleteStep u c
  | .poll r ready => s.pollStep r ready
  | .thread r ok again parsed => s.threadStep r ok again parsed

def runLifecycle (turns : List LifeTurn) : Lifecycle := Run.run Lifecycle.step {} turns

end PyNetX
