import PyNetX.Lib.LockOrder
/-!
# LockScopes — the order of the mutexes

The scopes of the client's `lock_guard`s and `unique_lock`s, function by function, with the calls made inside them.  A
worker holds `session_mutex_` around what takes the others, the manager holds its own around a reactor's, and nothing is
taken inside the rest: on its mutexes alone the client never deadlocks (`mutexes_not_deadlocked`).  What a thread waits
for beside a mutex is not here: `set_reactor_count` joins a reactor's thread inside the manager's scope, and callbacks
acquire Python's lock.
-/
namespace PyNetX

open LockOrder (Scope)
open Run (run)

/-- The mutexes: those of a client, of the manager and its reactors, of the event bus, of a worker of the pool, and of
the dispatcher. -/
inductive ClientMutex where
  | session (client : Nat)
  | notif (client : Nat)
  | notifQueue (client : Nat)
  | dns (client : Nat)
  | ssh (client : Nat)
  | manager
  | reactor (r : Nat)
  | eventBus
  | worker (w : Nat)
  | dispatcher
  deriving DecidableEq

namespace ClientMutex

/-- How deep the scopes inside its own may go. -/
def rank : ClientMutex → Nat
  | .session _ => 2
  | .manager => 1
  | _ => 0

/-- A scope inside of which nothing is taken. -/
def alone (m : ClientMutex) : Scope ClientMutex := .scope m []

end ClientMutex

/-! ## The scopes of the functions -/

namespace Scopes

open ClientMutex

def connectNonBlocking (c : Nat) : List (Scope ClientMutex) := [(dns c).alone, (ssh c).alone]

def connectBlocking (c : Nat) : List (Scope ClientMutex) := [(dns c).alone]

def connectNotificationNonBlocking (c : Nat) : List (Scope ClientMutex) := [(dns c).alone, (ssh c).alone]

def markNotificationDead (c : Nat) : List (Scope ClientMutex) := [(notif c).alone, (notifQueue c).alone]

/-- `NotificationReactorManager::add`, and `remove`, on the reactor that serves the descriptor. -/
def managerCall (r : Nat) : List (Scope ClientMutex) := [.scope manager [(reactor r).alone]]

/-- It removes from the old reactors, and adds to the new ones. -/
def setReactorCount (rs : List Nat) : List (Scope ClientMutex) := [.scope manager (rs.map fun r => (reactor r).alone)]

def deleteNotificationSession (c r : Nat) : List (Scope ClientMutex) :=
  (notif c).alone :: (managerCall r ++ markNotificationDead c)

def disconnect (c r : Nat) : List (Scope ClientMutex) := deleteNotificationSession c r

def subscribeNonBlocking (c r : Nat) : List (Scope ClientMutex) :=
  connectNotificationNonBlocking c ++
    ((notifQueue c).alone :: (managerCall r ++ ((notif c).alone :: markNotificationDead c)))

/-- The events are emitted behind the queue's scope. -/
def onNotificationReady (c : Nat) : List (Scope ClientMutex) := [(notif c).alone, (notifQueue c).alone, eventBus.alone]

def nextNotification (c : Nat) : List (Scope ClientMutex) := [(notif c).alone, (notifQueue c).alone, eventBus.alone]

/-- A round of `NotificationReactor::loop` of reactor `r`; the manager has client `c` at reactor `r'`, and the round may
drop the last reference to it. -/
def reactorLoop (r c r' : Nat) : List (Scope ClientMutex) :=
  (reactor r).alone :: (onNotificationReady c ++ (managerCall r' ++ ((reactor r).alone :: markNotificationDead c)) ++
    disconnect c r')

end Scopes

/-- What a thread may call, or goes through in its loop. -/
inductive EntryPoint where
  | connectAsync (c : Nat)
  | connectSync (c : Nat)
  | disconnect (c r : Nat)
  | sendRpc (c : Nat)
  | subscribeAsync (c r : Nat)
  | subscribeSync (c : Nat)
  | deleteSubscription (c r : Nat)
  | deleteNotificationSession (c r : Nat)
  | receiveNotificationSync (c : Nat)
  | nextNotification (c : Nat)
  | peekNotifications (c : Nat)
  | notificationQueueSize (c : Nat)
  | clearNotificationQueue (c : Nat)
  | isSubscriptionActive (c : Nat)
  | destroy (c r : Nat)
  | reactorLoop (r c r' : Nat)
  | setReactorCount (rs : List Nat)
  | nextEvent
  | pendingEventCount
  | clearEvents
  | enqueue (w : Nat)
  | workerLoop (w : Nat)
  | dispatcherLoop

open ClientMutex Scopes in
/-- The tasks of the pool take `session_mutex_` around the call.  What Python calls `delete_subscription` is
`delete_notification_session`, without it. -/
def EntryPoint.scopes : EntryPoint → List (Scope ClientMutex)
  | .connectAsync c => [.scope (session c) (connectNonBlocking c)]
  | .connectSync c => [.scope (session c) (connectBlocking c)]
  | .disconnect c r => [.scope (session c) (Scopes.disconnect c r)]
  | .sendRpc c | .subscribeSync c => [(session c).alone]
  | .subscribeAsync c r => [.scope (session c) (subscribeNonBlocking c r)]
  | .deleteSubscription c r => [.scope (session c) (Scopes.deleteNotificationSession c r)]
  | .deleteNotificationSession c r => Scopes.deleteNotificationSession c r
  | .receiveNotificationSync c => [.scope (session c) [(notif c).alone]]
  | .nextNotification c => Scopes.nextNotification c
  | .peekNotifications c | .notificationQueueSize c | .clearNotificationQueue c => [(notifQueue c).alone]
  | .isSubscriptionActive c => [(notif c).alone]
  | .destroy c r => Scopes.disconnect c r
  | .reactorLoop r c r' => Scopes.reactorLoop r c r'
  | .setReactorCount rs => Scopes.setReactorCount rs
  | .nextEvent | .pendingEventCount | .clearEvents => [eventBus.alone]
  | .enqueue w | .workerLoop w => [(worker w).alone]
  | .dispatcherLoop => [dispatcher.alone]

/-! ## The order -/

/-- Scopes that descend, and may stand inside `session_mutex_`. -/
def Inner (scopes : List (Scope ClientMutex)) : Prop :=
  ∀ sc ∈ scopes, ClientMutex.rank sc.lock < 2 ∧ sc.Descends ClientMutex.rank

theorem descends_alone (m : ClientMutex) : m.alone.Descends ClientMutex.rank :=
  .scope (fun sc hsc => by cases hsc) fun sc hsc => by cases hsc

theorem Inner.nil : Inner [] := fun sc hsc => by cases hsc

theorem Inner.cons {m : ClientMutex} {scopes : List (Scope ClientMutex)} (hm : m.rank < 2) (h : Inner scopes) :
    Inner (m.alone :: scopes) := List.forall_mem_cons.2 ⟨⟨hm, descends_alone m⟩, h⟩

theorem inner_alone {m : ClientMutex} (hm : m.rank < 2) : Inner [m.alone] := Inner.nil.cons hm

theorem Inner.append {scopes scopes' : List (Scope ClientMutex)} (h : Inner scopes) (h' : Inner scopes') :
    Inner (scopes ++ scopes') := List.forall_mem_append.2 ⟨h, h'⟩

theorem inner_setReactorCount (rs : List Nat) : Inner (Scopes.setReactorCount rs) := by
  intro sc hsc
  obtain rfl := List.mem_singleton.1 hsc
  refine ⟨Nat.one_lt_two, .scope (fun sc hsc => ?_) fun sc hsc => ?_⟩ <;>
    obtain ⟨r, -, rfl⟩ := List.mem_map.1 hsc
  · exact Nat.zero_lt_one
  · exact descends_alone _

theorem inner_managerCall (r : Nat) : Inner (Scopes.managerCall r) := inner_setReactorCount [r]

theorem inner_markNotificationDead (c : Nat) : Inner (Scopes.markNotificationDead c) :=
  .cons Nat.zero_lt_two (.cons Nat.zero_lt_two .nil)

theorem inner_deleteNotificationSession (c r : Nat) : Inner (Scopes.deleteNotificationSession c r) :=
  .cons Nat.zero_lt_two ((inner_managerCall r).append (inner_markNotificationDead c))

theorem inner_connectNonBlocking (c : Nat) : Inner (Scopes.connectNonBlocking c) :=
  .cons Nat.zero_lt_two (inner_alone Nat.zero_lt_two)

theorem inner_subscribeNonBlocking (c r : Nat) : Inner (Scopes.subscribeNonBlocking c r) := by
  have htwo : 0 < 2 := Nat.zero_lt_two
  have hafter : Inner ((ClientMutex.notif c).alone :: Scopes.markNotificationDead c) :=
    .cons htwo (inner_markNotificationDead c)
  exact (inner_connectNonBlocking c).append (.cons htwo ((inner_managerCall r).append hafter))

theorem inner_onNotificationReady (c : Nat) : Inner (Scopes.onNotificationReady c) := by
  have htwo : 0 < 2 := Nat.zero_lt_two
  exact .cons htwo (.cons htwo (inner_alone htwo))

theorem inner_reactorLoop (r c r' : Nat) : Inner (Scopes.reactorLoop r c r') := by
  have htwo : 0 < 2 := Nat.zero_lt_two
  have hcleanup : Inner (Scopes.managerCall r' ++ ((ClientMutex.reactor r).alone :: Scopes.markNotificationDead c)) :=
    (inner_managerCall r').append (.cons htwo (inner_markNotificationDead c))
  exact .cons htwo (((inner_onNotificationReady c).append hcleanup).append (inner_deleteNotificationSession c r'))

theorem Inner.descends {scopes : List (Scope ClientMutex)} (h : Inner scopes) :
    ∀ sc ∈ scopes, sc.Descends ClientMutex.rank := fun sc hsc => (h sc hsc).2

/-- Inside `session_mutex_` anything else may be taken. -/
theorem Inner.inSession {scopes : List (Scope ClientMutex)} (h : Inner scopes) (c : Nat) :
    ∀ sc ∈ [Scope.scope (ClientMutex.session c) scopes], sc.Descends ClientMutex.rank := by
  intro sc hsc
  obtain rfl := List.mem_singleton.1 hsc
  exact .scope (fun sc hsc => (h sc hsc).1) h.descends

/-- **Every function takes its mutexes in the order of their ranks.** -/
theorem scopes_descend (e : EntryPoint) : ∀ sc ∈ e.scopes, sc.Descends ClientMutex.rank := by
  have htwo : 0 < 2 := Nat.zero_lt_two
  cases e with
  | connectAsync c => exact (inner_connectNonBlocking c).inSession c
  | connectSync c => exact (inner_alone (m := .dns c) htwo).inSession c
  | disconnect c r | deleteSubscription c r => exact (inner_deleteNotificationSession c r).inSession c
  | sendRpc c | subscribeSync c => exact Inner.nil.inSession c
  | subscribeAsync c r => exact (inner_subscribeNonBlocking c r).inSession c
  | receiveNotificationSync c => exact (inner_alone (m := .notif c) htwo).inSession c
  | nextNotification c => exact (inner_onNotificationReady c).descends
  | peekNotifications c | notificationQueueSize c | clearNotificationQueue c | isSubscriptionActive c | nextEvent
  | pendingEventCount | clearEvents | enqueue w | workerLoop w | dispatcherLoop =>
    exact List.forall_mem_singleton.2 (descends_alone _)
  | deleteNotificationSession c r | destroy c r => exact (inner_deleteNotificationSession c r).descends
  | reactorLoop r c r' => exact (inner_reactorLoop r c r').descends
  | setReactorCount rs => exact (inner_setReactorCount rs).descends

/-- **The mutexes never deadlock**: whatever threads call whatever functions, and in whatever order they take their
turns, there are never some among them that all wait, each for a mutex that one of them holds. -/
theorem mutexes_not_deadlocked (turns : List (LockOrder.Turn EntryPoint Nat)) :
    ¬ (run (LockOrder.Threads.step EntryPoint.scopes) {} turns).Deadlocked :=
  LockOrder.never_deadlocked scopes_descend turns

end PyNetX
