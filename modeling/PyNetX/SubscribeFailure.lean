import PyNetX.Connecting
import PyNetX.Ownership
import PyNetX.Subscribe
/-!
# SubscribeFailure — what a subscription that throws leaves behind

`subscribe_non_blocking` takes everything down whatever was there, a subscription included, and no registration with
it; `subscribe_blocking` takes nothing down once it is connected (`left_as_found_iff`).
-/
namespace PyNetX

open Throwing (Triple Keeps exec exec_bind exec_get_bind exec_modify_bind)
open Calls

namespace NotifSession

/-- `is_subscription_active`; the descriptor that a client holds is open. -/
def isSubscriptionActive (s : NotifSession) : Bool :=
  s.notifIsConnected && s.channel.isSome && s.session.isSome && (0 ≤ s.socket)

def markNotificationDead (s : NotifSession) : NotifSession :=
  let (queue, rx) := PyNetX.markNotificationDead s.queue s.rx
  { s.resetHandles with
    notifIsConnected := false
    notifIsBlocking := false
    queue := queue
    rx := rx }

end NotifSession

/-- What a caller asks for, and what the channel does with it. -/
structure SubscribeRequest where
  stream : Bytes
  filter : Bytes := []
  script : RpcScript

/-- `NotificationReactorManager::add` of client `me`'s socket. -/
def register (me : Nat) (created kernel : Except String Unit) : Calls Unit := do
  let s ← get
  let added := s.manager.add s.socket (some me) created kernel
  modify (fun s => { s with manager := added.1 })
  match added.2 with
  | .returned => pure ()
  | .threw what => throw (.threw (ascii what))
  | .undefined => throw .undefined

/-- The `try` of `subscribe_non_blocking`. -/
def subscribeTry (cfg : ClientConfig) (xml : XmlParser) (me : Nat) (req : SubscribeRequest) (w : ConnectScript)
    (created kernel : Except String Unit) : Calls Bytes := do
  let connectionStatus ← connectNotificationNonBlocking cfg w
  throwIf (¬ connectionStatus) (ascii "Unable to create notifications channel")
  let s ← get
  throwIf (¬ s.handles.channel) (ascii "No notifications channel present")
  throwIf (¬ s.handles.session) (ascii "No notifications session present")
  throwIf (s.handles.socket < 0) (ascii "No notifications socket present")
  let reply ← transport (sendRpcNonBlockingFunc xml s.handles (createSubscriptionRpc req.stream req.filter)
    cfg.readTimeout req.script).outcome
  modify (fun s => { s with rx := { s.rx with bytes := [], partialTimerActive := false } })
  register me created kernel
  modify (fun s => { s with notifIsConnected := true, notifIsBlocking := false })
  return reply

def NotifSession.subscribeNonBlocking (cfg : ClientConfig) (xml : XmlParser) (me : Nat) (req : SubscribeRequest)
    (w : ConnectScript) (created kernel : Except String Unit) : Calls Bytes :=
  catching (subscribeTry cfg xml me req w created kernel) (fun what => do
    modify NotifSession.markNotificationDead
    throw (.threw (ascii "Unable to Subscribe to device: " ++ what)))

def NotifSession.subscribeBlocking (cfg : ClientConfig) (xml : XmlParser) (req : SubscribeRequest) (w : BlockingScript) :
    Calls Bytes := do
  let connectionStatus ← connectNotificationBlocking cfg w
  throwIf (¬ connectionStatus) (ascii "Unable to create notifications channel")
  let s ← get
  throwIf (¬ s.handles.channel) (ascii "No notifications channel present")
  throwIf (¬ s.handles.session) (ascii "No notifications session present")
  transport (sendRpcBlockingFunc xml s.handles (createSubscriptionRpc req.stream req.filter) cfg.readTimeout
    req.script).outcome

/-! ## The hand-over's model -/

def outcomeOf {α : Type} : Except Halt α → Outcome α
  | .ok a => some (.ok a)
  | .error (.threw what) => some (.error what)
  | .error _ => none

/-- How `NotificationReactorManager::add` ended, when it did. -/
def CallEnd.result : CallEnd → Except Bytes Unit
  | .threw what => .error (ascii what)
  | _ => .ok ()

/-- What the hand-over's model reads of a notification session. -/
def NotifSession.subscriber (s : NotifSession) : Subscriber where
  queue := s.queue
  rx := s.rx
  notifIsConnected := s.notifIsConnected
  notifIsBlocking := s.notifIsBlocking

theorem exec_register_bind {α : Type} (me : Nat) (created kernel : Except String Unit) (f : Unit → Calls α)
    (s : NotifSession) : exec (register me created kernel >>= f) s =
      match s.manager.add s.socket (some me) created kernel with
      | (m, .returned) => exec (f ()) { s with manager := m }
      | (m, .threw what) => (.error (.threw (ascii what)), { s with manager := m })
      | (m, .undefined) => (.error .undefined, { s with manager := m }) := by
  rw [register, exec_bind, exec_get_bind, exec_modify_bind]
  rcases s.manager.add s.socket (some me) created kernel with ⟨m, _ | _ | _⟩ <;> rfl

/-- **Behind the connection, `subscribe_non_blocking` is the call that the hand-over is about.** -/
theorem subscribeNonBlocking_eq_handOver (cfg : ClientConfig) (xml : XmlParser) (me : Nat) (req : SubscribeRequest)
    (w : ConnectScript) (created kernel : Except String Unit) {s s₁ : NotifSession} {connected : Except Bytes Bool}
    (hconnect : exec (connectNotificationNonBlocking cfg w) s = (connected.mapError .threw, s₁))
    (hadd : (s₁.manager.add s₁.socket (some me) created kernel).2 ≠ .undefined) :
    let e := PyNetX.subscribeNonBlocking cfg xml { req with
      connected := connected
      handles := s₁.handles
      registered := (s₁.manager.add s₁.socket (some me) created kernel).2.result } s₁.subscriber
    let run := exec (NotifSession.subscribeNonBlocking cfg xml me req w created kernel) s
    outcomeOf run.1 = e.outcome ∧ run.2.subscriber = e.client := by
  simp only [NotifSession.subscribeNonBlocking, exec_catching, subscribeTry, exec_bind _ _ s, hconnect]
  unfold PyNetX.subscribeNonBlocking
  cases connected with
  | error what => exact ⟨rfl, rfl⟩
  | ok status =>
    cases status with
    | false => exact ⟨rfl, rfl⟩
    | true =>
      simp only [Except.mapError, exec_throwIf_bind, exec_get_bind, exec_transport_bind, exec_modify_bind]
      by_cases h1 : s₁.handles.channel = true
      · by_cases h2 : s₁.handles.session = true
        · by_cases h3 : s₁.handles.socket < 0
          · simp only [h1, h2, h3]
            exact ⟨rfl, rfl⟩
          · simp only [h1, h2, h3]
            cases hreply : (sendRpcNonBlockingFunc xml s₁.handles (createSubscriptionRpc req.stream req.filter)
              cfg.readTimeout req.script).outcome with
            | none => exact ⟨rfl, rfl⟩
            | some answer =>
              cases answer with
              | error what => exact ⟨rfl, rfl⟩
              | ok reply =>
                simp only [exec_register_bind]
                generalize s₁.manager.add s₁.socket (some me) created kernel = added at hadd
                obtain ⟨m, ended⟩ := added
                cases ended with
                | returned => exact ⟨rfl, rfl⟩
                | threw what => exact ⟨rfl, rfl⟩
                | undefined => exact absurd rfl hadd
        · simp only [h1, h2]
          exact ⟨rfl, rfl⟩
      · simp only [h1]
        exact ⟨rfl, rfl⟩

/-! ## What connecting does to the registrations -/

/-- The client's registrations are the same numbers. -/
def SameHeld (me : Nat) (s₀ s : NotifSession) : Prop := ∀ fd, s.manager.Holds me fd ↔ s₀.manager.Holds me fd

variable {cfg : ClientConfig} {xml : XmlParser} {me : Nat} {s₀ s : NotifSession}

theorem SameHeld.resetSocket (h : SameHeld me s₀ s) (fd : Int) : SameHeld me s₀ (s.resetSocket fd) := by
  intro fd'
  unfold NotifSession.resetSocket
  simp only
  split
  · rw [Manager.holds_socketClosed_iff]
    exact h fd'
  · exact h fd'

theorem establishNonBlocking_keeps (w : ConnectScript) : Keeps (SameHeld me s₀) (establishNonBlocking cfg w) := by
  unfold establishNonBlocking
  repeat' with_reducible refine Keeps.bind ?_ (fun _ => ?_)
  all_goals first
    | with_reducible exact demand_keeps
    | with_reducible exact throwIf_keeps
    | with_reducible exact transport_keeps
    | with_reducible exact Keeps.pure
    | with_reducible exact Keeps.get
    | with_reducible refine Keeps.modify (fun _ h => ?_)
  · exact h
  · exact h
  · exact h.resetSocket _
  · exact h
  · exact h

theorem connectNotificationNonBlocking_keeps (w : ConnectScript) :
    Keeps (SameHeld me s₀) (connectNotificationNonBlocking cfg w) := by
  refine Keeps.get.bind (fun s => ?_)
  refine Keeps.bind throwIf_keeps (fun _ => ?_)
  exact catching_keeps (establishNonBlocking_keeps w) (fun what => Keeps.throw)

theorem register_triple (created kernel : Except String Unit) :
    Triple (SameHeld me s₀) (register me created kernel) (fun _ _ => True) (fun _ => SameHeld me s₀) := by
  refine Triple.get_bind (fun s hs => ?_)
  cases hadded : (s.manager.add s.socket (some me) created kernel).2 with
  | returned =>
    simp only [hadded]
    exact Triple.modify_bind (fun _ => True) (fun _ _ => trivial) (Triple.pure (fun _ h => h))
  | threw _ | undefined =>
    simp only [hadded]
    refine Triple.modify_bind (SameHeld me s₀) (fun s' _ fd => ?_) (Triple.throw (fun _ h => h))
    exact (Manager.holds_add_iff (by rw [hadded]; nofun)).trans (hs fd)

theorem subscribeTry_triple (req : SubscribeRequest) (w : ConnectScript) (created kernel : Except String Unit) :
    Triple (SameHeld me s₀) (subscribeTry cfg xml me req w created kernel) (fun _ _ => True)
      (fun _ => SameHeld me s₀) := by
  unfold subscribeTry
  refine Triple.bind (connectNotificationNonBlocking_keeps w) (fun _ => ?_)
  refine Triple.bind throwIf_keeps (fun _ => ?_)
  refine Triple.bind Keeps.get (fun s => ?_)
  refine Triple.bind throwIf_keeps (fun _ => ?_)
  refine Triple.bind throwIf_keeps (fun _ => ?_)
  refine Triple.bind throwIf_keeps (fun _ => ?_)
  refine Triple.bind transport_keeps (fun reply => ?_)
  refine Triple.modify_bind (SameHeld me s₀) (fun _ h => h) ?_
  refine Triple.bind (register_triple created kernel) (fun _ => ?_)
  exact Triple.modify_bind (fun _ => True) (fun _ h => h) (Triple.pure (fun _ h => h))

/-! ## What an exception leaves -/

/-- No subscription, and nothing of one: what a client without a subscription is to have after the exception. -/
structure NothingHeld (me : Nat) (s : NotifSession) : Prop where
  notConnected : s.notifIsConnected = false
  session : s.session = none
  channel : s.channel = none
  socket : s.socket = -1
  unregistered : ∀ fd, ¬ s.manager.Holds me fd

structure StillActive (me : Nat) (s s' : NotifSession) : Prop where
  active : s'.isSubscriptionActive = true
  session : s'.session = s.session
  channel : s'.channel = s.channel
  socket : s'.socket = s.socket
  queue : s'.queue = s.queue
  rx : s'.rx = s.rx
  registered : s.manager.Keeps me s'.manager ∧ s'.manager.Keeps me s.manager

/-- **The client is as the call found it.** -/
def LeftAsFound (me : Nat) (s s' : NotifSession) : Prop :=
  if s.isSubscriptionActive then StillActive me s s' else NothingHeld me s'

theorem nothingHeld_markNotificationDead_iff (hs : SameHeld me s₀ s) :
    NothingHeld me s.markNotificationDead ↔ ∀ fd, ¬ s₀.manager.Holds me fd := by
  have hdead : ∀ fd, s.markNotificationDead.manager.Holds me fd ↔ s₀.manager.Holds me fd := hs.resetSocket (-1)
  constructor
  · intro h fd hfd
    exact h.unregistered fd ((hdead fd).2 hfd)
  · intro h
    exact ⟨rfl, rfl, rfl, rfl, fun fd hfd => h fd ((hdead fd).1 hfd)⟩

/-- What `subscribe_non_blocking` leaves when it throws. -/
theorem subscribeNonBlocking_triple (s₀ : NotifSession) (req : SubscribeRequest) (w : ConnectScript)
    (created kernel : Except String Unit) :
    Triple (SameHeld me s₀) (NotifSession.subscribeNonBlocking cfg xml me req w created kernel) (fun _ _ => True)
      (fun halt s' => ∀ what, halt = .threw what → ∃ s, SameHeld me s₀ s ∧ s' = s.markNotificationDead) := by
  refine catching_triple (subscribeTry_triple req w created kernel) (fun what => ?_) (fun halt s hhalt _ what h => ?_)
  · refine Triple.modify_bind (fun s' => ∃ s, SameHeld me s₀ s ∧ s' = s.markNotificationDead) ?_ ?_
    · exact fun s hs => ⟨s, hs, rfl⟩
    · exact Triple.throw (fun _ h _ _ => h)
  · exact absurd h (hhalt what)

/-! ## The blocking variant -/

/-- Without a subscription; what is registered is what was. -/
def Unconnected (me : Nat) (s₀ s : NotifSession) : Prop := SameHeld me s₀ s ∧ s.notifIsConnected = false

/-- **The attempt returns exactly when every step goes well**, and sets the flag at its very end. -/
theorem establishBlocking_triple (cfg : ClientConfig) (me : Nat) (s₀ : NotifSession) (w : BlockingScript) :
    Triple (Unconnected me s₀) (establishBlocking cfg w)
    (fun status s => status = true ∧ w.Connects cfg ∧ s.notifIsConnected = true)
    (fun halt s => (∀ what, halt = .threw what → ¬ w.Connects cfg) ∧ Unconnected me s₀ s) := by
  -- a step that goes wrong
  have hfail : ∀ (halt : Halt), ¬ w.Connects cfg → ∀ s, Unconnected me s₀ s →
      (∀ what, halt = .threw what → ¬ w.Connects cfg) ∧ Unconnected me s₀ s := fun _ hno s hs => ⟨fun _ _ => hno, hs⟩
  unfold establishBlocking
  refine demand_bind (fun rawSess hsession => ?_)
    (fun e he => hfail _ (fun hc => by simpa [pointer_eq_error he] using hc.sessionInit))
  refine Triple.modify_bind (Unconnected me s₀) (fun _ h => h) ?_
  refine demand_bind (fun ip hip => ?_) (fun e he => hfail _ (fun hc => by simpa [he] using hc.resolved))
  refine throwIf_bind (fun hne => ?_) (fun hnil => hfail _ (fun hc => ?_))
  · refine demand_bind (fun sock hsock => ?_) (fun e he => hfail _ (fun hc => by simpa [he] using hc.rawSock))
    refine Triple.modify_bind (Unconnected me s₀) (fun _ h => ⟨h.1.resetSocket sock, h.2⟩) ?_
    refine throwIf_bind (fun haddress => ?_) (fun hno => hfail _ (fun hc => by simp [hc.inetPton] at hno))
    refine demand_bind (fun _ hconnect => ?_) (fun e he => hfail _ (fun hc => by simpa [he] using hc.connect))
    refine demand_bind (fun _ hhandshake => ?_) (fun e he => hfail _ (fun hc => by simpa [he] using hc.handshake))
    refine demand_bind (fun _ hauth => ?_) (fun e he => hfail _ (fun hc => by simpa [he] using hc.authentication))
    refine demand_bind (fun rawCh hchannel => ?_)
      (fun e he => hfail _ (fun hc => by simpa [pointer_eq_error he] using hc.channel))
    refine Triple.modify_bind (fun s => Unconnected me s₀ s ∧ s.channel.isSome = true) (fun _ h => ⟨h, rfl⟩) ?_
    refine demand_bind (fun _ hstartup => ?_) (fun e he s hs => hfail _ (fun hc => by simpa [he] using hc.startup) s hs.1)
    refine Triple.get_bind (fun s hs => ?_)
    have hchan : s.handles.channel = true := hs.2
    rw [hchan]
    have hhalt : ∀ (halt : Halt), ¬ w.Connects cfg → ∀ s', s' = s →
        (∀ what, halt = .threw what → ¬ w.Connects cfg) ∧ Unconnected me s₀ s' := by
      rintro halt hno s' rfl
      exact hfail halt hno s' hs.1
    refine transport_bind (fun hello hhello => ?_)
      (fun e he => hhalt _ (fun hc => by simpa [he] using hc.hello))
      (fun he => hhalt _ (fun hc => by simpa [he] using hc.hello))
    refine throwIf_bind (fun hcaps => ?_) (fun hno => hhalt _ (fun hc => ?_))
    · refine transport_bind (fun _ hsent => ?_) (fun e he => hhalt _ (fun hc => by simpa [he] using hc.sent))
        (fun he => hhalt _ (fun hc => by simpa [he] using hc.sent))
      refine Triple.modify_bind (fun s' => s'.notifIsConnected = true) (fun _ _ => rfl) (Triple.pure (fun s' hs' => ?_))
      exact ⟨rfl, ⟨pointer_eq_ok hsession, ⟨ip, hip, by simpa using hne⟩, ⟨sock, hsock⟩, by simpa using haddress, hconnect,
        hhandshake, hauth, pointer_eq_ok hchannel, hstartup, ⟨hello, hhello, by simpa using hcaps⟩, hsent⟩, hs'⟩
    · obtain ⟨hello', hhello', hcaps⟩ := hc.hello
      rw [hhello] at hhello'
      cases hhello'
      simp [Option.isNone_iff_eq_none.1 hno] at hcaps
  · obtain ⟨ip', hip', hne⟩ := hc.resolved
    rw [hip] at hip'
    cases hip'
    exact hne (of_decide_eq_true hnil)

theorem nothingHeld_resetHandles_iff (hs : Unconnected me s₀ s) :
    NothingHeld me s.resetHandles ↔ ∀ fd, ¬ s₀.manager.Holds me fd := by
  have hreset : ∀ fd, s.resetHandles.manager.Holds me fd ↔ s₀.manager.Holds me fd := hs.1.resetSocket (-1)
  constructor
  · intro h fd hfd
    exact h.unregistered fd ((hreset fd).2 hfd)
  · intro h
    exact ⟨hs.2, rfl, rfl, rfl, fun fd hfd => h fd ((hreset fd).1 hfd)⟩

/-- How `connect_notification_blocking` throws: at its check, with everything as it was, or with the handles reset. -/
def BlockingRefused (cfg : ClientConfig) (me : Nat) (w : BlockingScript) (s₀ s' : NotifSession) : Prop :=
  (s₀.notifIsConnected = true ∧ s' = s₀) ∨
    (s₀.notifIsConnected = false ∧ ¬ w.Connects cfg ∧ ∃ s, Unconnected me s₀ s ∧ s' = s.resetHandles)

theorem connectNotificationBlocking_triple (w : BlockingScript) :
    Triple (fun s => s = s₀) (connectNotificationBlocking cfg w)
      (fun _ s => (s₀.notifIsConnected = false ∧ w.Connects cfg) ∧ s.notifIsConnected = true)
      (fun halt s' => ∀ what, halt = .threw what → BlockingRefused cfg me w s₀ s') := by
  refine Triple.get_bind (fun s hs => ?_)
  subst hs
  refine throwIf_bind (fun hno => ?_) (fun hconnected s' hs' _ _ => Or.inl ⟨hconnected, hs'⟩)
  have hestablish := (establishBlocking_triple cfg me s w).imp (P := fun s' => s' = s)
    (Q := fun _ s' => (s.notifIsConnected = false ∧ w.Connects cfg) ∧ s'.notifIsConnected = true)
    (fun s' hs' => by subst hs'; exact ⟨fun _ => Iff.rfl, hno⟩) (fun _ _ h => ⟨⟨hno, h.2.1⟩, h.2.2⟩) (fun _ _ h => h)
  refine catching_triple hestablish (fun what => ?_) (fun halt s' hhalt _ what h => absurd h (hhalt what))
  refine Triple.modify_bind (BlockingRefused cfg me w s) (fun s' hs' => ?_) (Triple.throw (fun _ h _ _ => h))
  exact Or.inr ⟨hno, hs'.1 what rfl, s', hs'.2, rfl⟩

/-- What `subscribe_blocking` leaves when it throws: behind the connection, a client that calls itself connected. -/
theorem subscribeBlocking_triple (cfg : ClientConfig) (xml : XmlParser) (me : Nat) (s₀ : NotifSession)
    (req : SubscribeRequest) (w : BlockingScript) :
    Triple (fun s => s = s₀) (NotifSession.subscribeBlocking cfg xml req w) (fun _ _ => True)
      (fun halt s' => ∀ what, halt = .threw what → BlockingRefused cfg me w s₀ s' ∨
        ((s₀.notifIsConnected = false ∧ w.Connects cfg) ∧ s'.notifIsConnected = true)) := by
  refine Triple.bind ((connectNotificationBlocking_triple w).imp (fun _ h => h) (fun _ _ h => h)
    (fun _ _ h what hw => Or.inl (h what hw))) (fun status => ?_)
  -- nothing behind the connection touches the flag
  have hrest : Keeps (fun s' => (s₀.notifIsConnected = false ∧ w.Connects cfg) ∧ s'.notifIsConnected = true) (do
      throwIf (¬ status) (ascii "Unable to create notifications channel")
      let s ← get
      throwIf (¬ s.handles.channel) (ascii "No notifications channel present")
      throwIf (¬ s.handles.session) (ascii "No notifications session present")
      transport (sendRpcBlockingFunc xml s.handles (createSubscriptionRpc req.stream req.filter) cfg.readTimeout
        req.script).outcome) := by
    refine Keeps.bind throwIf_keeps (fun _ => Keeps.bind Keeps.get (fun s => ?_))
    exact Keeps.bind throwIf_keeps (fun _ => Keeps.bind throwIf_keeps (fun _ => transport_keeps))
  exact Triple.imp hrest (fun _ h => h) (fun _ _ _ => trivial) (fun _ _ h _ _ => Or.inr h)

/-! ## The two variants -/

/-- A call of `subscribe_non_blocking` or `subscribe_blocking`, with what it meets. -/
inductive SubscribeVariant where
  | nonBlocking (w : ConnectScript) (created kernel : Except String Unit)
  | blocking (w : BlockingScript)

def SubscribeVariant.run (cfg : ClientConfig) (xml : XmlParser) (me : Nat) (req : SubscribeRequest) :
    SubscribeVariant → Calls Bytes
  | .nonBlocking w created kernel => NotifSession.subscribeNonBlocking cfg xml me req w created kernel
  | .blocking w => NotifSession.subscribeBlocking cfg xml req w

/-- What a call is to meet to undo itself: no subscription and no registration; or, the blocking variant, a
subscription, which its check refuses before anything is done, or a connection that fails. -/
def SubscribeVariant.Undoes (cfg : ClientConfig) (me : Nat) (s : NotifSession) : SubscribeVariant → Prop
  | .nonBlocking _ _ _ => s.isSubscriptionActive = false ∧ ∀ fd, ¬ s.manager.Holds me fd
  | .blocking w => s.isSubscriptionActive = true ∨
      (s.notifIsConnected = false ∧ ¬ w.Connects cfg ∧ ∀ fd, ¬ s.manager.Holds me fd)

theorem leftAsFound_self (hactive : s.isSubscriptionActive = true) : LeftAsFound me s s := by
  rw [LeftAsFound, if_pos hactive]
  exact ⟨hactive, rfl, rfl, rfl, rfl, rfl, Manager.Keeps.refl me _, Manager.Keeps.refl me _⟩

/-- **A subscription that throws leaves the client as it found it exactly when** the non-blocking variant found no
subscription and no registration of the client, or the blocking one found a subscription, or no flag, no registration
and a connection that fails. -/
theorem left_as_found_iff (cfg : ClientConfig) (xml : XmlParser) (me : Nat) (req : SubscribeRequest)
    (v : SubscribeVariant) (s s' : NotifSession) (what : Bytes)
    (h : exec (v.run cfg xml me req) s = (.error (.threw what), s')) : LeftAsFound me s s' ↔ v.Undoes cfg me s := by
  cases v with
  | nonBlocking w created kernel =>
    obtain ⟨s₁, hs₁, rfl⟩ := (subscribeNonBlocking_triple s req w created kernel).threw (fun _ => Iff.rfl) h what rfl
    by_cases hactive : s.isSubscriptionActive = true
    · rw [LeftAsFound, if_pos hactive, SubscribeVariant.Undoes, hactive]
      constructor
      · intro hstill
        cases hstill.active
      · exact fun hno => by cases hno.1
    · rw [LeftAsFound, if_neg hactive, nothingHeld_markNotificationDead_iff hs₁, SubscribeVariant.Undoes]
      simp [hactive]
  | blocking w =>
    have hthrew := (subscribeBlocking_triple cfg xml me s req w).threw rfl h what rfl
    have hactive : s.notifIsConnected = false → s.isSubscriptionActive = false := by
      intro hno
      simp [NotifSession.isSubscriptionActive, hno]
    rw [SubscribeVariant.Undoes]
    obtain (⟨hconnected, rfl⟩ | ⟨hno, hfails, s₁, hs₁, rfl⟩) | ⟨⟨hno, hc⟩, hconnected⟩ := hthrew
    · by_cases hs : s'.isSubscriptionActive = true
      · exact iff_of_true (leftAsFound_self hs) (Or.inl hs)
      · rw [LeftAsFound, if_neg hs]
        refine iff_of_false (fun hnothing => ?_) ?_
        · rw [hnothing.notConnected] at hconnected
          cases hconnected
        · simp [hs, hconnected]
    · rw [LeftAsFound, if_neg (by simp [hactive hno]), nothingHeld_resetHandles_iff hs₁]
      simp [hactive hno, hno, hfails]
    · rw [LeftAsFound, if_neg (by simp [hactive hno])]
      refine iff_of_false (fun hnothing => ?_) ?_
      · rw [hnothing.notConnected] at hconnected
        cases hconnected
      · simp [hactive hno, hc]

/-- A subscription to the stream whose request is not accepted. -/
def rejectedRequest : SubscribeRequest where
  stream := ascii "NETCONF"
  script := { writes := [.failed none], tape := [] }

/-- A connection that the device refuses. -/
def refusedScript : ConnectScript where
  sessionInit := some 1
  elapsed := fun _ => 0
  resolved := .ok (ascii "192.0.2.1")
  rawSock := .ok 5
  setsockopt := .ok ()
  fcntl := .ok ()
  inetPton := true
  connect := .error (ascii "Connection refused")
  polled := .ok true
  soError := .ok ()
  handshake := []
  authentication := []
  authenticationError := none
  channel := []
  startup := []
  startupError := none
  helloAt := 0
  hello := []
  helloWrites := []

theorem refused_left : LeftAsFound 0 {} (exec ((SubscribeVariant.nonBlocking refusedScript (.ok ()) (.ok ())).run
    defaultClient rejectsAll 0 rejectedRequest) {}).2 := by
  refine (left_as_found_iff defaultClient rejectsAll 0 rejectedRequest (.nonBlocking refusedScript (.ok ()) (.ok ())) {} _
    (ascii "Unable to Subscribe to device: Unable to connect to device: Connection failed: Connection refused")
    (Prod.ext (by decide +kernel) (by dsimp only))).2 ⟨rfl, ?_⟩
  rintro fd (h | ⟨i, r, hr, _⟩)
  · cases h
  · cases hr

/-- A client whose subscription is active: the handles, a queued notification, the registration. -/
def subscribedClient : NotifSession where
  notifIsConnected := true
  session := some 1
  channel := some 2
  socket := 5
  queue := { items := [ascii "<notification/>"] }
  manager := (({} : Manager).add 5 (some 0) (.ok ()) (.ok ())).1

/-- A blocking connection that comes up. -/
def connectedScript : BlockingScript where
  sessionInit := some 1
  resolved := .ok (ascii "192.0.2.1")
  rawSock := .ok 5
  inetPton := true
  connect := .ok ()
  handshake := .ok ()
  authentication := .ok ()
  channel := some 2
  startup := .ok ()
  helloAt := 0
  hello := [{ read := .bytes (ascii "<hello><capabilities/></hello>]]>]]>") }]
  helloWrites := [.accepted 1000]

/-- **A second subscription takes the first one down**, and a blocking one whose request fails is left connected. -/
theorem not_left_as_found :
    ((exec ((SubscribeVariant.nonBlocking refusedScript (.ok ()) (.ok ())).run defaultClient rejectsAll 0 rejectedRequest)
        subscribedClient).1 = .error (.threw (ascii
          "Unable to Subscribe to device: Session already exists, possible double connection attempt")) ∧
      ¬ LeftAsFound 0 subscribedClient (exec ((SubscribeVariant.nonBlocking refusedScript (.ok ()) (.ok ())).run
        defaultClient rejectsAll 0 rejectedRequest) subscribedClient).2) ∧
    (exec ((SubscribeVariant.blocking connectedScript).run defaultClient rejectsAll 0 rejectedRequest) {}).1 =
        .error (.threw (ascii "Error occured while sending RPC: Failed to send RPC: Unknown error")) ∧
      ¬ LeftAsFound 0 {} (exec ((SubscribeVariant.blocking connectedScript).run defaultClient rejectsAll 0 rejectedRequest)
        {}).2 := by
  refine ⟨⟨by decide +kernel, fun h => ?_⟩, by decide +kernel, fun h => ?_⟩
  · rw [LeftAsFound, if_pos (by rfl)] at h
    exact absurd h.active (by decide +kernel)
  · rw [LeftAsFound, if_neg (by decide)] at h
    exact absurd h.notConnected (by decide +kernel)

end PyNetX
