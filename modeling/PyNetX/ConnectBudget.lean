import PyNetX.MainSession
/-!
# ConnectBudget — the checks of `connect_timeout_`

Both non-blocking connections cut the time that is left down to whole seconds and give up when none is left: up to a
second too early.  `connect_budget_iff` says when no check does; `connect_blocking` compares the times themselves, and
gives up in time (`connectBlocking_neverEarly`).
-/
namespace PyNetX

open Search (find)
open Throwing (Triple exec exec_bind exec_get_bind exec_modify_bind exec_tryCatch)
open Attempt
open Calls (pointer pointer_eq_ok pointer_eq_error)

/-! ## The notification session's connection, its checks told apart -/

/-- What it is to a caller. -/
def ConnectHalt.halt : ConnectHalt → Halt
  | .threw what | .timedOut _ what => .threw what
  | .waits => .waits

namespace NotifSession

/-- The `try` of `connect_notification_non_blocking`. -/
def establishTimed (cfg : ClientConfig) (w : ConnectScript) : Attempt NotifSession Bool := do
  let rawSession ← demand "Failed to initialize libssh2 session" (pointer w.sessionInit)
  modify (fun s => { s with session := some rawSession })
  withinSeconds cfg (w.elapsed .resolving) (ascii "Connection timed out resolving " ++ ascii cfg.hostname)
  let resolved ← demand "" w.resolved
  modify (fun s => { s with resolvedHost := resolved })
  throwIf (resolved = []) (ascii "Failed to resolve hostname: " ++ ascii cfg.hostname)
  let rawSock ← demand "Failed to create socket: " w.rawSock
  modify (fun s => s.resetSocket rawSock)
  demand "Failed to set SO_REUSEADDR: " w.setsockopt
  demand "Failed to set non-blocking mode: " w.fcntl
  throwIf (¬ w.inetPton) (ascii "Invalid IP address: " ++ resolved)
  demand "Connection failed: " w.connect
  let ready ← demand "Poll error: " w.polled
  throwIf (¬ ready) (ascii "Timeout establishing TCP connection")
  demand "TCP connect failed: " w.soError
  withinSeconds cfg (w.elapsed .handshake) (connectionTimedOut cfg)
  demand "" (handshakeLoop w.handshake)
  withinSeconds cfg (w.elapsed .authentication) (connectionTimedOut cfg)
  demand "" (sshLoop "Poll error during authentication: " "Authentication failed: " w.authenticationError
    w.authentication)
  withinSeconds cfg (w.elapsed .channel) (connectionTimedOut cfg)
  let rawChannel ← demand "Failed to create channel for NETCONF" (pointer (channelLoop w.channel))
  modify (fun s => { s with channel := some rawChannel })
  withinSeconds cfg (w.elapsed .startup) (connectionTimedOut cfg)
  demand "" (sshLoop "Poll error during channel startup: " "Failed to request NETCONF subsystem: " w.startupError
    w.startup)
  let s ← get
  let serverHello ← transport (readUntilEomNonBlocking
    { chan := s.handles.channel, sess := s.handles.session, socFd := s.handles.socket, readTimeout := cfg.readTimeout }
    w.helloAt w.hello).outcome
  throwIf (find (ascii "capabilities") serverHello).isNone (ascii "Invalid NETCONF <hello> from server")
  transport (sendClientHelloNonBlocking w.helloWrites)
  modify (fun s => { s with notifIsConnected := false, notifIsBlocking := false })
  return true

def connectTimed (cfg : ClientConfig) (w : ConnectScript) : Attempt NotifSession Bool := do
  let s ← get
  throwIf s.notifIsConnected (ascii "Session already exists, possible double connection attempt")
  rethrowing "Unable to connect to device: " (establishTimed cfg w)

end NotifSession

/-- `y` does what `x` does, and does not tell what was thrown by a check. -/
def Attempt.Shows {α : Type} (x : Attempt NotifSession α) (y : Calls α) : Prop :=
  ∀ s, exec y s = ((exec x s).1.mapError ConnectHalt.halt, (exec x s).2)

namespace Attempt

variable {α β : Type}

theorem Shows.bind {x : Attempt NotifSession α} {y : Calls α} {f : α → Attempt NotifSession β} {g : α → Calls β}
    (hx : Shows x y) (hf : ∀ a, Shows (f a) (g a)) : Shows (x >>= f) (y >>= g) := by
  intro s
  rw [exec_bind, exec_bind, hx]
  rcases exec x s with ⟨e | a, s'⟩
  · rfl
  · exact hf a s'

theorem throwIf_shows (c : Bool) (what : Bytes) : Shows (throwIf c what) (Calls.throwIf c what) := by
  cases c <;> exact fun _ => rfl

theorem withinSeconds_shows (cfg : ClientConfig) (elapsed : Nat) (what : Bytes) :
    Shows (withinSeconds cfg elapsed what) (Calls.throwIf (currentTimeout cfg elapsed ≤ 0) what) := by
  intro s
  unfold withinSeconds budget Calls.throwIf
  split <;> rfl

theorem demand_shows (text : String) (o : Except Bytes α) : Shows (demand text o) (Calls.demand text o) := by
  cases o <;> exact fun _ => rfl

theorem transport_shows (o : Outcome α) : Shows (transport o) (Calls.transport o) := by
  rcases o with _ | _ | _ <;> exact fun _ => rfl

theorem rethrowing_shows (text : String) {x : Attempt NotifSession α} {y : Calls α} (h : Shows x y) :
    Shows (rethrowing text x) (Calls.catching y (fun what => throw (.threw (ascii text ++ what)))) := by
  intro s
  rw [rethrowing, exec_tryCatch, Calls.exec_catching, h]
  rcases exec x s with ⟨(what | ⟨elapsed, what⟩ | _) | a, s'⟩ <;> rfl

end Attempt

/-- **`connectTimed` is `connectNotificationNonBlocking`**, with the checks' exceptions told apart. -/
theorem connectTimed_shows (cfg : ClientConfig) (w : ConnectScript) :
    Shows (NotifSession.connectTimed cfg w) (connectNotificationNonBlocking cfg w) := by
  have hestablish : Shows (NotifSession.establishTimed cfg w) (establishNonBlocking cfg w) := by
    unfold NotifSession.establishTimed establishNonBlocking
    repeat' with_reducible refine Shows.bind ?_ (fun _ => ?_)
    all_goals first
      | with_reducible exact demand_shows _ _
      | with_reducible exact withinSeconds_shows _ _ _
      | with_reducible exact throwIf_shows _ _
      | with_reducible exact transport_shows _
      | exact fun _ => rfl
  exact Shows.bind (fun _ => rfl) (fun s => Shows.bind (throwIf_shows _ _) (fun _ => rethrowing_shows _ hestablish))

/-! ## When a check throws -/

/-- `x` throws at a check, `elapsed` after the start, exactly when `P elapsed`: from any state. -/
def Attempt.TimesOut {σ α : Type} (x : Attempt σ α) (P : Nat → Prop) : Prop :=
  ∀ s elapsed, (∃ what s', exec x s = (.error (.timedOut elapsed what), s')) ↔ P elapsed

/-- Everything goes well up to a check that throws, `e` after the start, and those in front of it have not. -/
def FirstLate (cfg : ClientConfig) : List (Prop × Nat) → Nat → Prop
  | [], _ => False
  | (goesWell, elapsed) :: checks, e =>
    goesWell ∧ if currentTimeout cfg elapsed ≤ 0 then e = elapsed else FirstLate cfg checks e

namespace Attempt

variable {σ α β : Type} {cfg : ClientConfig} {P : Nat → Prop}

theorem pure_timesOut (a : α) : TimesOut (pure a : Attempt σ α) (fun _ => False) :=
  fun _ _ => iff_of_false (fun ⟨_, _, h⟩ => by cases h) id

theorem modify_bind_timesOut {g : σ → σ} {f : Unit → Attempt σ β} (h : TimesOut (f ()) P) :
    TimesOut (modify g >>= f) P :=
  fun s => h (g s)

theorem get_bind_timesOut {f : σ → Attempt σ β} (h : ∀ s, TimesOut (f s) P) : TimesOut (get >>= f) P :=
  fun s => h s s

theorem throwIf_bind_timesOut {c : Bool} {what : Bytes} {f : Unit → Attempt σ β} (hgo : c = false → TimesOut (f ()) P)
    (hthrow : c = true → ∀ e, ¬ P e) : TimesOut (throwIf c what >>= f) P := by
  intro s e
  cases c with
  | false => exact hgo rfl s e
  | true => exact iff_of_false (fun ⟨_, _, h⟩ => by cases h) (hthrow rfl e)

theorem demand_bind_timesOut {text : String} {o : Except Bytes α} {f : α → Attempt σ β}
    (hgo : ∀ a, o = .ok a → TimesOut (f a) P) (hthrow : ∀ what, o = .error what → ∀ e, ¬ P e) :
    TimesOut (demand text o >>= f) P := by
  intro s e
  cases o with
  | ok a => exact hgo a rfl s e
  | error what => exact iff_of_false (fun ⟨_, _, h⟩ => by cases h) (hthrow what rfl e)

theorem transport_bind_timesOut {o : Outcome α} {f : α → Attempt σ β} (h : ∀ a, TimesOut (f a) (fun _ => False)) :
    TimesOut (transport o >>= f) (fun _ => False) := by
  intro s e
  rcases o with _ | what | a
  · exact iff_of_false (fun ⟨_, _, h⟩ => by cases h) id
  · exact iff_of_false (fun ⟨_, _, h⟩ => by cases h) id
  · exact h a s e

/-- **A check throws, or leaves it to the next one.** -/
theorem withinSeconds_bind_timesOut {elapsed : Nat} {what : Bytes} {f : Unit → Attempt σ β} {goesWell : Prop}
    {checks : List (Prop × Nat)} (hwell : goesWell) (h : TimesOut (f ()) (FirstLate cfg checks)) :
    TimesOut (withinSeconds cfg elapsed what >>= f) (FirstLate cfg ((goesWell, elapsed) :: checks)) := by
  intro s e
  rw [FirstLate, and_iff_right hwell]
  by_cases hlate : currentTimeout cfg elapsed ≤ 0
  · have hexec : exec (withinSeconds cfg elapsed what >>= f) s = (.error (.timedOut elapsed what), s) := by
      rw [exec_bind, withinSeconds, budget, if_pos (by simpa using hlate)]
      rfl
    rw [if_pos hlate, hexec]
    exact ⟨fun ⟨_, _, h⟩ => by cases h; rfl, fun he => ⟨what, s, by rw [he]⟩⟩
  · have hexec : exec (withinSeconds cfg elapsed what >>= f) s = exec (f ()) s := by
      rw [exec_bind, withinSeconds, budget, if_neg (by simpa using hlate)]
      rfl
    rw [if_neg hlate, hexec]
    exact h s e

theorem rethrowing_timesOut {text : String} {x : Attempt σ α} (h : TimesOut x P) : TimesOut (rethrowing text x) P := by
  intro s e
  rw [← h s e, rethrowing, exec_tryCatch]
  rcases exec x s with ⟨(what | ⟨elapsed, what⟩ | _) | a, s'⟩
  · exact iff_of_false (fun ⟨_, _, h⟩ => by cases h) (fun ⟨_, _, h⟩ => by cases h)
  · exact ⟨fun ⟨_, _, h⟩ => by cases h; exact ⟨_, _, rfl⟩, fun ⟨_, _, h⟩ => by cases h; exact ⟨_, _, rfl⟩⟩
  · exact iff_of_false (fun ⟨_, _, h⟩ => by cases h) (fun ⟨_, _, h⟩ => by cases h)
  · exact iff_of_false (fun ⟨_, _, h⟩ => by cases h) (fun ⟨_, _, h⟩ => by cases h)

end Attempt

/-! ## The checks of an attempt -/

namespace ConnectScript

def Resolves (w : ConnectScript) : Prop := ∃ ip, w.resolved = .ok ip ∧ ip ≠ []

/-- The socket is made, configured and connected. -/
structure SocketConnects (w : ConnectScript) : Prop where
  rawSock : ∃ sock, w.rawSock = .ok sock
  setsockopt : w.setsockopt = .ok ()
  fcntl : w.fcntl = .ok ()
  inetPton : w.inetPton = true
  connect : w.connect = .ok ()
  polled : w.polled = .ok true
  soError : w.soError = .ok ()

/-- The checks behind the handshake: what has to go well in front of each, and its clock. -/
def laterChecks (w : ConnectScript) : List (Prop × Nat) := [
  (handshakeLoop w.handshake = .ok (), w.elapsed .authentication),
  (sshLoop "Poll error during authentication: " "Authentication failed: " w.authenticationError w.authentication = .ok (),
    w.elapsed .channel),
  ((channelLoop w.channel).isSome = true, w.elapsed .startup)]

/-- The checks of `connect_notification_non_blocking`. -/
def checks (w : ConnectScript) : List (Prop × Nat) :=
  (w.sessionInit.isSome = true, w.elapsed .resolving) :: (w.Resolves ∧ w.SocketConnects, w.elapsed .handshake) ::
    w.laterChecks

end ConnectScript

/-- The checks of `connect_non_blocking`. -/
def MainScript.checks (w : MainScript) : List (Prop × Nat) :=
  (w.sessionInit.isSome = true, w.elapsed .resolving) :: (w.Resolves, w.socketElapsed) ::
    (w.SocketConnects, w.elapsed .handshake) :: w.laterChecks

variable {cfg : ClientConfig} {σ : Type}

theorem FirstLate.goesWell {goesWell : Prop} {elapsed e : Nat} {checks : List (Prop × Nat)}
    (h : FirstLate cfg ((goesWell, elapsed) :: checks) e) : goesWell := h.1

/-- From the handshake on both connections are the same, down to the hello that has no check. -/
theorem laterChecks_timesOut (w : ConnectScript) (setChannel : Nat → σ → σ) {hello : Attempt σ Bool}
    (hhello : TimesOut hello (fun _ => False)) :
    TimesOut (do
      demand "" (handshakeLoop w.handshake)
      withinSeconds cfg (w.elapsed .authentication) (connectionTimedOut cfg)
      demand "" (sshLoop "Poll error during authentication: " "Authentication failed: " w.authenticationError
        w.authentication)
      withinSeconds cfg (w.elapsed .channel) (connectionTimedOut cfg)
      let rawChannel ← demand "Failed to create channel for NETCONF" (pointer (channelLoop w.channel))
      modify (setChannel rawChannel)
      withinSeconds cfg (w.elapsed .startup) (connectionTimedOut cfg)
      demand "" (sshLoop "Poll error during channel startup: " "Failed to request NETCONF subsystem: " w.startupError
        w.startup)
      hello) (FirstLate cfg w.laterChecks) := by
  refine demand_bind_timesOut (fun _ hhandshake => ?_) (fun what he e h => ?_)
  · apply withinSeconds_bind_timesOut hhandshake
    refine demand_bind_timesOut (fun _ hauth => ?_) (fun what he e h => ?_)
    · apply withinSeconds_bind_timesOut hauth
      refine demand_bind_timesOut (fun rawChannel hchannel => ?_) (fun what he e h => ?_)
      · refine modify_bind_timesOut (withinSeconds_bind_timesOut (pointer_eq_ok hchannel) ?_)
        exact demand_bind_timesOut (fun _ _ => hhello) (fun _ _ _ => id)
      · exact Bool.eq_false_iff.1 (pointer_eq_error he) h.goesWell
    · cases he.symm.trans h.goesWell
  · cases he.symm.trans h.goesWell

/-- The socket's part, whatever the texts. -/
theorem socket_timesOut (w : ConnectScript) (setSocket : Nat → σ → σ) {setsockoptText soErrorText : String}
    {invalidAddress notReady : Bytes} {rest : Attempt σ Bool} {P : Nat → Prop} (hrest : w.SocketConnects → TimesOut rest P)
    (hstop : ¬ w.SocketConnects → ∀ e, ¬ P e) :
    TimesOut (do
      let rawSock ← demand "Failed to create socket: " w.rawSock
      modify (setSocket rawSock)
      demand setsockoptText w.setsockopt
      demand "Failed to set non-blocking mode: " w.fcntl
      throwIf (¬ w.inetPton) invalidAddress
      demand "Connection failed: " w.connect
      let ready ← demand "Poll error: " w.polled
      throwIf (¬ ready) notReady
      demand soErrorText w.soError
      rest) P := by
  refine demand_bind_timesOut (fun sock hsock => ?_)
    (fun what he => hstop fun hc => by obtain ⟨sock, hsock⟩ := hc.rawSock; cases he.symm.trans hsock)
  apply modify_bind_timesOut
  refine demand_bind_timesOut (fun _ hopt => ?_) (fun what he => hstop fun hc => by cases he.symm.trans hc.setsockopt)
  refine demand_bind_timesOut (fun _ hfcntl => ?_) (fun what he => hstop fun hc => by cases he.symm.trans hc.fcntl)
  refine throwIf_bind_timesOut (fun haddress => ?_) (fun hno => hstop fun hc => by simp [hc.inetPton] at hno)
  refine demand_bind_timesOut (fun _ hconnect => ?_) (fun what he => hstop fun hc => by cases he.symm.trans hc.connect)
  refine demand_bind_timesOut (fun ready hready => ?_) (fun what he => hstop fun hc => by cases he.symm.trans hc.polled)
  refine throwIf_bind_timesOut (fun hintime => ?_)
    (fun hlate => hstop fun hc => by cases hready.symm.trans hc.polled; cases hlate)
  refine demand_bind_timesOut (fun _ herror => hrest ?_) (fun what he => hstop fun hc => by cases he.symm.trans hc.soError)
  have htrue : ready = true := by simpa using hintime
  exact ⟨⟨sock, hsock⟩, hopt, hfcntl, by simpa using haddress, hconnect, by rw [hready, htrue], herror⟩

theorem not_resolves_of_error {w : ConnectScript} {what : Bytes} (h : w.resolved = .error what) : ¬ w.Resolves :=
  fun ⟨_, hip, _⟩ => by cases h.symm.trans hip

theorem not_resolves_of_empty {w : ConnectScript} {ip : Bytes} (h : w.resolved = .ok ip) (hnil : ip = []) : ¬ w.Resolves :=
  fun ⟨_, hip, hne⟩ => hne ((Except.ok.inj (h.symm.trans hip)) ▸ hnil)

/-- **`connect_non_blocking` throws at the first of its checks that is late.** -/
theorem establishMain_timesOut (w : MainScript) : TimesOut (MainSession.establishMain cfg w) (FirstLate cfg w.checks) := by
  unfold MainSession.establishMain
  refine demand_bind_timesOut (fun _ hsession => ?_)
    (fun what he e h => Bool.eq_false_iff.1 (pointer_eq_error he) h.goesWell)
  refine modify_bind_timesOut (withinSeconds_bind_timesOut (pointer_eq_ok hsession) ?_)
  refine demand_bind_timesOut (fun ip hip => ?_) (fun what he e h => not_resolves_of_error he h.goesWell)
  refine throwIf_bind_timesOut (fun hne => ?_) (fun hnil e h => not_resolves_of_empty hip (by simpa using hnil) h.goesWell)
  refine modify_bind_timesOut (withinSeconds_bind_timesOut ⟨ip, hip, by simpa using hne⟩ ?_)
  refine socket_timesOut w.toConnectScript _ (fun hconnects => ?_) (fun hno e h => hno h.goesWell)
  refine withinSeconds_bind_timesOut hconnects (laterChecks_timesOut w.toConnectScript _ ?_)
  refine get_bind_timesOut (fun s => transport_bind_timesOut (fun hello => ?_))
  refine throwIf_bind_timesOut (fun _ => ?_) (fun _ _ => id)
  exact transport_bind_timesOut (fun _ => modify_bind_timesOut (pure_timesOut true))

/-- **So does `connect_notification_non_blocking`.** -/
theorem establishTimed_timesOut (w : ConnectScript) :
    TimesOut (NotifSession.establishTimed cfg w) (FirstLate cfg w.checks) := by
  unfold NotifSession.establishTimed
  refine demand_bind_timesOut (fun _ hsession => ?_)
    (fun what he e h => Bool.eq_false_iff.1 (pointer_eq_error he) h.goesWell)
  refine modify_bind_timesOut (withinSeconds_bind_timesOut (pointer_eq_ok hsession) ?_)
  refine demand_bind_timesOut (fun ip hip => ?_) (fun what he e h => not_resolves_of_error he h.goesWell.1)
  apply modify_bind_timesOut
  refine throwIf_bind_timesOut (fun hne => ?_)
    (fun hnil e h => not_resolves_of_empty hip (by simpa using hnil) h.goesWell.1)
  refine socket_timesOut w (fun rawSock (s : NotifSession) => s.resetSocket rawSock) (fun hconnects => ?_)
    (fun hno e h => hno h.goesWell.2)
  refine withinSeconds_bind_timesOut ⟨⟨ip, hip, by simpa using hne⟩, hconnects⟩ (laterChecks_timesOut w _ ?_)
  refine get_bind_timesOut (fun s => transport_bind_timesOut (fun hello => ?_))
  refine throwIf_bind_timesOut (fun _ => ?_) (fun _ _ => id)
  exact transport_bind_timesOut (fun _ => modify_bind_timesOut (pure_timesOut true))

/-! ## No check throws too early -/

/-- The clock's readings never go back. -/
def ClockInOrder (checks : List (Prop × Nat)) : Prop := checks.Pairwise (fun a b => a.2 ≤ b.2)

/-- No check throws while less than `connect_timeout_` is over. -/
def NeverEarly (cfg : ClientConfig) (x : Attempt σ Bool) : Prop :=
  ∀ s elapsed what s', exec x s = (.error (.timedOut elapsed what), s') → seconds cfg.connectTimeout ≤ elapsed

/-- No check that everything in front of goes well has its clock inside the last second of `connect_timeout_`. -/
def MissesLastSecond (cfg : ClientConfig) (checks : List (Prop × Nat)) : Prop :=
  ∀ pre goesWell elapsed post, checks = pre ++ (goesWell, elapsed) :: post → (∀ p ∈ pre, p.1) → goesWell →
    ¬ (seconds cfg.connectTimeout < elapsed + 1000000000 ∧ elapsed < seconds cfg.connectTimeout)

theorem ClientConfig.connectTimeout_pos (cfg : ClientConfig) : 0 < cfg.connectTimeout :=
  ((ClientArgs.check_ok_iff _).1 cfg.accepted).2.2.2.1

/-- **The whole seconds that are left are none** as soon as the last second has begun. -/
theorem currentTimeout_le_zero_iff (cfg : ClientConfig) (elapsed : Nat) :
    currentTimeout cfg elapsed ≤ 0 ↔ seconds cfg.connectTimeout < elapsed + 1000000000 := by
  have hpos := cfg.connectTimeout_pos
  have htdiv : ∀ x : Int, x.tdiv 1000000000 ≤ 0 ↔ x < 1000000000 := by
    intro x
    rcases Int.le_total 0 x with hx | hx
    · rw [Int.tdiv_eq_ediv_of_nonneg hx]
      omega
    · have hneg := Int.tdiv_eq_ediv_of_nonneg (b := 1000000000) (Int.neg_nonneg_of_nonpos hx)
      rw [Int.neg_tdiv] at hneg
      omega
  rw [currentTimeout, htdiv, seconds]
  omega

theorem missesLastSecond_cons {goesWell : Prop} {elapsed : Nat} {checks : List (Prop × Nat)} :
    MissesLastSecond cfg ((goesWell, elapsed) :: checks) ↔ (goesWell →
      ¬ (seconds cfg.connectTimeout < elapsed + 1000000000 ∧ elapsed < seconds cfg.connectTimeout) ∧
      MissesLastSecond cfg checks) := by
  constructor
  · intro h hwell
    refine ⟨h [] goesWell elapsed checks rfl (fun _ hp => by cases hp) hwell, fun pre g e post hsplit hpre => ?_⟩
    exact h ((goesWell, elapsed) :: pre) g e post (by rw [hsplit]; rfl) (List.forall_mem_cons.2 ⟨hwell, hpre⟩)
  · intro h pre g e post hsplit hpre hg
    cases pre with
    | nil =>
      obtain ⟨hhead, -⟩ := List.cons_eq_cons.1 hsplit
      obtain ⟨rfl, rfl⟩ := Prod.mk.inj hhead
      exact (h hg).1
    | cons p pre =>
      obtain ⟨rfl, hrest⟩ := List.cons_eq_cons.1 hsplit
      exact (h (hpre _ List.mem_cons_self)).2 pre g e post hrest (fun p hp => hpre p (List.mem_cons_of_mem _ hp)) hg

/-- **The first late check is not early** exactly when no check that is come to lies in the last second. -/
theorem firstLate_iff {checks : List (Prop × Nat)} (horder : ClockInOrder checks) :
    (∀ e, FirstLate cfg checks e → seconds cfg.connectTimeout ≤ e) ↔ MissesLastSecond cfg checks := by
  induction checks with
  | nil => exact iff_of_true (fun _ h => h.elim) (fun pre g e post h => by cases pre <;> cases h)
  | cons c checks ih =>
    obtain ⟨goesWell, elapsed⟩ := c
    obtain ⟨hle, horder⟩ := List.pairwise_cons.1 horder
    rw [missesLastSecond_cons]
    by_cases hwell : goesWell
    · simp only [FirstLate, hwell, true_and, true_imp_iff, currentTimeout_le_zero_iff]
      by_cases hlate : seconds cfg.connectTimeout < elapsed + 1000000000
      · -- this check throws: behind it the clock is not before it
        simp only [if_pos hlate, forall_eq]
        refine ⟨fun hover => ⟨fun h => Nat.not_lt.2 hover h.2, ?_⟩, fun h => Nat.not_lt.1 fun hlt => h.1 ⟨hlate, hlt⟩⟩
        intro pre g e post hsplit _ _ h
        exact Nat.not_lt.2 (Nat.le_trans hover (hle (g, e) (by rw [hsplit]; simp))) h.2
      · simp only [if_neg hlate, ih horder]
        exact ⟨fun h => ⟨fun hearly => hlate hearly.1, h⟩, fun h => h.2⟩
    · exact iff_of_true (fun _ h => absurd h.1 hwell) (fun h => absurd h hwell)

/-- A call that first refuses a client that is connected. -/
theorem Attempt.TimesOut.neverEarly_iff {x : Attempt σ Bool} {checks : List (Prop × Nat)}
    (h : TimesOut x (FirstLate cfg checks)) (horder : ClockInOrder checks) (connected : σ → Bool) (what : Bytes) (s₀ : σ)
    (hs₀ : connected s₀ = false) :
    NeverEarly cfg (get >>= fun s => throwIf (connected s) what >>= fun _ => x) ↔ MissesLastSecond cfg checks := by
  rw [← firstLate_iff horder]
  constructor
  · intro hnever e he
    obtain ⟨what, s', hexec⟩ := (h s₀ e).2 he
    refine hnever s₀ e what s' ?_
    rw [exec_get_bind, hs₀]
    exact hexec
  · intro hlate s e what s' hexec
    rw [exec_get_bind] at hexec
    cases hc : connected s with
    | true =>
      rw [hc] at hexec
      cases hexec
    | false =>
      rw [hc] at hexec
      exact hlate e ((h s e).1 ⟨what, s', hexec⟩)

/-- **The connections give up in time exactly when no check that they come to lies in the last second of the budget.** -/
theorem connect_budget_iff (cfg : ClientConfig) :
    (∀ w : MainScript, ClockInOrder w.checks →
      (NeverEarly cfg (MainSession.connectNonBlocking cfg w) ↔ MissesLastSecond cfg w.checks)) ∧
    ∀ w : ConnectScript, ClockInOrder w.checks →
      (NeverEarly cfg (NotifSession.connectTimed cfg w) ↔ MissesLastSecond cfg w.checks) := by
  constructor
  · intro w horder
    exact (rethrowing_timesOut (establishMain_timesOut w)).neverEarly_iff horder MainSession.isConnected _ {} rfl
  · intro w horder
    exact (rethrowing_timesOut (establishTimed_timesOut w)).neverEarly_iff horder NotifSession.notifIsConnected _ {} rfl

/-- A second over the minute, at every check. -/
theorem smooth_late_neverEarly :
    NeverEarly defaultClient (MainSession.connectNonBlocking defaultClient (MainSession.smooth 61000000000)) := by
  have helapsed : ∀ c ∈ (MainSession.smooth 61000000000).checks, c.2 = 61000000000 := by
    simp [MainScript.checks, ConnectScript.laterChecks, MainSession.smooth]
  refine ((connect_budget_iff defaultClient).1 (MainSession.smooth 61000000000) ?_).2 fun pre g e post hsplit _ _ h => ?_
  · exact List.pairwise_of_forall_mem_list fun a ha b hb => by rw [helapsed a ha, helapsed b hb]
  · have he := helapsed (g, e) (by rw [hsplit]; simp)
    simp only at he
    rw [he] at h
    exact absurd h.2 (by decide)

/-- A client that gives the connection one second. -/
def hastyClient : ClientConfig where
  hostname := "device"
  port := 830
  username := "admin"
  connectTimeout := 1
  socketConnectTimeout := 1
  accepted := (ClientArgs.check_ok_iff _).2 (by decide)

/-- **One nanosecond of the second is enough**: both connections are refused, with every phase going well. -/
theorem hasty_not_neverEarly :
    (exec (MainSession.connectNonBlocking hastyClient (MainSession.smooth 1)) {}).1 = .error (.timedOut 1
      (ascii "Unable to connect to device: Connection failed to device try increasing connection timeout")) ∧
    (exec (connectNotificationNonBlocking hastyClient (MainSession.smooth 1).toConnectScript) {}).1 = .error (.threw
      (ascii "Unable to connect to device: Connection timed out resolving device")) ∧
    ¬ NeverEarly hastyClient (MainSession.connectNonBlocking hastyClient (MainSession.smooth 1)) ∧
    ¬ NeverEarly hastyClient (NotifSession.connectTimed hastyClient (MainSession.smooth 1).toConnectScript) := by
  have hmain : exec (MainSession.connectNonBlocking hastyClient (MainSession.smooth 1)) {} =
      (.error (.timedOut 1
        (ascii "Unable to connect to device: Connection failed to device try increasing connection timeout")),
        { session := some 1 }) := by decide +kernel
  have hnotif : (exec (NotifSession.connectTimed hastyClient (MainSession.smooth 1).toConnectScript) {}).1 =
      .error (.timedOut 1 (ascii "Unable to connect to device: Connection timed out resolving device")) := by
    decide +kernel
  refine ⟨by rw [hmain], ?_, fun h => ?_, fun h => ?_⟩
  · rw [connectTimed_shows, hnotif]
    rfl
  · exact absurd (h {} 1 _ _ hmain) (by decide)
  · exact absurd (h {} 1 _ _ (Prod.ext hnotif rfl)) (by decide)

/-! ## The blocking connection -/

/-- A program that throws at a check only behind the whole time. -/
def OnTime {α : Type} (cfg : ClientConfig) (x : Attempt σ α) : Prop :=
  Triple (fun _ => True) x (fun _ _ => True)
    (fun halt _ => ∀ elapsed what, halt = .timedOut elapsed what → seconds cfg.connectTimeout < elapsed)

namespace OnTime

variable {α β : Type} {o : Except Bytes α}

theorem bind {x : Attempt σ α} {f : α → Attempt σ β} (hx : OnTime cfg x) (hf : ∀ a, OnTime cfg (f a)) :
    OnTime cfg (x >>= f) :=
  Triple.bind hx hf

theorem pure (a : α) : OnTime cfg (pure a : Attempt σ α) := fun _ _ => trivial

theorem get : OnTime cfg (get : Attempt σ σ) := fun _ _ => trivial

theorem modify (g : σ → σ) : OnTime cfg (modify g : Attempt σ Unit) := fun _ _ => trivial

theorem throwIf (c : Bool) (what : Bytes) : OnTime cfg (throwIf c what : Attempt σ Unit) := by
  cases c with
  | false => exact fun _ _ => trivial
  | true => exact Triple.throw (fun _ _ _ _ h => by cases h)

theorem demand (text : String) (o : Except Bytes α) : OnTime cfg (demand text o : Attempt σ α) := by
  cases o with
  | ok a => exact fun _ _ => trivial
  | error e => exact Triple.throw (fun _ _ _ _ h => by cases h)

theorem transport (o : Outcome α) : OnTime cfg (transport o : Attempt σ α) := by
  rcases o with _ | e | a
  · exact Triple.throw (fun _ _ _ _ h => by cases h)
  · exact Triple.throw (fun _ _ _ _ h => by cases h)
  · exact fun _ _ => trivial

theorem withinTimeout (elapsed : Nat) (what : Bytes) : OnTime cfg (withinTimeout cfg elapsed what : Attempt σ Unit) := by
  unfold Attempt.withinTimeout budget
  split
  · rename_i hover
    refine Triple.throw (fun _ _ e what' h => ?_)
    cases h
    simpa using hover
  · exact fun _ _ => trivial

theorem rethrowing (text : String) {x : Attempt σ α} (h : OnTime cfg x) : OnTime cfg (rethrowing text x) := by
  refine Triple.tryCatch h (fun halt => ?_)
  cases halt with
  | threw what | waits => exact Triple.throw (fun _ _ _ _ h => by cases h)
  | timedOut elapsed what =>
    refine Triple.throw (fun _ hs e what' he => ?_)
    cases he
    exact hs elapsed what rfl

end OnTime

/-- **`connect_blocking` never gives up before its time is over.** -/
theorem connectBlocking_neverEarly (cfg : ClientConfig) (w : MainBlockingScript) :
    NeverEarly cfg (MainSession.connectBlocking cfg w) := by
  have hestablish : OnTime cfg (MainSession.establishMainBlocking cfg w) := by
    unfold MainSession.establishMainBlocking
    repeat' with_reducible refine OnTime.bind ?_ (fun _ => ?_)
    all_goals first
      | with_reducible exact OnTime.demand _ _
      | with_reducible exact OnTime.throwIf _ _
      | with_reducible exact OnTime.withinTimeout _ _
      | with_reducible exact OnTime.transport _
      | with_reducible exact OnTime.modify _
      | with_reducible exact OnTime.get
      | with_reducible exact OnTime.pure _
  have hconnect : OnTime cfg (MainSession.connectBlocking cfg w) :=
    OnTime.get.bind (fun s => (OnTime.throwIf _ _).bind (fun _ => hestablish.rethrowing _))
  exact fun s elapsed what s' hexec => Nat.le_of_lt (hconnect.threw trivial hexec elapsed what rfl)

end PyNetX
