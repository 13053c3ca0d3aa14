import PyNetX.ManagerInv
import PyNetX.Isolation
/-!
# ActiveFlag — what `notif_is_connected_` says of the handles

`subscribe_non_blocking` reads its socket's number, registers it, and sets the flag in a later section.  From the
registration on, a reactor's thread serves the socket, and its clean-up may close the handles in front of the flag; so
may a deletion, and one that comes in front of the registration has the call register a number that is closed, or that
is another client's by then.
-/
namespace PyNetX

open Run (run Along)

def NotifClient.Whole (x : NotifClient) : Prop := x.session.isSome ∧ x.channel = true ∧ x.socket.isSome

/-- What the flag says of the handles where a call of `subscribe_non_blocking` is.  After the connection the handles are
closed together or not at all. -/
def SubscribePc.Agrees (x : NotifClient) : SubscribePc → Prop
  | .idle | .check | .failed | .failedQueue => x.connected = true → x.Whole
  | .session | .socket | .channel | .reply => x.connected = false
  | .clear | .add => x.connected = false ∧ (x.Bare ∨ x.Whole)
  -- a client without handles has no number to register
  | .register fd => x.connected = false ∧ (0 ≤ fd → x.Whole)
  | .flag => x.connected = false ∧ x.Whole

/-- Behind the reading of `notif_socket_` for `NotificationReactorManager::add`, in front of the section that sets the
flag. -/
def SubscribePc.registering : SubscribePc → Bool
  | .register _ | .flag => true
  | _ => false

/-- Two clients that hold the same and have the same flag. -/
structure NotifClient.SameHandles (x x' : NotifClient) : Prop where
  session : x'.session = x.session
  channel : x'.channel = x.channel
  socket : x'.socket = x.socket
  connected : x'.connected = x.connected

theorem NotifClient.SameHandles.refl (x : NotifClient) : x.SameHandles x := ⟨rfl, rfl, rfl, rfl⟩

theorem SubscribePc.Agrees.of_same {pc : SubscribePc} {x x' : NotifClient} (h : pc.Agrees x) (hx : x.SameHandles x') :
    pc.Agrees x' := by
  obtain ⟨hsession, hchannel, hsocket, hconnected⟩ := hx
  cases pc <;>
    simpa only [SubscribePc.Agrees, NotifClient.Whole, NotifClient.Bare, hsession, hchannel, hsocket, hconnected] using h

/-- Closed handles and a flag that is not set agree with every place but those between the number and the flag. -/
theorem NotifClient.Bare.agrees {x : NotifClient} (h : x.Bare) (hconnected : x.connected = false) {pc : SubscribePc}
    (hpc : pc.registering = false) : pc.Agrees x := by
  cases pc with
  | idle | check | failed | failedQueue => exact fun hx => absurd (hx.symm.trans hconnected) nofun
  | session | socket | channel | reply => exact hconnected
  | clear | add => exact ⟨hconnected, Or.inl h⟩
  | register fd | flag => cases hpc

/-- The step is the section of `mark_notification_dead` that closes the handles of client `c`, in a reactor's clean-up
or in a deletion. -/
def LifeTurn.Marks (s : Lifecycle) (c : Nat) : LifeTurn → Prop
  | .thread r _ _ _ => ∃ h batch, s.threads r = .markHandles h batch ∧ h.client = c
  | .delete u _ => s.deletes u = .markHandles c
  | _ => False

theorem Manager.nonneg_of_add {m : Manager} {fd : Int} {client : Option Nat} {created kernel : Except String Unit}
    (h : (m.add fd client created kernel).2 = .returned) : 0 ≤ fd := by
  have hplace : ∀ (m : Manager) (a : Nat), (m.place fd a false kernel).2 = .returned → 0 ≤ fd := by
    intro m a h
    obtain ⟨ended, hended, he, _⟩ | ⟨r, _, htakes, _⟩ := place_cases m fd a false kernel
    · exact absurd (by rw [he] at h; exact h) hended
    · exact htakes.1
  obtain ⟨_, what, he⟩ | ⟨c, _, _, he⟩ | ⟨c, _, _, he⟩ := add_cases m fd client created kernel
  · rw [he] at h
    cases h
  · exact hplace _ c (he ▸ h)
  · exact hplace _ c (he ▸ h)

namespace Lifecycle

variable {s s' : Lifecycle} {a c : Nat}

/-- The handles of client `c`'s notification session are live: there, and the socket's number names a socket of the
client's that is open. -/
def Live (s : Lifecycle) (c : Nat) : Prop :=
  (s.clients c).session.isSome ∧ (s.clients c).channel = true ∧
    ∃ fd, (s.clients c).socket = some fd ∧ 0 ≤ fd ∧ ∃ f, s.files fd = some f ∧ f.client = c

/-- If the flag is set, the handles are live; and a call that is rejected because of it is rejected for a session that
is live. -/
def FlagLive (s : Lifecycle) (c : Nat) : Prop :=
  ((s.clients c).connected = true → s.Live c) ∧
    ∀ ok fd created kernel, s.subscribes c = .check → (s.subscribeStep c ok fd created kernel).subscribes c = .failed →
      s.Live c

/-- The step does not close client `c`'s handles between the reading of `notif_socket_` for
`NotificationReactorManager::add` and the section that sets the flag. -/
def Undisturbed (s : Lifecycle) (c : Nat) (t : LifeTurn) : Prop := t.Marks s c → (s.subscribes c).registering = false

/-- Every socket that a client holds is open and its own. -/
def SocketsOpen (s : Lifecycle) : Prop :=
  ∀ c fd, (s.clients c).socket = some fd → 0 ≤ fd ∧ ∃ f, s.files fd = some f ∧ f.client = c

/-- **The invariant**: the flag of client `c` agrees with its handles. -/
def FlagAgrees (s : Lifecycle) (c : Nat) : Prop := s.SocketsOpen ∧ (s.subscribes c).Agrees (s.clients c)

theorem FlagAgrees.flagLive (h : s.FlagAgrees c) : s.FlagLive c := by
  obtain ⟨hopen, hagrees⟩ := h
  have hlive : (s.clients c).connected = true → s.Live c := by
    intro hconnected
    have hwhole : (s.clients c).Whole := by
      cases hpc : s.subscribes c with
      | idle | check | failed | failedQueue =>
        rw [hpc] at hagrees
        exact hagrees hconnected
      | session | socket | channel | reply =>
        rw [hpc] at hagrees
        exact absurd (hconnected.symm.trans hagrees) nofun
      | clear | add | register fd | flag =>
        rw [hpc] at hagrees
        exact absurd (hconnected.symm.trans hagrees.1) nofun
    obtain ⟨hsession, hchannel, hsocket⟩ := hwhole
    obtain ⟨fd, hfd⟩ := Option.isSome_iff_exists.1 hsocket
    exact ⟨hsession, hchannel, fd, hfd, hopen c fd hfd⟩
  refine ⟨hlive, fun ok fd created kernel hpc hfailed => hlive ?_⟩
  by_contra hconnected
  simp [subscribeStep, hpc, hconnected, setSubscribe] at hfailed

/-! ## Closing the handles -/

theorem closeSocket_other (hac : c ≠ a) : (s.closeSocket a).clients c = s.clients c := by
  unfold closeSocket
  split
  · rfl
  · simp [setClient, hac]

theorem closeSocket_subscribes (s : Lifecycle) (a : Nat) : (s.closeSocket a).subscribes = s.subscribes := by
  unfold closeSocket
  split <;> rfl

theorem SocketsOpen.closeSocket (h : s.SocketsOpen) (a : Nat) : (s.closeSocket a).SocketsOpen := by
  intro c fd hfd
  by_cases hac : c = a
  · subst hac
    rw [closeSocket_client] at hfd
    cases hfd
  · rw [closeSocket_other hac] at hfd
    obtain ⟨hnonneg, f, hf, hclient⟩ := h c fd hfd
    refine ⟨hnonneg, f, ?_, hclient⟩
    unfold Lifecycle.closeSocket
    split
    · exact hf
    · rename_i fd' hsocket
      -- the number that is closed names a socket of client `a`'s
      obtain ⟨_, f', hf', hclient'⟩ := h a fd' hsocket
      have hne : fd ≠ fd' := by
        rintro rfl
        rw [hf] at hf'
        cases hf'
        exact hac (hclient.symm.trans hclient')
      simp [hne, hf]

theorem markHandles_other (hac : c ≠ a) : (s.markHandles a).clients c = s.clients c := by
  simp [markHandles, setClient, hac, closeSocket_other hac]

theorem markHandles_connected (s : Lifecycle) (a : Nat) : ((s.markHandles a).clients a).connected = false := by
  simp [markHandles, setClient]

theorem markHandles_subscribes (s : Lifecycle) (a : Nat) : (s.markHandles a).subscribes = s.subscribes :=
  closeSocket_subscribes s a

theorem SocketsOpen.of_same (h : s.SocketsOpen) (hsocket : ∀ a, (s'.clients a).socket = (s.clients a).socket)
    (hfiles : s'.files = s.files) : s'.SocketsOpen := by
  intro a fd hfd
  rw [hfiles]
  exact h a fd (by rw [← hsocket]; exact hfd)

theorem SocketsOpen.markHandles (h : s.SocketsOpen) (a : Nat) : (s.markHandles a).SocketsOpen := by
  refine (h.closeSocket a).of_same (fun b => ?_) rfl
  by_cases hab : b = a
  · subst hab
    simp [Lifecycle.markHandles, setClient]
  · rw [markHandles_other hab, closeSocket_other hab]

theorem FlagAgrees.markHandles (h : s.FlagAgrees c) (hpc : c = a → (s.subscribes c).registering = false) :
    (s.markHandles a).FlagAgrees c := by
  refine ⟨h.1.markHandles a, ?_⟩
  rw [markHandles_subscribes]
  by_cases hac : c = a
  · subst hac
    exact (markHandles_bare s c).agrees (markHandles_connected s c) (hpc rfl)
  · rw [markHandles_other hac]
    exact h.2

/-! ## The steps that are not the subscription's -/

structure SameHandles (s s' : Lifecycle) : Prop where
  clients : ∀ a, (s.clients a).SameHandles (s'.clients a)
  subscribes : s'.subscribes = s.subscribes
  files : s'.files = s.files

theorem FlagAgrees.of_same (h : s.FlagAgrees c) (hs : s.SameHandles s') : s'.FlagAgrees c := by
  refine ⟨h.1.of_same (fun a => (hs.clients a).socket) hs.files, ?_⟩
  rw [hs.subscribes]
  exact h.2.of_same (hs.clients c)

theorem SameHandles.refl (s : Lifecycle) : s.SameHandles s := ⟨fun _ => .refl _, rfl, rfl⟩

theorem SameHandles.of_eq (hclients : s'.clients = s.clients) (hsubscribes : s'.subscribes = s.subscribes)
    (hfiles : s'.files = s.files) : s.SameHandles s' :=
  ⟨fun a => by rw [hclients]; exact .refl _, hsubscribes, hfiles⟩

theorem SameHandles.setClient {x : NotifClient} (hx : (s.clients a).SameHandles x) : s.SameHandles (s.setClient a x) := by
  refine ⟨fun b => ?_, rfl, rfl⟩
  simp only [Lifecycle.setClient, Function.update_apply]
  split
  · rename_i hab
    rw [hab]
    exact hx
  · exact .refl _

theorem sameHandles_markQueue (s : Lifecycle) (a : Nat) : s.SameHandles (s.markQueue a) := .setClient ⟨rfl, rfl, rfl, rfl⟩

/-- **What a deletion's step does**: it closes a client's handles, or nothing to them. -/
theorem deleteStep_cases (s : Lifecycle) (u a : Nat) :
    (∃ b, s.deletes u = .markHandles b ∧ (s.markHandles b).SameHandles (s.deleteStep u a)) ∨
      s.SameHandles (s.deleteStep u a) := by
  unfold deleteStep
  split
  · exact Or.inr (.of_eq rfl rfl rfl)
  · split <;> exact Or.inr (.of_eq rfl rfl rfl)
  · exact Or.inr (.of_eq rfl rfl rfl)
  · rename_i b hpc
    exact Or.inl ⟨b, hpc, .of_eq rfl rfl rfl⟩
  · rename_i b _
    exact Or.inr ⟨(sameHandles_markQueue s b).clients, rfl, rfl⟩

/-- **What a thread's step does**: the same. -/
theorem threadStep_cases (s : Lifecycle) (r : Nat) (ok again : Bool) (parsed : Nat) :
    (∃ h batch, s.threads r = .markHandles h batch ∧
        (s.markHandles h.client).SameHandles (s.threadStep r ok again parsed)) ∨
      s.SameHandles (s.threadStep r ok again parsed) := by
  unfold threadStep
  split
  · exact Or.inr (.refl s)
  · exact Or.inr (.of_eq rfl rfl rfl)
  · split <;> exact Or.inr (.of_eq rfl rfl rfl)
  · simp only
    split <;> exact Or.inr (.of_eq rfl rfl rfl)
  · rename_i h k batch _
    have happended := SameHandles.setClient (s := s) (a := h.client) (x := { s.clients h.client with
      rx := ((s.clients h.client).rx ++ [k]).drop parsed
      queue := (s.clients h.client).queue ++ ((s.clients h.client).rx ++ [k]).take parsed }) ⟨rfl, rfl, rfl, rfl⟩
    exact Or.inr ⟨happended.clients, rfl, rfl⟩
  · exact Or.inr (.of_eq rfl rfl rfl)
  · exact Or.inr (.of_eq rfl rfl rfl)
  · exact Or.inr (.of_eq rfl rfl rfl)
  · rename_i h batch hpc
    exact Or.inl ⟨h, batch, hpc, .of_eq rfl rfl rfl⟩
  · rename_i h batch _
    exact Or.inr ⟨(sameHandles_markQueue s h.client).clients, rfl, rfl⟩

theorem pollStep_same (s : Lifecycle) (r : Nat) (ready : List (Int × Bool)) : s.SameHandles (s.pollStep r ready) := by
  unfold pollStep
  split
  · exact .of_eq rfl rfl rfl
  · exact .refl s

theorem startReactors_same (s : Lifecycle) (newCount : Nat) : s.SameHandles (s.startReactors newCount) := by
  unfold startReactors
  split
  · exact .of_eq rfl rfl rfl
  · exact .refl s

/-! ## The subscription's steps -/

theorem subscribeStep_other {ok : Bool} {fd : Int} {created kernel : Except String Unit} (hac : c ≠ a) :
    (s.subscribeStep a ok fd created kernel).clients c = s.clients c ∧
      (s.subscribeStep a ok fd created kernel).subscribes c = s.subscribes c := by
  have hclose := closeSocket_other (s := s) hac
  have hmark := markHandles_other (s := s) hac
  unfold subscribeStep
  simp only
  split
  all_goals repeat' split
  all_goals simp [setSubscribe, Lifecycle.setClient, Lifecycle.markQueue, markHandles_subscribes, closeSocket_subscribes, hac,
    hclose, hmark]

/-- A socket that is opened under a number that names none is one more open socket. -/
theorem SocketsOpen.opened {fd : Int} {k : Nat} (h : s.SocketsOpen) (hfd : 0 ≤ fd) (hfree : s.files fd = none) :
    SocketsOpen { s.setClient a { s.clients a with socket := some fd } with
      files := Function.update s.files fd (some ⟨a, k⟩) } := by
  intro c fd' hsocket
  simp only [Lifecycle.setClient, Function.update_apply] at hsocket
  split at hsocket
  · rename_i hca
    obtain rfl := Option.some.inj hsocket
    exact ⟨hfd, ⟨a, k⟩, by simp, hca.symm⟩
  · obtain ⟨hnonneg, f, hf, hclient⟩ := h c fd' hsocket
    have hne : fd' ≠ fd := by
      rintro rfl
      rw [hfree] at hf
      cases hf
    exact ⟨hnonneg, f, by simp [hne, hf], hclient⟩

theorem SocketsOpen.subscribeStep {ok : Bool} {fd : Int} {created kernel : Except String Unit} (h : s.SocketsOpen) :
    (s.subscribeStep a ok fd created kernel).SocketsOpen := by
  have hset : ∀ (x : NotifClient) (pc : SubscribePc), x.socket = (s.clients a).socket →
      ((s.setClient a x).setSubscribe a pc).SocketsOpen := by
    intro x pc hx
    refine h.of_same (fun b => ?_) rfl
    simp only [setSubscribe, Lifecycle.setClient, Function.update_apply]
    split
    · rename_i hba
      rw [hx, hba]
    · rfl
  unfold Lifecycle.subscribeStep
  simp only
  split
  · exact h
  · exact h
  · split
    · exact hset _ _ rfl
    · exact h
  · split
    · split
      · rename_i hfd
        have hfree : (s.closeSocket a).files fd = none := by
          unfold Lifecycle.closeSocket
          split
          · exact hfd.2
          · simp [Function.update_apply, hfd.2]
        have hopened := (h.closeSocket a).opened (a := a) (k := (s.clients a).generation) hfd.1 hfree
        exact hopened.of_same (fun b => rfl) rfl
      · exact h
    · exact h
  · split
    · exact hset _ _ rfl
    · exact h
  · exact hset _ _ rfl
  · exact hset _ _ rfl
  · exact h
  · split <;> exact h
  · exact hset _ _ rfl
  · exact h.markHandles a
  · show (s.markQueue a).SocketsOpen
    exact h.of_same (fun b => ((sameHandles_markQueue s a).clients b).socket) rfl

theorem agrees_setSubscribe (pc : SubscribePc) (h : pc.Agrees (s.clients c)) :
    ((s.setSubscribe c pc).subscribes c).Agrees ((s.setSubscribe c pc).clients c) := by
  simpa [setSubscribe] using h

theorem agrees_moved {x : NotifClient} (pc : SubscribePc) (h : pc.Agrees x) :
    (((s.setClient c x).setSubscribe c pc).subscribes c).Agrees (((s.setClient c x).setSubscribe c pc).clients c) := by
  simpa [setSubscribe, Lifecycle.setClient] using h

/-- **A turn of the client's own call keeps flag and handles in agreement**, place by place. -/
theorem agrees_subscribeStep {ok : Bool} {fd : Int} {created kernel : Except String Unit}
    (h : (s.subscribes c).Agrees (s.clients c)) : ((s.subscribeStep c ok fd created kernel).subscribes c).Agrees
      ((s.subscribeStep c ok fd created kernel).clients c) := by
  cases hpc : s.subscribes c with
  | idle =>
    rw [hpc] at h
    simp only [Lifecycle.subscribeStep, hpc]
    exact agrees_setSubscribe .check h
  | check =>
    rw [hpc] at h
    simp only [Lifecycle.subscribeStep, hpc]
    apply agrees_setSubscribe _
    split
    · exact h
    · rename_i hconnected
      exact Bool.eq_false_of_not_eq_true hconnected
  | session =>
    rw [hpc] at h
    simp only [Lifecycle.subscribeStep, hpc]
    have hoff : (s.clients c).connected = false := h
    split
    · exact agrees_moved .socket hoff
    · exact agrees_setSubscribe .failed (fun hon => Bool.noConfusion (hon.symm.trans hoff))
  | socket =>
    rw [hpc] at h
    simp only [Lifecycle.subscribeStep, hpc]
    have hoff : (s.clients c).connected = false := h
    split
    · split
      · apply agrees_moved (s := s.closeSocket c) .channel
        rw [closeSocket_client]
        exact hoff
      · rw [hpc]
        exact hoff
    · exact agrees_setSubscribe .failed (fun hon => Bool.noConfusion (hon.symm.trans hoff))
  | channel =>
    rw [hpc] at h
    simp only [Lifecycle.subscribeStep, hpc]
    have hoff : (s.clients c).connected = false := h
    split
    · exact agrees_moved .reply hoff
    · exact agrees_setSubscribe .failed (fun hon => Bool.noConfusion (hon.symm.trans hoff))
  | reply =>
    simp only [Lifecycle.subscribeStep, hpc]
    apply agrees_moved _
    split
    · rename_i hok
      exact ⟨rfl, Or.inr ⟨hok.2.2.1, hok.2.1, by simpa [Lifecycle.setClient] using hok.2.2.2⟩⟩
    · exact fun hon => Bool.noConfusion hon
  | clear =>
    rw [hpc] at h
    simp only [Lifecycle.subscribeStep, hpc]
    exact agrees_moved .add ⟨h.1, h.2⟩
  | add =>
    rw [hpc] at h
    simp only [Lifecycle.subscribeStep, hpc]
    obtain ⟨hoff, hhandles⟩ := h
    refine agrees_setSubscribe (s := s) (.register _) ⟨hoff, fun hnonneg => hhandles.resolve_left (fun hbare => ?_)⟩
    rw [hbare.2.2] at hnonneg
    exact absurd hnonneg (by decide)
  | register number =>
    rw [hpc] at h
    simp only [Lifecycle.subscribeStep, hpc]
    obtain ⟨hoff, hhandles⟩ := h
    have hfailed : SubscribePc.failed.Agrees (s.clients c) := fun hon => Bool.noConfusion (hon.symm.trans hoff)
    split
    · rename_i m hadd
      exact agrees_setSubscribe (s := s) .flag ⟨hoff, hhandles (Manager.nonneg_of_add (congrArg Prod.snd hadd))⟩
    · exact agrees_setSubscribe (s := s) _ hfailed
  | flag =>
    rw [hpc] at h
    simp only [Lifecycle.subscribeStep, hpc]
    exact agrees_moved .idle (fun _ => h.2)
  | failed =>
    simp only [Lifecycle.subscribeStep, hpc]
    apply agrees_setSubscribe .failedQueue
    exact (markHandles_bare s c).agrees (markHandles_connected s c) rfl
  | failedQueue =>
    rw [hpc] at h
    simp only [Lifecycle.subscribeStep, hpc]
    exact agrees_moved .idle h

theorem FlagAgrees.subscribeStep {ok : Bool} {fd : Int} {created kernel : Except String Unit} (h : s.FlagAgrees c) :
    (s.subscribeStep a ok fd created kernel).FlagAgrees c := by
  refine ⟨h.1.subscribeStep, ?_⟩
  by_cases hac : c = a
  · subst hac
    exact agrees_subscribeStep h.2
  · rw [(subscribeStep_other hac).1, (subscribeStep_other hac).2]
    exact h.2

/-! ## The step and the run -/

/-- **A step keeps flag and handles in agreement** when it does not close them between the number and the flag. -/
theorem FlagAgrees.step {t : LifeTurn} (h : s.FlagAgrees c) (hfree : s.Undisturbed c t) : (s.step t).FlagAgrees c := by
  cases t with
  | setReactorCount newCount => exact h.of_same (startReactors_same s newCount)
  | subscribe a ok fd created kernel => exact h.subscribeStep
  | delete u a =>
    obtain ⟨b, hpc, hs⟩ | hs := deleteStep_cases s u a
    · refine (h.markHandles (fun hcb => hfree ?_)).of_same hs
      rw [hcb]
      exact hpc
    · exact h.of_same hs
  | poll r ready => exact h.of_same (pollStep_same s r ready)
  | thread r ok again parsed =>
    obtain ⟨hand, batch, hpc, hs⟩ | hs := threadStep_cases s r ok again parsed
    · exact (h.markHandles (fun hc => hfree ⟨hand, batch, hpc, hc.symm⟩)).of_same hs
    · exact h.of_same hs

theorem flagAgrees_start (c : Nat) : FlagAgrees {} c := ⟨nofun, nofun⟩

/-- **In every run in which no clean-up and no deletion closes the client's handles between the reading of the number to
register and the flag, a flag that is set says that the handles are live.** -/
theorem flagLive_of_undisturbed {turns : List LifeTurn} {c : Nat}
    (h : Along Lifecycle.step (fun s t => s.Undisturbed c t) {} turns) : (runLifecycle turns).FlagLive c :=
  (Run.along_invariant (I := fun s : Lifecycle => s.FlagAgrees c) (fun _ _ h => h.step) (flagAgrees_start c) turns
    h).flagLive

theorem resubscribesAfter_flagLive : ((runLifecycle resubscribesAfter).clients 0).connected = true ∧
    (runLifecycle resubscribesAfter).FlagLive 0 := by
  refine ⟨rfl, flagLive_of_undisturbed ?_⟩
  have hsub {s : Lifecycle} {fd : Int} : s.Undisturbed 0 (.subscribe 0 true fd (.ok ()) (.ok ())) := fun h => h.elim
  have hne {s : Lifecycle} {t : LifeTurn} (h : (s.subscribes 0).registering = false) : s.Undisturbed 0 t := fun _ => h
  simp only [resubscribesAfter, subscribing0, notified0, List.replicate, List.cons_append, List.nil_append,
    Run.along_cons]
  refine ⟨hsub, hsub, hsub, hsub, hsub, hsub, hsub, hsub, hsub, hsub,
    hne (by decide), hne (by decide), hne (by decide), hne (by decide), hne (by decide), hne (by decide),
    hne (by decide), hne (by decide), hne (by decide), hne (by decide), hne (by decide),
    hsub, hsub, hsub, hsub, hsub, hsub, hsub, hsub, hsub, hsub,
    hne (by decide), hne (by decide), hne (by decide), hne (by decide), hne (by decide), hne (by decide),
    Run.along_nil⟩

/-- **Handles that are closed in front of the flag**: the flag is set for a session that is dead, and the next
subscription is rejected because of it. -/
theorem not_flagLive_of_closed (ok : Bool) (fd : Int) (created kernel : Except String Unit) (hpc : s.subscribes c = .flag)
    (hbare : (s.clients c).Bare) : ¬ (s.subscribeStep c ok fd created kernel).FlagLive c := by
  intro h
  obtain ⟨hsession, _⟩ := h.1 (by simp [Lifecycle.subscribeStep, hpc, setSubscribe, Lifecycle.setClient])
  have hnone : ((s.subscribeStep c ok fd created kernel).clients c).session = none := by
    simp [Lifecycle.subscribeStep, hpc, setSubscribe, Lifecycle.setClient, hbare.1]
  rw [hnone] at hsession
  cases hsession

/-- The peer closes the connection as soon as the socket is registered: the reactor's thread cleans it up, and the call
sets the flag. -/
def closedBeforeFlag : List LifeTurn :=
  List.replicate 9 (.subscribe 0 true 5 (.ok ()) (.ok ())) ++ [.poll 0 [(5, true)]] ++
    List.replicate 5 (.thread 0 true true 0) ++ [.subscribe 0 true 5 (.ok ()) (.ok ())]

theorem closedBeforeFlag_not_flagLive : ((runLifecycle closedBeforeFlag).clients 0).connected = true ∧
    ((runLifecycle closedBeforeFlag).clients 0).session = none ∧ ¬ (runLifecycle closedBeforeFlag).FlagLive 0 := by
  have hconnected : ((runLifecycle closedBeforeFlag).clients 0).connected = true := rfl
  have hsession : ((runLifecycle closedBeforeFlag).clients 0).session = none := rfl
  refine ⟨hconnected, hsession, fun h => ?_⟩
  obtain ⟨hlive, _⟩ := h.1 hconnected
  rw [hsession] at hlive
  cases hlive

end Lifecycle

end PyNetX
