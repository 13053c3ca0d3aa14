import PyNetX.Lifecycle
import PyNetX.ManagerInv
/-!
# Ownership — whose registration a step removes

Descriptor numbers are the registrations' only names.  While no number is held for two clients at once (`Exclusive`),
every removal hits its own client's registration; the number of a closed descriptor that is given away while a cleanup,
a deletion or a subscription still has it in hand breaks this.
-/
namespace PyNetX

open Run (run Along)

namespace Manager

/-- The manager knows the number as the client's: in `fd_to_client_`, or in a reactor's handler table. -/
def Holds (m : Manager) (c : Nat) (fd : Int) : Prop :=
  m.fdToClient.lookup fd = some c ∨ ∃ (i : Nat) (r : Reactor), m.reactors[i]? = some r ∧ r.handlers.lookup fd = some c

/-- Nothing but what concerns `fd` changes. -/
structure Touches (fd : Int) (m m' : Manager) : Prop where
  maps : ∀ fd' ≠ fd, m'.fdToClient.lookup fd' = m.fdToClient.lookup fd' ∧
    m'.fdToReactor.lookup fd' = m.fdToReactor.lookup fd'
  reactors : ∀ (i : Nat) (r : Reactor), m.reactors[i]? = some r → ∃ r' : Reactor, m'.reactors[i]? = some r' ∧
    ∀ fd' ≠ fd, r'.handlers.lookup fd' = r.handlers.lookup fd' ∧ (fd' ∈ r'.epoll ↔ fd' ∈ r.epoll)

/-- The registrations of client `c` are still there: in the maps, the handler tables and the epoll sets. -/
def Keeps (c : Nat) (m m' : Manager) : Prop :=
  ∀ fd, (m.fdToClient.lookup fd = some c → m'.fdToClient.lookup fd = some c ∧
      m'.fdToReactor.lookup fd = m.fdToReactor.lookup fd) ∧
    ∀ (i : Nat) (r : Reactor), m.reactors[i]? = some r → r.handlers.lookup fd = some c → ∃ r' : Reactor,
      m'.reactors[i]? = some r' ∧ r'.handlers.lookup fd = some c ∧ (fd ∈ r.epoll → fd ∈ r'.epoll)

variable {m m' : Manager} {c a : Nat} {fd : Int}

theorem Keeps.refl (c : Nat) (m : Manager) : Keeps c m m :=
  fun _ => ⟨fun h => ⟨h, rfl⟩, fun _ r hr h => ⟨r, hr, h, id⟩⟩

theorem Touches.refl (fd : Int) (m : Manager) : Touches fd m m :=
  ⟨fun _ _ => ⟨rfl, rfl⟩, fun _ r hr => ⟨r, hr, fun _ _ => ⟨rfl, Iff.rfl⟩⟩⟩

/-- **A step at a number that is not the client's keeps the client's registrations.** -/
theorem Touches.keeps (h : Touches fd m m') (hc : ¬ m.Holds c fd) : Keeps c m m' := by
  intro fd'
  constructor
  · intro hlookup
    have hne : fd' ≠ fd := by
      rintro rfl
      exact hc (Or.inl hlookup)
    obtain ⟨hclient, hreactor⟩ := h.maps fd' hne
    exact ⟨hclient.trans hlookup, hreactor⟩
  · intro i r hr hlookup
    have hne : fd' ≠ fd := by
      rintro rfl
      exact hc (Or.inr ⟨i, r, hr, hlookup⟩)
    obtain ⟨r', hr', hsame⟩ := h.reactors i r hr
    obtain ⟨hhandler, hepoll⟩ := hsame fd' hne
    exact ⟨r', hr', hhandler.trans hlookup, hepoll.2⟩

/-! ## What each step of the manager touches -/

theorem lookup_of_reactor_remove (r : Reactor) (fd fd' : Int) (h : (r.remove fd).handlers.lookup fd' = some c) :
    r.handlers.lookup fd' = some c := by
  unfold Reactor.remove at h
  split at h
  · exact h
  · by_cases he : fd' = fd
    · subst he
      simp at h
    · rwa [AList.lookup_erase_ne he] at h

theorem reactor_remove_ne (r : Reactor) {fd fd' : Int} (he : fd' ≠ fd) :
    (r.remove fd).handlers.lookup fd' = r.handlers.lookup fd' ∧ (fd' ∈ (r.remove fd).epoll ↔ fd' ∈ r.epoll) := by
  unfold Reactor.remove
  split
  · exact ⟨rfl, Iff.rfl⟩
  · exact ⟨AList.lookup_erase_ne he, by simp [he]⟩

theorem touches_modify {i : Nat} (hmaps : ∀ fd' ≠ fd,
    m'.fdToClient.lookup fd' = m.fdToClient.lookup fd' ∧ m'.fdToReactor.lookup fd' = m.fdToReactor.lookup fd')
    (hrs : m'.reactors = m.reactors.modify i (fun r => r.remove fd)) : Touches fd m m' where
  maps := hmaps
  reactors := by
    intro j r hr
    rw [hrs, List.getElem?_modify, hr]
    by_cases hij : i = j
    · exact ⟨r.remove fd, by simp [hij], fun fd' he => reactor_remove_ne r he⟩
    · exact ⟨r, by simp [hij], fun _ _ => ⟨rfl, Iff.rfl⟩⟩

theorem touches_remove (m : Manager) (fd : Int) : Touches fd m (m.remove fd) := by
  unfold Manager.remove
  split
  · exact Touches.refl fd m
  · rename_i idx _
    exact touches_modify (i := idx)
      (fun fd' he => ⟨AList.lookup_erase_ne he, AList.lookup_erase_ne he⟩) rfl

theorem touches_reactorRemove (m : Manager) (i : Nat) (fd : Int) : Touches fd m (m.reactorRemove i fd) :=
  touches_modify (i := i) (fun _ _ => ⟨rfl, rfl⟩) rfl

theorem touches_socketClosed (m : Manager) (fd : Int) : Touches fd m (m.socketClosed fd) where
  maps := fun _ _ => ⟨rfl, rfl⟩
  reactors := by
    intro i r hr
    refine ⟨r.socketClosed fd, by simp [Manager.socketClosed, hr], fun fd' he => ⟨rfl, ?_⟩⟩
    simp [Reactor.socketClosed, he]

theorem touches_placed {best : Nat} {r : Reactor} (hr : m.reactors[best]? = some r) :
    Touches fd m (m.placed fd c best r) where
  maps := fun fd' he => ⟨AList.lookup_insert_ne he, AList.lookup_insert_ne he⟩
  reactors := by
    intro i r₀ hr₀
    by_cases hi : best = i
    · subst hi
      rw [hr] at hr₀
      obtain rfl := Option.some.inj hr₀
      refine ⟨_, List.getElem?_set_self (List.getElem?_eq_some_iff.1 hr).1, fun fd' he => ⟨?_, ?_⟩⟩
      · exact AList.lookup_insert_ne he
      · simp [he]
    · exact ⟨r₀, by simp [placed, List.getElem?_set_ne hi, hr₀], fun _ _ => ⟨rfl, Iff.rfl⟩⟩

theorem touches_place (m : Manager) (fd : Int) (c : Nat) (expired : Bool) (kernel : Except String Unit) :
    Touches fd m (m.place fd c expired kernel).1 := by
  obtain ⟨ended, _, he, _⟩ | ⟨r, hr, _, he⟩ := place_cases m fd c expired kernel
  · rw [he]
    exact Touches.refl fd m
  · rw [he]
    exact touches_placed hr

theorem touches_add (m : Manager) (fd : Int) (c : Option Nat) (created kernel : Except String Unit) :
    Touches fd m (m.add fd c created kernel).1 := by
  obtain ⟨_, what, he⟩ | ⟨c, _, hempty, he⟩ | ⟨c, _, _, he⟩ := add_cases m fd c created kernel
  · rw [he]
    exact Touches.refl fd m
  · rw [he]
    exact ⟨(touches_place _ fd c false kernel).maps, fun i r hr => by rw [hempty] at hr; cases hr⟩
  · rw [he]
    exact touches_place m fd c false kernel

theorem keeps_add_negative (m : Manager) (hfd : fd < 0) (client : Option Nat) (created kernel : Except String Unit) :
    Keeps c m (m.add fd client created kernel).1 := by
  have hplace : ∀ (m : Manager) (a : Nat), (m.place fd a false kernel).1 = m := by
    intro m a
    obtain ⟨ended, _, he, _⟩ | ⟨r, _, htakes, _⟩ := place_cases m fd a false kernel
    · rw [he]
    · exact absurd htakes.1 (not_le.2 hfd)
  obtain ⟨_, what, he⟩ | ⟨a, _, hempty, he⟩ | ⟨a, _, _, he⟩ := add_cases m fd client created kernel
  · rw [he]
    exact Keeps.refl c m
  · rw [he, hplace]
    exact fun fd' => ⟨fun h => ⟨h, rfl⟩, fun i r hr => by rw [hempty] at hr; cases hr⟩
  · rw [he, hplace]
    exact Keeps.refl c m

/-! ## What the manager holds after a step -/

theorem Holds.of_reactors (h : m'.Holds c fd)
    (hmap : m'.fdToClient.lookup fd = some c → m.fdToClient.lookup fd = some c)
    (hreactors : ∀ (i : Nat) (r' : Reactor), m'.reactors[i]? = some r' → r'.handlers.lookup fd = some c →
      ∃ r : Reactor, m.reactors[i]? = some r ∧ r.handlers.lookup fd = some c) : m.Holds c fd := by
  rcases h with h | ⟨i, r', hr', h⟩
  · exact Or.inl (hmap h)
  · obtain ⟨r, hr, hlookup⟩ := hreactors i r' hr' h
    exact Or.inr ⟨i, r, hr, hlookup⟩

theorem handlers_of_modify {fd' : Int} {i : Nat} (hrs : m'.reactors = m.reactors.modify i (fun r => r.remove fd'))
    (j : Nat) (r' : Reactor) (hr' : m'.reactors[j]? = some r') (h : r'.handlers.lookup fd = some c) :
    ∃ r : Reactor, m.reactors[j]? = some r ∧ r.handlers.lookup fd = some c := by
  rw [hrs, List.getElem?_modify] at hr'
  obtain ⟨r, hr, rfl⟩ := Option.map_eq_some_iff.1 hr'
  refine ⟨r, hr, ?_⟩
  by_cases hij : i = j
  · rw [if_pos hij] at h
    exact lookup_of_reactor_remove r fd' fd h
  · rw [if_neg hij] at h
    exact h

theorem Holds.of_remove {fd' : Int} (h : (m.remove fd').Holds c fd) : m.Holds c fd := by
  unfold Manager.remove at h
  split at h
  · exact h
  · refine h.of_reactors (fun hclient => ?_) (handlers_of_modify rfl)
    by_cases he : fd = fd'
    · subst he
      simp at hclient
    · rwa [AList.lookup_erase_ne he] at hclient

theorem Holds.of_reactorRemove {i : Nat} {fd' : Int} (h : (m.reactorRemove i fd').Holds c fd) : m.Holds c fd :=
  h.of_reactors id (handlers_of_modify rfl)

theorem Holds.of_socketClosed {fd' : Int} (h : (m.socketClosed fd').Holds c fd) : m.Holds c fd := by
  refine h.of_reactors id (fun i r' hr' hlookup => ?_)
  simp only [Manager.socketClosed, List.getElem?_map] at hr'
  obtain ⟨r, hr, rfl⟩ := Option.map_eq_some_iff.1 hr'
  exact ⟨r, hr, hlookup⟩

theorem holds_socketClosed_iff {fd' : Int} : (m.socketClosed fd').Holds c fd ↔ m.Holds c fd := by
  refine ⟨Holds.of_socketClosed, fun h => ?_⟩
  rcases h with h | ⟨i, r, hr, h⟩
  · exact Or.inl h
  · exact Or.inr ⟨i, r.socketClosed fd', by simp [Manager.socketClosed, hr], h⟩

theorem Holds.of_place {fd' : Int} {a : Nat} {expired : Bool} {kernel : Except String Unit}
    (h : (m.place fd' a expired kernel).1.Holds c fd) : m.Holds c fd ∨ (c = a ∧ fd = fd' ∧ 0 ≤ fd) := by
  obtain ⟨ended, _, he, _⟩ | ⟨r, hr, htakes, he⟩ := place_cases m fd' a expired kernel
  · rw [he] at h
    exact Or.inl h
  · rw [he] at h
    by_cases hca : c = a ∧ fd = fd'
    · obtain ⟨rfl, rfl⟩ := hca
      exact Or.inr ⟨rfl, rfl, htakes.1⟩
    · have hinsert : ∀ l : FdMap Nat, (l.insert fd' a).lookup fd = some c → l.lookup fd = some c := by
        intro l hl
        by_cases hfd : fd = fd'
        · subst hfd
          rw [AList.lookup_insert] at hl
          exact absurd ⟨(Option.some.inj hl).symm, rfl⟩ hca
        · rwa [AList.lookup_insert_ne hfd] at hl
      refine Or.inl (h.of_reactors (hinsert _) (fun j r' hr' hlookup => ?_))
      obtain ⟨rfl, rfl⟩ | ⟨_, hold⟩ := placed_reactor hr hr'
      · exact ⟨r, hr, hinsert _ hlookup⟩
      · exact ⟨r', hold, hlookup⟩

theorem holds_first_iff (hempty : m.reactors = []) (counts : List Nat) :
    Holds { m with reactors := [{}], deviceCounts := counts } c fd ↔ m.Holds c fd := by
  constructor
  · rintro (h | ⟨i, r, hr, h⟩)
    · exact Or.inl h
    · obtain rfl : r = {} := by
        cases i with
        | zero => exact (Option.some.inj hr).symm
        | succ i => cases hr
      cases h
  · rintro (h | ⟨i, r, hr, _⟩)
    · exact Or.inl h
    · rw [hempty] at hr
      cases hr

theorem Holds.of_add {fd' : Int} {a : Nat} {created kernel : Except String Unit}
    (h : (m.add fd' (some a) created kernel).1.Holds c fd) : m.Holds c fd ∨ (c = a ∧ fd = fd' ∧ 0 ≤ fd) := by
  obtain ⟨_, what, he⟩ | ⟨b, hb, hempty, he⟩ | ⟨b, hb, _, he⟩ := add_cases m fd' (some a) created kernel
  · rw [he] at h
    exact Or.inl h
  · cases hb
    rw [he] at h
    exact h.of_place.imp_left (holds_first_iff hempty _).1
  · cases hb
    rw [he] at h
    exact h.of_place

theorem holds_add_iff {fd' : Int} {a : Nat} {created kernel : Except String Unit}
    (h : (m.add fd' (some a) created kernel).2 ≠ .returned) :
    (m.add fd' (some a) created kernel).1.Holds c fd ↔ m.Holds c fd := by
  obtain ⟨_, what, he⟩ | ⟨b, _, hempty, he⟩ | ⟨b, _, _, he⟩ := add_cases m fd' (some a) created kernel
  · rw [he]
  · rw [he] at h ⊢
    obtain ⟨ended, _, hp, _⟩ | ⟨r, _, _, hp⟩ := place_cases _ fd' b false kernel
    · rw [hp]
      exact holds_first_iff hempty _
    · rw [hp] at h
      exact absurd rfl h
  · rw [he] at h ⊢
    obtain ⟨ended, _, hp, _⟩ | ⟨r, _, _, hp⟩ := place_cases m fd' b false kernel
    · rw [hp]
    · rw [hp] at h
      exact absurd rfl h

end Manager

/-! ## Who holds a number -/

/-- What the thread works on, while it may still remove its descriptor. -/
def ThreadPc.target : ThreadPc → Option InHand
  | .read h _ | .append h _ _ | .wait h _ | .managerRemove h _ | .reactorRemove h _ => some h
  | _ => none

def DeletePc.client (c : Nat) : DeletePc → Nat
  | .idle => c
  | .readFd c | .remove c _ | .markHandles c | .markQueue c => c

/-- The client that the step is executed for. -/
def LifeTurn.client (s : Lifecycle) : LifeTurn → Option Nat
  | .setReactorCount _ => none
  | .subscribe c _ _ _ _ => some c
  | .delete u c => some ((s.deletes u).client c)
  | .poll _ _ => none
  | .thread r _ _ _ => (s.threads r).inHand.map (·.client)

namespace Lifecycle

/-- The number is held for the client: by its socket, by a subscription that has read it to register it, by a
registration, by a reactor's thread or by a deletion. -/
inductive Holds (s : Lifecycle) (c : Nat) (fd : Int) : Prop where
  | socket (h : (s.clients c).socket = some fd)
  | subscription (hfd : 0 ≤ fd) (h : s.subscribes c = .register fd)
  | manager (h : s.manager.Holds c fd)
  | thread (r : Nat) (h : (s.threads r).target.map (fun h => (h.client, h.fd)) = some (c, fd))
  | delete (u : Nat) (h : s.deletes u = .remove c fd)

/-- No number is held for two clients. -/
def Exclusive (s : Lifecycle) : Prop := ∀ c c' fd, s.Holds c fd → s.Holds c' fd → c = c'

/-- The number that `socket()` gives is held for no other client. -/
def FreshNumber (s : Lifecycle) : LifeTurn → Prop
  | .subscribe c true fd _ _ => s.subscribes c = .socket → 0 ≤ fd → s.files fd = none → ∀ c', s.Holds c' fd → c' = c
  | _ => True

variable {s s' : Lifecycle} {a c : Nat} {fd : Int}

/-! ## What is held after a step -/

theorem Holds.of_same (h : s'.Holds c fd) (hclients : s'.clients = s.clients) (hsubscribes : s'.subscribes = s.subscribes)
    (hthreads : s'.threads = s.threads) (hdeletes : s'.deletes = s.deletes)
    (hmanager : s'.manager.Holds c fd → s.Holds c fd) : s.Holds c fd := by
  cases h with
  | socket h => exact .socket (hclients ▸ h)
  | subscription hfd h => exact .subscription hfd (hsubscribes ▸ h)
  | manager h => exact hmanager h
  | thread r h => exact .thread r (hthreads ▸ h)
  | delete u h => exact .delete u (hdeletes ▸ h)

theorem Holds.of_setClient {x : NotifClient} (h : (s.setClient a x).Holds c fd)
    (hx : c = a → x.socket = some fd → s.Holds c fd) : s.Holds c fd := by
  cases h with
  | socket h =>
    simp only [setClient, Function.update_apply] at h
    split at h
    · rename_i hc
      exact hx hc h
    · exact .socket h
  | subscription hfd h => exact .subscription hfd h
  | manager h => exact .manager h
  | thread r h => exact .thread r h
  | delete u h => exact .delete u h

theorem Holds.of_setSubscribe {pc : SubscribePc} (h : (s.setSubscribe a pc).Holds c fd)
    (hpc : c = a → 0 ≤ fd → pc = .register fd → s.Holds c fd) : s.Holds c fd := by
  cases h with
  | socket h => exact .socket h
  | subscription hfd h =>
    simp only [setSubscribe, Function.update_apply] at h
    split at h
    · rename_i hc
      exact hpc hc hfd h
    · exact .subscription hfd h
  | manager h => exact .manager h
  | thread r h => exact .thread r h
  | delete u h => exact .delete u h

theorem Holds.of_setDelete {u : Nat} {pc : DeletePc} (h : (s.setDelete u pc).Holds c fd)
    (hpc : pc = .remove c fd → s.Holds c fd) : s.Holds c fd := by
  cases h with
  | socket h => exact .socket h
  | subscription hfd h => exact .subscription hfd h
  | manager h => exact .manager h
  | thread r h => exact .thread r h
  | delete u' h =>
    simp only [setDelete, Function.update_apply] at h
    split at h
    · exact hpc h
    · exact .delete u' h

theorem Holds.of_setThread {r : Nat} {pc : ThreadPc} (h : (s.setThread r pc).Holds c fd)
    (hpc : pc.target.map (fun h => (h.client, h.fd)) = some (c, fd) → s.Holds c fd) : s.Holds c fd := by
  cases h with
  | socket h => exact .socket h
  | subscription hfd h => exact .subscription hfd h
  | manager h => exact .manager h
  | thread r' h =>
    simp only [setThread, Function.update_apply] at h
    split at h
    · exact hpc h
    · exact .thread r' h
  | delete u h => exact .delete u h

theorem Holds.of_closeSocket (h : (s.closeSocket a).Holds c fd) : s.Holds c fd := by
  unfold closeSocket at h
  split at h
  · exact h
  · have hmid : (s.setClient a { s.clients a with socket := none }).Holds c fd :=
      h.of_same rfl rfl rfl rfl (fun hm => .manager hm.of_socketClosed)
    exact hmid.of_setClient nofun

theorem Holds.of_markHandles (h : (s.markHandles a).Holds c fd) : s.Holds c fd :=
  (h.of_setClient (fun hc hsocket => .socket (hc ▸ hsocket))).of_closeSocket

theorem Holds.of_markQueue (h : (s.markQueue a).Holds c fd) : s.Holds c fd :=
  h.of_setClient (fun hc hsocket => .socket (hc ▸ hsocket))

theorem subscribeStep_register {number : Int} (ok : Bool) (fd : Int) (created kernel : Except String Unit)
    (hpc : s.subscribes a = .register number) :
    ∃ pc, (pc = .flag ∨ pc = .failed) ∧ s.subscribeStep a ok fd created kernel = { s.setSubscribe a pc with
      manager := (s.manager.add number (some a) created kernel).1 } := by
  simp only [subscribeStep, hpc]
  split
  · rename_i hadd
    exact ⟨.flag, Or.inl rfl, by rw [hadd]⟩
  · rename_i hadd
    exact ⟨.failed, Or.inr rfl, by rw [hadd]⟩

/-- **A turn of a subscription makes no number held, but the one that it gets for its new socket.** -/
theorem holds_subscribeStep {ok : Bool} {fd' : Int} {created kernel : Except String Unit}
    (hfresh : s.FreshNumber (.subscribe a ok fd' created kernel))
    (h : (s.subscribeStep a ok fd' created kernel).Holds c fd) :
    s.Holds c fd ∨ (c = a ∧ ∀ c', s.Holds c' fd → c' = a) := by
  by_cases hregister : ∃ number, s.subscribes a = .register number
  · left
    obtain ⟨number, hregister⟩ := hregister
    obtain ⟨pc, hpc, he⟩ := subscribeStep_register ok fd' created kernel hregister
    rw [he] at h
    by_cases hnumber : c = a ∧ fd = number ∧ 0 ≤ fd
    · obtain ⟨rfl, rfl, hfd⟩ := hnumber
      exact .subscription hfd hregister
    · refine (h.of_same (s := s.setSubscribe a pc) rfl rfl rfl rfl (fun hm => ?_)).of_setSubscribe ?_
      · exact .manager (hm.of_add.resolve_right hnumber)
      · rintro _ _ rfl
        rcases hpc with hpc | hpc <;> cases hpc
  unfold subscribeStep at h
  simp only at h
  split at h
  · exact Or.inl (h.of_setSubscribe nofun)
  · refine Or.inl (h.of_setSubscribe (fun _ _ hpc => ?_))
    split at hpc <;> cases hpc
  · split at h
    · exact Or.inl ((h.of_setSubscribe nofun).of_setClient (fun hc hx => .socket (hc ▸ hx)))
    · exact Or.inl (h.of_setSubscribe nofun)
  · rename_i hpc
    split at h
    · rename_i hok
      split at h
      · rename_i hfd
        by_cases hnew : c = a ∧ fd' = fd
        · obtain ⟨rfl, rfl⟩ := hnew
          subst hok
          exact Or.inr ⟨rfl, hfresh hpc hfd.1 hfd.2⟩
        · -- the socket that is replaced is closed
          let x : NotifClient := { (s.closeSocket a).clients a with socket := some fd' }
          have hmid : (((s.closeSocket a).setClient a x).setSubscribe a .channel).Holds c fd :=
            h.of_same rfl rfl rfl rfl (fun hm => .manager hm)
          refine Or.inl (Holds.of_closeSocket (a := a) ((hmid.of_setSubscribe nofun).of_setClient (fun hc hx => ?_)))
          exact absurd ⟨hc, Option.some.inj hx⟩ hnew
      · exact Or.inl h
    · exact Or.inl (h.of_setSubscribe nofun)
  · split at h
    · exact Or.inl ((h.of_setSubscribe nofun).of_setClient (fun hc hx => .socket (hc ▸ hx)))
    · exact Or.inl (h.of_setSubscribe nofun)
  · refine Or.inl ((h.of_setSubscribe (fun _ _ hpc => ?_)).of_setClient (fun hc hx => .socket (hc ▸ hx)))
    split at hpc <;> cases hpc
  · exact Or.inl ((h.of_setSubscribe nofun).of_setClient (fun hc hx => .socket (hc ▸ hx)))
  · -- the number that the call takes in hand is its socket's
    refine Or.inl (h.of_setSubscribe (fun hc hfd hpc => .socket ?_))
    have hnumber := SubscribePc.register.inj hpc
    cases hsocket : (s.clients a).socket with
    | none =>
      rw [hsocket] at hnumber
      exact absurd (hnumber ▸ hfd) (by decide)
    | some fd =>
      rw [hsocket] at hnumber
      rw [hc, hsocket]
      exact congrArg some hnumber
  · rename_i hpc
    exact absurd ⟨_, hpc⟩ hregister
  · exact Or.inl ((h.of_setSubscribe nofun).of_setClient (fun hc hx => .socket (hc ▸ hx)))
  · exact Or.inl (h.of_setSubscribe nofun).of_markHandles
  · exact Or.inl (h.of_setSubscribe nofun).of_markQueue

theorem startReactors_cases (s : Lifecycle) (newCount : Nat) : s.startReactors newCount = s ∨
    s.manager.reactors = [] ∧ s.manager.fdToClient.entries = [] ∧ s.startReactors newCount = { s with
      manager := { reactors := List.replicate newCount {}, deviceCounts := List.replicate newCount 0 } } := by
  unfold startReactors
  split
  · rename_i hempty
    by_cases hn : newCount = 0
    · exact Or.inl (by simp [Manager.setReactorCount, hn])
    · right
      refine ⟨hempty.1, hempty.2, ?_⟩
      have hconstruct := Manager.construct_ok { walk_perm := List.Perm.refl } newCount 0 (fun _ _ => rfl)
      simp [Manager.setReactorCount, hn, hempty.2, hconstruct, Manager.readd]
  · exact Or.inl rfl

theorem holds_startReactors {newCount : Nat} (h : (s.startReactors newCount).Holds c fd) : s.Holds c fd := by
  obtain he | ⟨_, _, he⟩ := startReactors_cases s newCount
  · rwa [he] at h
  · rw [he] at h
    refine h.of_same rfl rfl rfl rfl (fun hm => ?_)
    rcases hm with hm | ⟨i, r, hr, hlookup⟩
    · cases hm
    · obtain rfl := (List.mem_replicate.1 (List.mem_of_getElem? hr)).2
      cases hlookup

theorem holds_deleteStep {u : Nat} (h : (s.deleteStep u a).Holds c fd) : s.Holds c fd := by
  unfold deleteStep at h
  split at h
  · exact h.of_setDelete nofun
  · split at h
    · rename_i b _ fd' hsocket
      refine h.of_setDelete (fun he => ?_)
      cases he
      exact .socket hsocket
    · exact h.of_setDelete nofun
  · refine (h.of_same (s := s.setDelete u _) rfl rfl rfl rfl (fun hm => ?_)).of_setDelete nofun
    exact .manager hm.of_remove
  · exact (h.of_setDelete nofun).of_markHandles
  · exact (h.of_setDelete nofun).of_markQueue

theorem holds_pollStep {r : Nat} {ready : List (Int × Bool)} (h : (s.pollStep r ready).Holds c fd) : s.Holds c fd := by
  unfold pollStep at h
  split at h
  · exact h.of_setThread nofun
  · exact h

theorem holds_threadStep {r parsed : Nat} {ok again : Bool} (h : (s.threadStep r ok again parsed).Holds c fd) :
    s.Holds c fd := by
  -- what the thread has in hand, it has from a handler table
  have hkeep : ∀ (hand : InHand) (pc : ThreadPc), (s.threads r).target = some hand →
      (pc.target = none ∨ pc.target = some hand) → pc.target.map (fun h => (h.client, h.fd)) = some (c, fd) →
      s.Holds c fd := by
    intro hand pc hthread hpc htarget
    rcases hpc with hpc | hpc
    · rw [hpc] at htarget
      cases htarget
    · exact .thread r (by rw [hthread, ← hpc, htarget])
  unfold threadStep at h
  simp only at h
  split at h
  · exact h
  · exact h.of_setThread nofun
  · split at h
    · exact h.of_setThread nofun
    · rename_i ev batch hpc _ b hlookup
      refine h.of_setThread (fun htarget => ?_)
      obtain ⟨reactor, hreactor, hhandler⟩ := Option.bind_eq_some_iff.1 hlookup
      have he : (b, ev.fd) = (c, fd) := by
        split at htarget
        · exact Option.some.inj htarget
        · exact Option.some.inj htarget
      cases he
      exact .manager (Or.inr ⟨r, reactor, hreactor, hhandler⟩)
  · rename_i hand batch hpc
    split at h
    · refine h.of_setThread (hkeep hand _ (by rw [hpc]; rfl) (Or.inr ?_))
      split <;> rfl
    · exact h.of_setThread (hkeep hand _ (by rw [hpc]; rfl) (Or.inr rfl))
  · rename_i hand session batch hpc
    refine ((h.of_same (s := (s.setClient hand.client _).setThread r _) rfl rfl rfl rfl
      (fun hm => .manager hm)).of_setThread ?_).of_setClient (fun hc hx => .socket (hc ▸ hx))
    intro htarget
    exact .thread r (by rw [← htarget]; simp only [setClient, hpc]; rfl)
  · rename_i hand batch hpc
    refine h.of_setThread (hkeep hand _ (by rw [hpc]; rfl) ?_)
    split
    · exact Or.inr rfl
    · split
      · exact Or.inr rfl
      · exact Or.inl rfl
  · rename_i hand batch hpc
    refine (h.of_same (s := s.setThread r (.reactorRemove hand batch)) rfl rfl rfl rfl (fun hm => ?_)).of_setThread ?_
    · exact .manager hm.of_remove
    · exact hkeep hand _ (by rw [hpc]; rfl) (Or.inr rfl)
  · rename_i hand batch hpc
    refine (h.of_same (s := s.setThread r (.markHandles hand batch)) rfl rfl rfl rfl (fun hm => ?_)).of_setThread nofun
    exact .manager hm.of_reactorRemove
  · rename_i hand batch hpc
    refine ((h.of_same (s := (s.markHandles hand.client).setThread r (.markQueue hand batch)) rfl rfl rfl rfl
      (fun hm => .manager hm)).of_setThread nofun).of_markHandles
  · exact (h.of_setThread nofun).of_markQueue

/-! ## What a step leaves registered -/

theorem keeps_closeSocket (hc : ∀ fd, s.Holds a fd → ¬ s.manager.Holds c fd) :
    s.manager.Keeps c (s.closeSocket a).manager := by
  unfold closeSocket
  split
  · exact Manager.Keeps.refl c _
  · rename_i fd hsocket
    exact (Manager.touches_socketClosed s.manager fd).keeps (hc fd (.socket hsocket))

theorem keeps_subscribeStep {ok : Bool} {fd' : Int} {created kernel : Except String Unit}
    (hc : ∀ fd, s.Holds a fd → ¬ s.manager.Holds c fd) :
    s.manager.Keeps c (s.subscribeStep a ok fd' created kernel).manager := by
  by_cases hregister : ∃ number, s.subscribes a = .register number
  · obtain ⟨number, hregister⟩ := hregister
    obtain ⟨pc, _, he⟩ := subscribeStep_register ok fd' created kernel hregister
    rw [he]
    by_cases hnumber : 0 ≤ number
    · have htouches := Manager.touches_add s.manager number (some a) created kernel
      exact htouches.keeps (hc number (.subscription hnumber hregister))
    · exact Manager.keeps_add_negative s.manager (not_le.1 hnumber) (some a) created kernel
  unfold subscribeStep
  simp only
  split
  · exact Manager.Keeps.refl c _
  · exact Manager.Keeps.refl c _
  · split
    · exact Manager.Keeps.refl c _
    · exact Manager.Keeps.refl c _
  · split
    · split
      · exact keeps_closeSocket hc
      · exact Manager.Keeps.refl c _
    · exact Manager.Keeps.refl c _
  · split
    · exact Manager.Keeps.refl c _
    · exact Manager.Keeps.refl c _
  · exact Manager.Keeps.refl c _
  · exact Manager.Keeps.refl c _
  · exact Manager.Keeps.refl c _
  · rename_i hpc
    exact absurd ⟨_, hpc⟩ hregister
  · exact Manager.Keeps.refl c _
  · exact keeps_closeSocket hc
  · exact Manager.Keeps.refl c _

theorem keeps_startReactors (s : Lifecycle) (newCount c : Nat) :
    s.manager.Keeps c (s.startReactors newCount).manager := by
  obtain he | ⟨hreactors, hclients, he⟩ := startReactors_cases s newCount
  · rw [he]
    exact Manager.Keeps.refl c _
  · -- nothing is registered that could be lost
    refine fun fd => ⟨fun h => ?_, fun i r hr => ?_⟩
    · have hmem := AList.mem_lookup_iff.1 h
      rw [hclients] at hmem
      cases hmem
    · rw [hreactors] at hr
      cases hr

theorem keeps_deleteStep {u : Nat} (hc : ∀ fd, s.Holds ((s.deletes u).client a) fd → ¬ s.manager.Holds c fd) :
    s.manager.Keeps c (s.deleteStep u a).manager := by
  unfold deleteStep
  split
  · exact Manager.Keeps.refl c _
  · split
    · exact Manager.Keeps.refl c _
    · exact Manager.Keeps.refl c _
  · rename_i b fd hpc
    rw [hpc] at hc
    exact (Manager.touches_remove s.manager fd).keeps (hc fd (.delete u hpc))
  · rename_i b hpc
    rw [hpc] at hc
    exact keeps_closeSocket hc
  · exact Manager.Keeps.refl c _

theorem keeps_threadStep {r parsed : Nat} {ok again : Bool}
    (hc : ∀ hand, (s.threads r).inHand = some hand → ∀ fd, s.Holds hand.client fd → ¬ s.manager.Holds c fd) :
    s.manager.Keeps c (s.threadStep r ok again parsed).manager := by
  unfold threadStep
  simp only
  split
  · exact Manager.Keeps.refl c _
  · exact Manager.Keeps.refl c _
  · split
    · exact Manager.Keeps.refl c _
    · exact Manager.Keeps.refl c _
  · split
    · exact Manager.Keeps.refl c _
    · exact Manager.Keeps.refl c _
  · exact Manager.Keeps.refl c _
  · exact Manager.Keeps.refl c _
  · rename_i hand batch hpc
    have hhold : s.Holds hand.client hand.fd := .thread r (by rw [hpc]; rfl)
    exact (Manager.touches_remove s.manager hand.fd).keeps (hc hand (by rw [hpc]; rfl) hand.fd hhold)
  · rename_i hand batch hpc
    have hhold : s.Holds hand.client hand.fd := .thread r (by rw [hpc]; rfl)
    exact (Manager.touches_reactorRemove s.manager r hand.fd).keeps (hc hand (by rw [hpc]; rfl) hand.fd hhold)
  · rename_i hand batch hpc
    exact keeps_closeSocket (hc hand (by rw [hpc]; rfl))
  · exact Manager.Keeps.refl c _

/-- **While no number is held for two clients, a step for one client leaves the others' registrations.** -/
theorem keeps_step {t : LifeTurn} (h : s.Exclusive) (hc : t.client s ≠ some c) :
    s.manager.Keeps c (s.step t).manager := by
  have hother : ∀ b, t.client s = some b → ∀ fd, s.Holds b fd → ¬ s.manager.Holds c fd := by
    intro b hb fd hfd hmanager
    exact hc (hb.trans (congrArg some (h b c fd hfd (.manager hmanager))))
  cases t with
  | setReactorCount newCount => exact keeps_startReactors s newCount c
  | subscribe b ok fd created kernel => exact keeps_subscribeStep (hother b rfl)
  | delete u b => exact keeps_deleteStep (hother _ rfl)
  | poll r ready =>
    unfold Lifecycle.step pollStep
    simp only
    split
    · exact Manager.Keeps.refl c _
    · exact Manager.Keeps.refl c _
  | thread r ok again parsed => exact keeps_threadStep (fun hand hh => hother hand.client (by simp [LifeTurn.client, hh]))

/-! ## The run -/

theorem holds_step {t : LifeTurn} (hfresh : s.FreshNumber t) (h : (s.step t).Holds c fd) :
    s.Holds c fd ∨ (t.client s = some c ∧ ∀ c', s.Holds c' fd → c' = c) := by
  cases t with
  | setReactorCount newCount => exact Or.inl (holds_startReactors h)
  | subscribe b ok fd' created kernel =>
    refine (holds_subscribeStep hfresh h).imp_right ?_
    rintro ⟨rfl, honly⟩
    exact ⟨rfl, honly⟩
  | delete u b => exact Or.inl (holds_deleteStep h)
  | poll r ready => exact Or.inl (holds_pollStep h)
  | thread r ok again parsed => exact Or.inl (holds_threadStep h)

theorem Exclusive.step {t : LifeTurn} (h : s.Exclusive) (hfresh : s.FreshNumber t) : (s.step t).Exclusive := by
  intro c c' fd hc hc'
  rcases holds_step hfresh hc with hold | ⟨hclient, honly⟩
  · rcases holds_step hfresh hc' with hold' | ⟨_, honly'⟩
    · exact h c c' fd hold hold'
    · exact honly' c hold
  · rcases holds_step hfresh hc' with hold' | ⟨hclient', _⟩
    · exact (honly c' hold').symm
    · exact Option.some.inj (hclient.symm.trans hclient')

/-- While the threads and the deletions rest, a number without a socket, a subscription or a registration is held for
no client. -/
theorem not_holds_at_rest (hclients : fd ∉ s.manager.fdToClient) (hhandlers : ∀ r ∈ s.manager.reactors, fd ∉ r.handlers)
    (hsockets : ∀ c, (s.clients c).socket ≠ some fd) (hsubscribes : ∀ c, s.subscribes c ≠ .register fd)
    (hthreads : ∀ r, (s.threads r).target = none) (hdeletes : ∀ u c, s.deletes u ≠ .remove c fd) : ¬ s.Holds c fd := by
  intro h
  cases h with
  | socket h => exact hsockets c h
  | subscription _ h => exact hsubscribes c h
  | manager h =>
    rcases h with h | ⟨i, r, hr, h⟩
    · exact hclients (AList.lookup_isSome.1 (by rw [h]; rfl))
    · exact hhandlers r (List.mem_of_getElem? hr) (AList.lookup_isSome.1 (by rw [h]; rfl))
  | thread r h =>
    rw [hthreads r] at h
    cases h
  | delete u h => exact hdeletes u c h

theorem exclusive_start : Exclusive {} := fun _ _ _ h =>
  absurd h (not_holds_at_rest nofun nofun nofun nofun (fun _ => rfl) nofun)

/-- **In every run whose sockets get numbers that are held for no other client, no step takes away a registration of a
client that it is not executed for**: not from the manager's maps, not from a reactor's handlers, not from epoll. -/
theorem registrations_kept {turns : List LifeTurn} (h : Along Lifecycle.step FreshNumber {} turns) (t : LifeTurn)
    (c : Nat) (hc : t.client (runLifecycle turns) ≠ some c) :
    (runLifecycle turns).manager.Keeps c (runLifecycle (turns ++ [t])).manager := by
  unfold runLifecycle
  rw [Run.run_concat]
  exact keeps_step (Run.along_invariant (fun _ _ h => h.step) exclusive_start turns h) hc

/-- The turns of client `c`'s call of `subscribe_non_blocking`, whose socket gets the number `fd`. -/
def subscribing (c : Nat) (fd : Int) : List LifeTurn := List.replicate 10 (.subscribe c true fd (.ok ()) (.ok ()))

/-- Of two reactors, client 1 is registered at one and client 0 at the other; client 0 deletes its subscription. -/
def deletesBeside : List LifeTurn :=
  .setReactorCount 2 :: (subscribing 1 6 ++ subscribing 0 5 ++ List.replicate 2 (.delete 0 0))

theorem deletesBeside_fresh : Along Lifecycle.step FreshNumber {} deletesBeside := by
  simp only [deletesBeside, subscribing, List.replicate, List.cons_append, List.nil_append, Run.along_cons]
  refine ⟨trivial, nofun, nofun, nofun, ?_, nofun, nofun, nofun, nofun, nofun, nofun, nofun, nofun, nofun,
    ?_, nofun, nofun, nofun, nofun, nofun, nofun, trivial, trivial, Run.along_nil⟩
  · intro _ _ _ c' h
    refine absurd h (not_holds_at_rest (by decide) (by decide) ?_ ?_ (fun _ => rfl) (fun _ => nofun))
    · exact fun | 0 => nofun | 1 => nofun | _ + 2 => nofun
    · exact fun | 0 => nofun | 1 => nofun | _ + 2 => nofun
  · intro _ _ _ c' h
    refine absurd h (not_holds_at_rest (by decide) (by decide) ?_ ?_ (fun _ => rfl) (fun _ => nofun))
    · exact fun | 0 => nofun | 1 => nofun | _ + 2 => nofun
    · exact fun | 0 => nofun | 1 => nofun | _ + 2 => nofun

theorem deletesBeside_kept : (LifeTurn.delete 0 0).client (runLifecycle deletesBeside) ≠ some 1 ∧
    (runLifecycle deletesBeside).manager.Keeps 1 (runLifecycle (deletesBeside ++ [.delete 0 0])).manager := by
  have hclient : (LifeTurn.delete 0 0).client (runLifecycle deletesBeside) ≠ some 1 := by decide
  exact ⟨hclient, registrations_kept deletesBeside_fresh (.delete 0 0) 1 hclient⟩

/-- A deletion of client 0 that has read the number 5, a cleanup that closes it, and a subscription of client 1 that
gets it again. -/
def reusesNumber : List LifeTurn :=
  subscribing 0 5 ++ List.replicate 2 (.delete 0 0) ++ [.poll 0 [(5, true)]] ++
    List.replicate 4 (.thread 0 true false 0) ++ subscribing 1 5

theorem reusesNumber_not_kept : (LifeTurn.delete 0 0).client (runLifecycle reusesNumber) = some 0 ∧
    ¬ (runLifecycle reusesNumber).manager.Keeps 1 (runLifecycle (reusesNumber ++ [.delete 0 0])).manager := by
  refine ⟨rfl, fun h => ?_⟩
  have hbefore : (runLifecycle reusesNumber).manager.fdToClient.lookup 5 = some 1 := by decide
  have hafter : (runLifecycle (reusesNumber ++ [.delete 0 0])).manager.fdToClient.lookup 5 = none := by decide
  rw [((h 5).1 hbefore).1] at hafter
  cases hafter

end Lifecycle

end PyNetX
