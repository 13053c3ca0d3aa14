import PyNetX.Lifecycle
/-!
# Isolation — what an old session's events do to a new one

A reactor's thread reads under `notif_mutex_`, appends under `_notif_queue_mtx`, and closes what the client holds by
then.  When no thread is at the client while it makes a session, everything of the client's that is under way is of
its newest session (`Aligned`).
-/
namespace PyNetX

open Run (run Along)

def NotifClient.Bare (x : NotifClient) : Prop := x.session = none ∧ x.channel = false ∧ x.socket = none

/-- A client whose call is in front of a new session is bare, unless the call will end at the check. -/
def SubscribePc.Starts (x : NotifClient) : SubscribePc → Prop
  | .idle | .check | .failedQueue => x.connected = false → x.Bare
  | .session => x.Bare
  | _ => True

theorem NotifClient.generation_of_held {x : NotifClient} {k : Nat} (h : x.held = some k) : k = x.generation := by
  unfold NotifClient.held at h
  split at h
  · exact (Option.some.inj h).symm
  · cases h

theorem SubscribePc.Starts.mono {p : SubscribePc} {x x' : NotifClient} (h : p.Starts x)
    (hconnected : x'.connected = false → x.connected = false ∨ x'.Bare) (hbare : x.Bare → x'.Bare) : p.Starts x' := by
  cases p with
  | idle | check | failedQueue =>
    intro hx'
    rcases hconnected hx' with hx | hx
    · exact hbare (h hx)
    · exact hx
  | session => exact hbare h
  | socket | channel | reply | clear | add | register fd | flag | failed => trivial

theorem NotifClient.Bare.starts {x : NotifClient} (h : x.Bare) (pc : SubscribePc) : pc.Starts x := by
  cases pc with
  | idle | check | failedQueue => exact fun _ => h
  | session => exact h
  | socket | channel | reply | clear | add | register fd | flag | failed => trivial

namespace Lifecycle

/-- No thread has appended bytes of a session of the client's after a newer one's clearing of the buffer, nor closed a
newer one's handles. -/
def Isolated (s : Lifecycle) (c : Nat) : Prop :=
  (∀ x ∈ s.appended, x.client = c → x.cleared ≤ x.session) ∧
    ∀ x ∈ s.closed, x.client = c → ∀ k, x.held = some k → k ≤ x.since

/-- When the client's call makes a session, no reactor's thread has an event of the client's or works on the client. -/
def StartsAlone (s : Lifecycle) (c : Nat) : LifeTurn → Prop
  | .subscribe a true _ _ _ => a = c → s.subscribes c = .session → ∀ r,
      (∀ ev ∈ (s.threads r).batch, ev.file.client ≠ c) ∧ ∀ h, (s.threads r).inHand = some h → h.client ≠ c
  | _ => True

/-- **The invariant**: what is under way of client `c`'s is of its newest session. -/
structure Aligned (s : Lifecycle) (c : Nat) : Prop where
  starts : (s.subscribes c).Starts (s.clients c)
  session : ∀ k, (s.clients c).session = some k → k = (s.clients c).generation
  cleared : (s.clients c).cleared ≤ (s.clients c).generation
  files : ∀ fd f, s.files fd = some f → f.client = c →
    (s.clients c).socket = some fd ∧ f.session = (s.clients c).generation
  batch : ∀ r, ∀ ev ∈ (s.threads r).batch, ev.file.client = c → ev.file.session = (s.clients c).generation
  inHand : ∀ r h, (s.threads r).inHand = some h → h.client = c → h.since = (s.clients c).generation
  bytes : ∀ r h k b, s.threads r = .append h k b → h.client = c → k = (s.clients c).generation
  isolated : s.Isolated c

variable {s : Lifecycle} {a c : Nat}

/-! ## What the setters keep -/

theorem Aligned.setManager (h : s.Aligned c) (m : Manager) : Aligned { s with manager := m } c :=
  ⟨h.starts, h.session, h.cleared, h.files, h.batch, h.inHand, h.bytes, h.isolated⟩

theorem Aligned.setDelete (h : s.Aligned c) (u : Nat) (pc : DeletePc) : (s.setDelete u pc).Aligned c :=
  ⟨h.starts, h.session, h.cleared, h.files, h.batch, h.inHand, h.bytes, h.isolated⟩

theorem Aligned.moved {x : NotifClient} {p : SubscribePc} (h : s.Aligned c)
    (hstarts : a = c → p.Starts x)
    (hsession : a = c → ∀ k, x.session = some k → (s.clients c).session = some k)
    (hcleared : a = c → x.cleared ≤ x.generation)
    (hsocket : a = c → x.socket = (s.clients c).socket)
    (hgeneration : a = c → x.generation = (s.clients c).generation) :
    ((s.setClient a x).setSubscribe a p).Aligned c := by
  by_cases hac : a = c
  · subst hac
    have hx : ((s.setClient a x).setSubscribe a p).clients a = x := by
      simp [Lifecycle.setSubscribe, Lifecycle.setClient]
    have hsub : ((s.setClient a x).setSubscribe a p).subscribes a = p := by simp [Lifecycle.setSubscribe]
    refine ⟨?_, ?_, ?_, ?_, ?_, ?_, ?_, h.isolated⟩
    all_goals rw [hx]
    · rw [hsub]
      exact hstarts rfl
    · intro k hk
      rw [hgeneration rfl]
      exact h.session k (hsession rfl k hk)
    · exact hcleared rfl
    all_goals rw [hgeneration rfl]
    · rw [hsocket rfl]
      exact h.files
    · exact h.batch
    · exact h.inHand
    · exact h.bytes
  · have hx : ((s.setClient a x).setSubscribe a p).clients c = s.clients c := by
      simp [Lifecycle.setSubscribe, Lifecycle.setClient, Ne.symm hac]
    have hsub : ((s.setClient a x).setSubscribe a p).subscribes c = s.subscribes c := by
      simp [Lifecycle.setSubscribe, Lifecycle.setClient, Ne.symm hac]
    refine ⟨?_, ?_, ?_, ?_, ?_, ?_, ?_, h.isolated⟩
    all_goals rw [hx]
    · rw [hsub]
      exact h.starts
    · exact h.session
    · exact h.cleared
    · exact h.files
    · exact h.batch
    · exact h.inHand
    · exact h.bytes

theorem Aligned.setSubscribe {p : SubscribePc} (h : s.Aligned c) (hp : a = c → p.Starts (s.clients c)) :
    (s.setSubscribe a p).Aligned c := by
  have hmoved := h.moved (a := a) (x := s.clients a) (p := p) (fun hac => hac ▸ hp hac) (fun hac => hac ▸ fun _ hk => hk)
    (fun hac => hac ▸ h.cleared) (fun hac => hac ▸ rfl) (fun hac => hac ▸ rfl)
  rwa [show s.setClient a (s.clients a) = s by simp [Lifecycle.setClient]] at hmoved

theorem Aligned.setClient {x : NotifClient} (h : s.Aligned c)
    (hstarts : a = c → (s.subscribes c).Starts x)
    (hsession : a = c → ∀ k, x.session = some k → (s.clients c).session = some k)
    (hcleared : a = c → x.cleared ≤ x.generation)
    (hsocket : a = c → x.socket = (s.clients c).socket)
    (hgeneration : a = c → x.generation = (s.clients c).generation) : (s.setClient a x).Aligned c := by
  have hmoved := h.moved (a := a) (x := x) (p := s.subscribes a) (fun hac => hac ▸ hstarts hac) hsession hcleared hsocket
    hgeneration
  rwa [show (s.setClient a x).setSubscribe a (s.subscribes a) = s.setClient a x by simp [Lifecycle.setSubscribe, Lifecycle.setClient]]
    at hmoved

theorem Aligned.setThread {r : Nat} {pc : ThreadPc} (h : s.Aligned c)
    (hbatch : ∀ ev ∈ pc.batch, ev.file.client = c → ev.file.session = (s.clients c).generation)
    (hhand : ∀ hand, pc.inHand = some hand → hand.client = c → hand.since = (s.clients c).generation)
    (hbytes : ∀ hand k b, pc = .append hand k b → hand.client = c → k = (s.clients c).generation) :
    (s.setThread r pc).Aligned c := by
  have hthread : ∀ r', (s.setThread r pc).threads r' = if r' = r then pc else s.threads r' :=
    fun r' => Function.update_apply s.threads r pc r'
  refine ⟨h.starts, h.session, h.cleared, h.files, ?_, ?_, ?_, h.isolated⟩
  · intro r' ev hev
    rw [hthread] at hev
    split at hev
    · exact hbatch ev hev
    · exact h.batch r' ev hev
  · intro r' hand hh
    rw [hthread] at hh
    split at hh
    · exact hhand hand hh
    · exact h.inHand r' hand hh
  · intro r' hand k b hh
    rw [hthread] at hh
    split at hh
    · exact hbytes hand k b hh
    · exact h.bytes r' hand k b hh

/-! ## The steps that close and open -/

theorem Aligned.closeSocket (h : s.Aligned c) (a : Nat) : (s.closeSocket a).Aligned c := by
  unfold Lifecycle.closeSocket
  split
  · exact h
  · rename_i fd hsocket
    by_cases hac : a = c
    · subst hac
      have hno : ∀ fd' f, Function.update s.files fd none fd' = some f → f.client ≠ a := by
        intro fd' f hf hclient
        by_cases he : fd' = fd
        · subst he
          simp at hf
        · rw [Function.update_of_ne he] at hf
          rw [(h.files fd' f hf hclient).1] at hsocket
          exact he (Option.some.inj hsocket)
      have hx : (s.setClient a { s.clients a with socket := none }).clients a = { s.clients a with socket := none } := by
        simp [Lifecycle.setClient]
      refine ⟨?_, ?_, ?_, fun fd' f hf hclient => absurd hclient (hno fd' f hf), ?_, ?_, ?_, h.isolated⟩
      all_goals rw [hx]
      · exact h.starts.mono Or.inl (fun hb => ⟨hb.1, hb.2.1, rfl⟩)
      · exact h.session
      · exact h.cleared
      · exact h.batch
      · exact h.inHand
      · exact h.bytes
    · have hx : (s.setClient a { s.clients a with socket := none }).clients c = s.clients c := by
        simp [Lifecycle.setClient, Ne.symm hac]
      refine ⟨?_, ?_, ?_, fun fd' f hf => ?_, ?_, ?_, ?_, h.isolated⟩
      all_goals rw [hx]
      · exact h.starts
      · exact h.session
      · exact h.cleared
      · by_cases he : fd' = fd
        · subst he
          simp at hf
        · exact h.files fd' f (by simpa [he] using hf)
      · exact h.batch
      · exact h.inHand
      · exact h.bytes

theorem closeSocket_client (s : Lifecycle) (a : Nat) : (s.closeSocket a).clients a = { s.clients a with socket := none } := by
  unfold Lifecycle.closeSocket
  split
  · rename_i hsocket
    rw [← hsocket]
  · simp [Lifecycle.setClient]

theorem Aligned.markHandles (h : s.Aligned c) (a : Nat) : (s.markHandles a).Aligned c := by
  have hclose := h.closeSocket a
  unfold Lifecycle.markHandles
  simp only
  rw [closeSocket_client]
  refine hclose.setClient ?_ nofun ?_ ?_ ?_
  · exact fun _ => NotifClient.Bare.starts ⟨rfl, rfl, rfl⟩ _
  all_goals rintro rfl
  · exact h.cleared
  all_goals rw [closeSocket_client]

theorem Aligned.markQueue (h : s.Aligned c) (a : Nat) : (s.markQueue a).Aligned c := by
  refine h.setClient ?_ ?_ ?_ ?_ ?_
  all_goals rintro rfl
  · exact h.starts.mono Or.inl id
  · exact fun k hk => hk
  · exact h.cleared
  · rfl
  · rfl

theorem markHandles_bare (s : Lifecycle) (a : Nat) : ((s.markHandles a).clients a).Bare := by
  simp [Lifecycle.markHandles, Lifecycle.setClient, closeSocket_client, NotifClient.Bare]

theorem Aligned.opened (h : s.Aligned c) (fd : Int) (hpc : s.subscribes a = .channel)
    (hnone : (s.clients a).socket = none) : Aligned { s.setClient a { s.clients a with socket := some fd } with
      files := Function.update s.files fd (some ⟨a, (s.clients a).generation⟩) } c := by
  by_cases hac : a = c
  · subst hac
    have hx : (s.setClient a { s.clients a with socket := some fd }).clients a =
        { s.clients a with socket := some fd } := by simp [Lifecycle.setClient]
    refine ⟨?_, ?_, ?_, fun fd' f hf hclient => ?_, ?_, ?_, ?_, h.isolated⟩
    all_goals rw [hx]
    · show (s.subscribes a).Starts _
      rw [hpc]
      trivial
    · exact h.session
    · exact h.cleared
    · by_cases he : fd' = fd
      · subst he
        obtain rfl : ⟨a, (s.clients a).generation⟩ = f := by simpa using hf
        exact ⟨rfl, rfl⟩
      · have hold := (h.files fd' f (by simpa [he] using hf) hclient).1
        rw [hnone] at hold
        cases hold
    · exact h.batch
    · exact h.inHand
    · exact h.bytes
  · have hx : (s.setClient a { s.clients a with socket := some fd }).clients c = s.clients c := by
      simp [Lifecycle.setClient, Ne.symm hac]
    refine ⟨?_, ?_, ?_, fun fd' f hf hclient => ?_, ?_, ?_, ?_, h.isolated⟩
    all_goals rw [hx]
    · exact h.starts
    · exact h.session
    · exact h.cleared
    · by_cases he : fd' = fd
      · subst he
        obtain rfl : ⟨a, (s.clients a).generation⟩ = f := by simpa using hf
        exact absurd hclient hac
      · exact h.files fd' f (by simpa [he] using hf) hclient
    · exact h.batch
    · exact h.inHand
    · exact h.bytes

/-- What client `a` holds with a new session. -/
def renewed (s : Lifecycle) (a : Nat) : NotifClient :=
  { s.clients a with session := some ((s.clients a).generation + 1), generation := (s.clients a).generation + 1 }

theorem Aligned.started (h : s.Aligned c) (hpc : s.subscribes a = .socket) (hbare : a = c → (s.clients a).Bare)
    (halone : a = c → ∀ r, (∀ ev ∈ (s.threads r).batch, ev.file.client ≠ c) ∧
      ∀ h, (s.threads r).inHand = some h → h.client ≠ c) : (s.setClient a (s.renewed a)).Aligned c := by
  by_cases hac : a = c
  · subst hac
    have hx : (s.setClient a (s.renewed a)).clients a = s.renewed a := by simp [Lifecycle.setClient]
    refine ⟨?_, ?_, ?_, fun fd f hf hclient => ?_, fun r ev hev hclient => ?_, fun r hand hh hclient => ?_,
      fun r hand k b hh hclient => ?_, h.isolated⟩
    · show (s.subscribes a).Starts _
      rw [hpc]
      trivial
    · rw [hx]
      exact fun k hk => (Option.some.inj hk).symm
    · rw [hx]
      exact Nat.le_succ_of_le h.cleared
    · have hold := (h.files fd f hf hclient).1
      rw [(hbare rfl).2.2] at hold
      cases hold
    · exact absurd hclient ((halone rfl r).1 ev hev)
    · exact absurd hclient ((halone rfl r).2 hand hh)
    · exact absurd hclient ((halone rfl r).2 hand (by rw [show s.threads r = _ from hh]; rfl))
  · have hx : (s.setClient a (s.renewed a)).clients c = s.clients c := by simp [Lifecycle.setClient, Ne.symm hac]
    refine ⟨?_, ?_, ?_, ?_, ?_, ?_, ?_, h.isolated⟩
    all_goals rw [hx]
    · exact h.starts
    · exact h.session
    · exact h.cleared
    · exact h.files
    · exact h.batch
    · exact h.inHand
    · exact h.bytes

/-! ## The step and the run -/

theorem Aligned.subscribeStep {ok : Bool} {fd : Int} {created kernel : Except String Unit} (h : s.Aligned c)
    (halone : s.StartsAlone c (.subscribe a ok fd created kernel)) :
    (s.subscribeStep a ok fd created kernel).Aligned c := by
  have hself : ∀ pc, s.subscribes a = pc → a = c → pc.Starts (s.clients c) := by
    rintro pc hpc rfl
    exact hpc ▸ h.starts
  unfold Lifecycle.subscribeStep
  simp only
  split
  · rename_i hpc
    exact h.setSubscribe (hself .idle hpc)
  · rename_i hpc
    refine h.setSubscribe (fun hac => ?_)
    split
    · trivial
    · rename_i hconnected
      subst hac
      exact hself .check hpc rfl (Bool.not_eq_true _ ▸ hconnected)
  · rename_i hpc
    split
    · rename_i hok
      subst hok
      have hsub : (s.setSubscribe a .socket).Aligned c := h.setSubscribe (fun _ => trivial)
      refine hsub.started (by simp [Lifecycle.setSubscribe]) (fun hac => ?_) (fun hac => ?_)
      · subst hac
        exact hself .session hpc rfl
      · subst hac
        exact halone rfl hpc
    · exact h.setSubscribe (fun _ => trivial)
  · split
    · split
      · have hsub : ((s.closeSocket a).setSubscribe a .channel).Aligned c :=
          (h.closeSocket a).setSubscribe (fun _ => trivial)
        have hopen := hsub.opened (a := a) fd (by simp [Lifecycle.setSubscribe])
          (by simp [Lifecycle.setSubscribe, closeSocket_client])
        have hgeneration : (s.clients a).generation = ((s.closeSocket a).clients a).generation := by
          rw [closeSocket_client]
        rw [hgeneration]
        exact hopen
      · exact h
    · exact h.setSubscribe (fun _ => trivial)
  · split
    · exact h.moved (fun _ => trivial) (fun hac _ hk => hac ▸ hk) (fun hac => hac ▸ h.cleared) (fun hac => hac ▸ rfl)
        (fun hac => hac ▸ rfl)
    · exact h.setSubscribe (fun _ => trivial)
  · refine h.moved (fun _ => ?_) (fun hac _ hk => hac ▸ hk) (fun hac => hac ▸ h.cleared) (fun hac => hac ▸ rfl)
      (fun hac => hac ▸ rfl)
    split <;> trivial
  · exact h.moved (fun _ => trivial) (fun hac _ hk => hac ▸ hk) (fun _ => le_rfl) (fun hac => hac ▸ rfl)
      (fun hac => hac ▸ rfl)
  · exact h.setSubscribe (fun _ => trivial)
  · split
    · exact (h.setSubscribe (p := .flag) (fun _ => trivial)).setManager _
    · exact (h.setSubscribe (p := .failed) (fun _ => trivial)).setManager _
  · exact h.moved (fun _ => nofun) (fun hac _ hk => hac ▸ hk) (fun hac => hac ▸ h.cleared) (fun hac => hac ▸ rfl)
      (fun hac => hac ▸ rfl)
  · refine (h.markHandles a).setSubscribe (fun hac => ?_)
    subst hac
    exact fun _ => markHandles_bare s a
  · rename_i hpc
    refine (h.markQueue a).setSubscribe (fun hac => ?_)
    subst hac
    refine SubscribePc.Starts.mono (p := .idle) (hself .failedQueue hpc rfl) ?_ ?_
    · exact fun hc => Or.inl (by simpa [Lifecycle.markQueue, Lifecycle.setClient] using hc)
    · exact fun hb => by simpa [Lifecycle.markQueue, Lifecycle.setClient, NotifClient.Bare] using hb

theorem Aligned.deleteStep (h : s.Aligned c) (u a : Nat) : (s.deleteStep u a).Aligned c := by
  unfold Lifecycle.deleteStep
  split
  · exact h.setDelete u _
  · split
    · exact h.setDelete u _
    · exact h.setDelete u _
  · exact (h.setDelete u (.markHandles _)).setManager _
  · exact (h.markHandles _).setDelete u _
  · exact (h.markQueue _).setDelete u _

theorem Aligned.pollStep (h : s.Aligned c) (r : Nat) (ready : List (Int × Bool)) : (s.pollStep r ready).Aligned c := by
  unfold Lifecycle.pollStep
  split
  · refine h.setThread ?_ nofun nofun
    intro ev hev hclient
    obtain ⟨x, _, hx⟩ := List.mem_filterMap.1 hev
    simp only at hx
    split at hx
    · obtain ⟨file, hfile, rfl⟩ := Option.map_eq_some_iff.1 hx
      exact (h.files x.1 file hfile hclient).2
    · cases hx
  · exact h

theorem Aligned.append {x : Appended} (h : s.Aligned c) (hx : x.client = c → x.cleared ≤ x.session) :
    Aligned { s with appended := s.appended ++ [x] } c := by
  refine ⟨h.starts, h.session, h.cleared, h.files, h.batch, h.inHand, h.bytes, ?_, h.isolated.2⟩
  intro y hy hclient
  rcases List.mem_append.1 hy with hy | hy
  · exact h.isolated.1 y hy hclient
  · obtain rfl := List.mem_singleton.1 hy
    exact hx hclient

theorem Aligned.close {x : Closed} (h : s.Aligned c) (hx : x.client = c → ∀ k, x.held = some k → k ≤ x.since) :
    Aligned { s with closed := s.closed ++ [x] } c := by
  refine ⟨h.starts, h.session, h.cleared, h.files, h.batch, h.inHand, h.bytes, h.isolated.1, ?_⟩
  intro y hy hclient
  rcases List.mem_append.1 hy with hy | hy
  · exact h.isolated.2 y hy hclient
  · obtain rfl := List.mem_singleton.1 hy
    exact hx hclient

theorem markHandles_threads (s : Lifecycle) (a : Nat) : (s.markHandles a).threads = s.threads := by
  unfold Lifecycle.markHandles Lifecycle.closeSocket
  split
  · rfl
  · rfl

theorem Aligned.onwards {r : Nat} {p : ThreadPc} (h : s.Aligned c)
    (hbatch : ∀ ev ∈ p.batch, ev ∈ (s.threads r).batch)
    (hhand : ∀ hand, p.inHand = some hand → (s.threads r).inHand = some hand)
    (hbytes : ∀ hand k b, p ≠ .append hand k b) : (s.setThread r p).Aligned c :=
  h.setThread (fun ev hev => h.batch r ev (hbatch ev hev)) (fun hand hh => h.inHand r hand (hhand hand hh))
    (fun hand k b hp => absurd hp (hbytes hand k b))

theorem Aligned.threadStep (h : s.Aligned c) (r : Nat) (ok again : Bool) (parsed : Nat) :
    (s.threadStep r ok again parsed).Aligned c := by
  unfold Lifecycle.threadStep
  simp only
  split
  · exact h
  · exact h.onwards nofun nofun nofun
  · rename_i ev batch hpc
    have hrest : ∀ ev ∈ batch, ev ∈ (s.threads r).batch := by
      rw [hpc]
      exact fun ev hev => List.mem_cons_of_mem _ hev
    split
    · exact h.onwards hrest nofun nofun
    · rename_i b _
      have hsince : b = c → (if ev.file.client = b then ev.file.session else (s.clients b).generation) =
          (s.clients c).generation := by
        rintro rfl
        split
        · rename_i hclient
          exact h.batch r ev (by rw [hpc]; exact List.mem_cons_self) hclient
        · rfl
      refine h.setThread (fun ev hev => ?_) (fun hand hh hclient => ?_) (fun hand k b hbytes => ?_)
      · split at hev
        · exact h.batch r ev (hrest ev hev)
        · exact h.batch r ev (hrest ev hev)
      · split at hh
        · cases hh
          exact hsince hclient
        · cases hh
          exact hsince hclient
      · split at hbytes
        · cases hbytes
        · cases hbytes
  · rename_i hand batch hpc
    split
    · rename_i session hsession
      refine h.setThread (fun ev hev => ?_) (fun hand' hh => ?_) (fun hand' k b hbytes hclient => ?_)
      · apply h.batch r ev
        rw [hpc]
        split at hev
        · exact hev
        · exact hev
      · apply h.inHand r hand'
        rw [hpc]
        split at hh
        · exact hh
        · exact hh
      · split at hbytes
        · cases hbytes
          exact h.session _ (hclient ▸ hsession)
        · cases hbytes
    · exact h.onwards (by rw [hpc]; exact fun _ h => h) (by rw [hpc]; exact fun _ h => h) nofun
  · rename_i hand session batch hpc
    have hset := (h.onwards (r := r) (p := .wait hand batch) (by rw [hpc]; exact fun _ h => h)
      (by rw [hpc]; exact fun _ h => h) nofun).setClient (a := hand.client) (x := { s.clients hand.client with
        rx := ((s.clients hand.client).rx ++ [session]).drop parsed
        queue := (s.clients hand.client).queue ++ ((s.clients hand.client).rx ++ [session]).take parsed })
      (fun hac => h.starts.mono (fun hx => Or.inl (hac ▸ hx)) (fun hb => hac ▸ hb)) (fun hac _ hk => hac ▸ hk)
      (fun hac => hac ▸ h.cleared) (fun hac => hac ▸ rfl) (fun hac => hac ▸ rfl)
    refine hset.append (fun hclient => ?_)
    have hbytes : session = (s.clients c).generation := h.bytes r hand session batch hpc hclient
    show (s.clients hand.client).cleared ≤ session
    rw [hbytes, show hand.client = c from hclient]
    exact h.cleared
  · rename_i hand batch hpc
    refine h.onwards ?_ ?_ ?_
    · rw [hpc]
      split
      · exact fun _ hev => hev
      · split <;> exact fun _ hev => hev
    · rw [hpc]
      split
      · exact fun _ hh => hh
      · split
        · exact fun _ hh => hh
        · exact nofun
    · intro hand' k b
      split
      · exact nofun
      · split <;> exact nofun
  · rename_i hand batch hpc
    exact (h.onwards (p := .reactorRemove hand batch) (by rw [hpc]; exact fun _ h => h) (by rw [hpc]; exact fun _ h => h)
      nofun).setManager _
  · rename_i hand batch hpc
    exact (h.onwards (p := .markHandles hand batch) (by rw [hpc]; exact fun _ h => h) (by rw [hpc]; exact fun _ h => h)
      nofun).setManager _
  · rename_i hand batch hpc
    have hset := (h.markHandles hand.client).onwards (r := r) (p := .markQueue hand batch)
      (by rw [markHandles_threads, hpc]; exact fun _ h => h) (by rw [markHandles_threads, hpc]; exact fun _ h => h) nofun
    have hclosed : (s.markHandles hand.client).closed = s.closed := by
      unfold Lifecycle.markHandles Lifecycle.closeSocket
      split
      · rfl
      · rfl
    rw [← hclosed]
    refine hset.close (x := ⟨hand.client, hand.since, (s.clients hand.client).held⟩) (fun hclient k hk => ?_)
    have hsince : hand.since = (s.clients c).generation := h.inHand r hand (by rw [hpc]; rfl) hclient
    rw [show hand.client = c from hclient] at hk
    rw [hsince, NotifClient.generation_of_held hk]
  · rename_i hand batch hpc
    have hthread : (s.markQueue hand.client).threads r = .markQueue hand batch := hpc
    exact (h.markQueue hand.client).onwards (by rw [hthread]; exact fun _ hev => hev) nofun nofun

theorem Aligned.startReactors (h : s.Aligned c) (newCount : Nat) : (s.startReactors newCount).Aligned c := by
  unfold Lifecycle.startReactors
  split
  · exact h.setManager _
  · exact h

/-- **A step keeps what is under way of the newest session.** -/
theorem Aligned.step {t : LifeTurn} (h : s.Aligned c) (halone : s.StartsAlone c t) : (s.step t).Aligned c := by
  cases t with
  | setReactorCount newCount => exact h.startReactors newCount
  | subscribe a ok fd created kernel => exact h.subscribeStep halone
  | delete u a => exact h.deleteStep u a
  | poll r ready => exact h.pollStep r ready
  | thread r ok again parsed => exact h.threadStep r ok again parsed

theorem aligned_start (c : Nat) : Aligned {} c where
  starts := fun _ => ⟨rfl, rfl, rfl⟩
  session := nofun
  cleared := le_rfl
  files := nofun
  batch := nofun
  inHand := nofun
  bytes := nofun
  isolated := ⟨nofun, nofun⟩

/-- **In every run in which the client's sessions are made while no reactor's thread is at the client, they are
isolated from each other.** -/
theorem isolated_of_startsAlone {turns : List LifeTurn} {c : Nat}
    (h : Along Lifecycle.step (fun s t => s.StartsAlone c t) {} turns) : (runLifecycle turns).Isolated c :=
  (Run.along_invariant (I := fun s : Lifecycle => s.Aligned c) (fun _ _ h => h.step) (aligned_start c) turns h).isolated

/-- Ten turns of client 0's call of `subscribe_non_blocking`, whose socket gets the number `fd`. -/
def subscribing0 (fd : Int) : List LifeTurn := List.replicate 10 (.subscribe 0 true fd (.ok ()) (.ok ()))

/-- Reactor 0's thread reads and appends a notification from `fd`. -/
def notified0 (fd : Int) : List LifeTurn := .poll 0 [(fd, false)] :: List.replicate 5 (.thread 0 true false 1)

/-- A subscription and a notification, a deletion, and both again. -/
def resubscribesAfter : List LifeTurn :=
  subscribing0 5 ++ notified0 5 ++ List.replicate 5 (.delete 0 0) ++ subscribing0 6 ++ notified0 6

theorem resubscribesAfter_isolated : (runLifecycle resubscribesAfter).appended = [⟨0, 1, 1⟩, ⟨0, 2, 2⟩] ∧
    (runLifecycle resubscribesAfter).Isolated 0 := by
  refine ⟨rfl, isolated_of_startsAlone ?_⟩
  simp only [resubscribesAfter, subscribing0, notified0, List.replicate, List.cons_append, List.nil_append,
    Run.along_cons]
  refine ⟨nofun, nofun, fun _ _ r => ⟨nofun, nofun⟩, nofun, nofun, nofun, nofun, nofun, nofun, nofun,
    trivial, trivial, trivial, trivial, trivial, trivial, trivial, trivial, trivial, trivial, trivial,
    nofun, nofun, fun _ _ r => ?_, nofun, nofun, nofun, nofun, nofun, nofun, nofun,
    trivial, trivial, trivial, trivial, trivial, trivial, Run.along_nil⟩
  cases r with
  | zero => exact ⟨nofun, nofun⟩
  | succ r => exact ⟨nofun, nofun⟩

/-- A thread that has read bytes of a session appends them when the session has been deleted and a new one made; the
wait for more fails on the closed descriptor, and the thread cleans up. -/
def resubscribesMeanwhile : List LifeTurn :=
  subscribing0 5 ++ [.poll 0 [(5, false)]] ++ List.replicate 2 (.thread 0 true true 0) ++
    List.replicate 5 (.delete 0 0) ++ subscribing0 6 ++ List.replicate 5 (.thread 0 false true 0)

theorem resubscribesMeanwhile_not_isolated :
    (runLifecycle resubscribesMeanwhile).appended = [⟨0, 1, 2⟩] ∧
      (runLifecycle resubscribesMeanwhile).closed = [⟨0, 1, some 2⟩] ∧
        ¬ (runLifecycle resubscribesMeanwhile).Isolated 0 := by
  have happended : (runLifecycle resubscribesMeanwhile).appended = [⟨0, 1, 2⟩] := rfl
  refine ⟨happended, rfl, fun h => ?_⟩
  have hle : 2 ≤ 1 := h.1 ⟨0, 1, 2⟩ (by rw [happended]; exact List.mem_singleton_self _) rfl
  omega

end Lifecycle

end PyNetX
