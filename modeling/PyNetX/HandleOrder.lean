import PyNetX.Handles
/-!
# HandleOrder — channels are freed before their sessions

As long as every new session finds its channel slot empty, the `catch` of `connect_notification_blocking` too, and no
`mark_notification_dead` comes between the opening of a channel and its storing, every channel that is not freed is in
the slot beside its session, or on its way there (`Owned`).
-/
namespace PyNetX

open Run (run Along)

/-- The channel slots that a point of a call knows to be empty. -/
def HandlePc.Empties (pairs : Side → HandlePair) : HandlePc → Prop
  | .openChannel f | .store f _ => (pairs f.side).channel = none
  | .disconnectSession _ => (pairs .rpc).channel = none
  | _ => True

theorem HandlePc.Empties.mono {pairs pairs' : Side → HandlePair} {pc : HandlePc} (h : pc.Empties pairs)
    (hc : ∀ side, (pairs side).channel = none → (pairs' side).channel = none) : pc.Empties pairs' := by
  cases pc with
  | openChannel f | store f raw => exact hc _ h
  | disconnectSession destroy => exact hc _ h
  | _ => trivial

namespace HandleRun

/-- A new session is stored beside an empty channel slot, `connect_notification_blocking` fails with an empty one, and
no `mark_notification_dead` comes between the opening of a notification channel and its storing. -/
def KeepsOrder (s : HandleRun) : HandleTurn → Prop
  | .go ok => (∀ f, s.call = .init f → ok = true → (s.pairs f.side).channel = none) ∧
      (s.call = .caught .notificationBlocking → (s.pairs .notification).channel = none)
  | .mark => ∀ f raw, s.call = .store f raw → f.side ≠ .notification
  | _ => True

def InHand (s : HandleRun) (side : Side) (c : Nat) : Prop := ∃ f, s.call = .store f c ∧ f.side = side

/-- **The invariant**: who owns the handles that are not freed. -/
structure Owned (s : HandleRun) : Prop where
  freed : ∀ pre k post, s.ssh.freed = pre ++ .session k :: post →
    ∀ c, s.ssh.openedOn c = some k → .channel c ∈ pre
  live : ∀ side k, (s.pairs side).session = some k → .session k ∉ s.ssh.freed
  slots : ∀ side c, (s.pairs side).channel = some c →
    ∃ k, s.ssh.openedOn c = some k ∧ (s.pairs side).session = some k
  hand : ∀ side c, s.InHand side c → .channel c ∉ s.ssh.freed ∧
    ∃ k, s.ssh.openedOn c = some k ∧ (s.pairs side).session = some k
  owned : ∀ c k, s.ssh.openedOn c = some k → .channel c ∉ s.ssh.freed →
    ∃ side, (s.pairs side).session = some k ∧ ((s.pairs side).channel = some c ∨ s.InHand side c)
  apart : ∀ side side' k, (s.pairs side).session = some k → (s.pairs side').session = some k → side = side'
  given : ∀ side k, (s.pairs side).session = some k → k < s.ssh.given
  freedGiven : ∀ k, .session k ∈ s.ssh.freed → k < s.ssh.given
  freedChannels : ∀ c, .channel c ∈ s.ssh.freed → c < s.ssh.given
  opened : ∀ c k, s.ssh.openedOn c = some k → c < s.ssh.given ∧ k < s.ssh.given
  empty : s.call.Empties s.pairs

variable {s : HandleRun}

theorem Owned.setConnected (h : s.Owned) (side : Side) (b : Bool) : (s.setConnected side b).Owned :=
  ⟨h.freed, h.live, h.slots, h.hand, h.owned, h.apart, h.given, h.freedGiven, h.freedChannels, h.opened, h.empty⟩

/-- The call goes on, with no channel in hand before or after. -/
theorem Owned.goto (h : s.Owned) {pc : HandlePc} (hold : ∀ side c, ¬ s.InHand side c)
    (hnew : ∀ f raw, pc ≠ .store f raw) (hempty : pc.Empties s.pairs) : (s.goto pc).Owned := by
  have hnone : ∀ side c, ¬ (s.goto pc).InHand side c := fun side c ⟨f, hf, _⟩ => hnew f c hf
  refine ⟨h.freed, h.live, h.slots, fun side c hc => absurd hc (hnone side c), fun c k hc hn => ?_, h.apart, h.given,
    h.freedGiven, h.freedChannels, h.opened, hempty⟩
  obtain ⟨side, hk, hslot | hhand⟩ := h.owned c k hc hn
  · exact ⟨side, hk, Or.inl hslot⟩
  · exact absurd hhand (hold side c)

/-- A freed handle goes behind what was freed. -/
theorem freed_append {freed : List Handle} {openedOn : Nat → Option Nat} {h : Option Handle}
    (hold : ∀ pre k post, freed = pre ++ .session k :: post → ∀ c, openedOn c = some k → .channel c ∈ pre)
    (hnew : ∀ k, h = some (.session k) → ∀ c, openedOn c = some k → .channel c ∈ freed) :
    ∀ pre k post, freed ++ h.toList = pre ++ .session k :: post → ∀ c, openedOn c = some k → .channel c ∈ pre := by
  intro pre k post hsplit c hc
  cases h with
  | none => exact hold pre k post (by simpa using hsplit) c hc
  | some x =>
    obtain ⟨rfl, rfl, -⟩ | ⟨post', -, hfront⟩ := Run.split_concat hsplit
    · exact hnew k rfl c hc
    · exact hold pre k post' hfront c hc

theorem Owned.sessionInit (h : s.Owned) : Owned { s with ssh := s.ssh.sessionInit } :=
  ⟨h.freed, h.live, h.slots, h.hand, h.owned, h.apart, fun side k hk => Nat.lt_succ_of_lt (h.given side k hk),
    fun k hk => Nat.lt_succ_of_lt (h.freedGiven k hk), fun c hc => Nat.lt_succ_of_lt (h.freedChannels c hc),
    fun c k hc => ⟨Nat.lt_succ_of_lt (h.opened c k hc).1, Nat.lt_succ_of_lt (h.opened c k hc).2⟩, h.empty⟩

theorem resetSession_pairs (s : HandleRun) (side : Side) (raw : Option Nat) (side' : Side) :
    (s.resetSession side raw).pairs side' =
      if side' = side then { s.pairs side with session := raw } else s.pairs side' :=
  Function.update_apply ..

theorem resetChannel_pairs (s : HandleRun) (side : Side) (raw : Option Nat) (side' : Side) :
    (s.resetChannel side raw).pairs side' =
      if side' = side then { s.pairs side with channel := raw } else s.pairs side' :=
  Function.update_apply ..

theorem resetChannel_session (s : HandleRun) (side : Side) (raw : Option Nat) (side' : Side) :
    ((s.resetChannel side raw).pairs side').session = (s.pairs side').session := by
  rw [resetChannel_pairs]
  split
  · rename_i he
    rw [he]
  · rfl

/-- **A session is freed beside an empty channel slot**, and a new one or none is stored. -/
theorem Owned.resetSession (h : s.Owned) {side : Side} {raw : Option Nat} (hchannel : (s.pairs side).channel = none)
    (hhand : ∀ c, ¬ s.InHand side c) (hraw : ∀ k, raw = some k → k < s.ssh.given ∧ .session k ∉ s.ssh.freed ∧
      ∀ side', (s.pairs side').session ≠ some k) : (s.resetSession side raw).Owned := by
  have hpair := resetSession_pairs s side raw
  have hfreed : ∀ x, x ∈ (s.resetSession side raw).ssh.freed ↔
      x ∈ s.ssh.freed ∨ ∃ k, (s.pairs side).session = some k ∧ .session k = x := by
    intro x
    simp only [HandleRun.resetSession, Libssh2.free, List.mem_append, Option.mem_toList, Option.map_eq_some_iff]
  refine ⟨?_, ?_, ?_, ?_, ?_, ?_, ?_, ?_, ?_, h.opened, ?_⟩
  · refine freed_append h.freed (fun k hk c hc => ?_)
    by_contra hn
    obtain ⟨side', hside', hslot⟩ := h.owned c k hc hn
    obtain rfl := h.apart side' side k hside' (by simpa using hk)
    rcases hslot with hslot | hslot
    · rw [hchannel] at hslot
      cases hslot
    · exact hhand c hslot
  · intro side' k hk hmem
    rw [hpair] at hk
    rcases (hfreed _).1 hmem with hmem | ⟨k', hk', he⟩
    · split at hk
      · exact (hraw k hk).2.1 hmem
      · exact h.live side' k hk hmem
    · cases he
      split at hk
      · exact (hraw k hk).2.2 side hk'
      · rename_i hne
        exact hne (h.apart side' side k hk hk')
  · intro side' c hc
    rw [hpair] at hc ⊢
    split at hc
    · rw [hchannel] at hc
      cases hc
    · rename_i hne
      rw [if_neg hne]
      exact h.slots side' c hc
  · intro side' c hc
    have hne : side' ≠ side := fun he => hhand c (he ▸ hc)
    obtain ⟨hn, hk⟩ := h.hand side' c hc
    rw [hpair, if_neg hne]
    refine ⟨fun hmem => ?_, hk⟩
    rcases (hfreed _).1 hmem with hmem | ⟨_, _, he⟩
    · exact hn hmem
    · cases he
  · intro c k hc hn
    have hn' : .channel c ∉ s.ssh.freed := fun hmem => hn ((hfreed _).2 (Or.inl hmem))
    obtain ⟨side', hk, hslot⟩ := h.owned c k hc hn'
    have hne : side' ≠ side := by
      rintro rfl
      rcases hslot with hslot | hslot
      · rw [hchannel] at hslot
        cases hslot
      · exact hhand c hslot
    refine ⟨side', ?_⟩
    rw [hpair, if_neg hne]
    exact ⟨hk, hslot⟩
  · intro side₁ side₂ k h₁ h₂
    rw [hpair] at h₁ h₂
    split at h₁ <;> split at h₂
    · simp_all
    · exact absurd h₂ ((hraw k h₁).2.2 side₂)
    · exact absurd h₁ ((hraw k h₂).2.2 side₁)
    · exact h.apart side₁ side₂ k h₁ h₂
  · intro side' k hk
    rw [hpair] at hk
    split at hk
    · exact (hraw k hk).1
    · exact h.given side' k hk
  · intro k hk
    rcases (hfreed _).1 hk with hk | ⟨k', hk', he⟩
    · exact h.freedGiven k hk
    · cases he
      exact h.given side k hk'
  · intro c hc
    rcases (hfreed _).1 hc with hc | ⟨_, _, he⟩
    · exact h.freedChannels c hc
    · cases he
  · refine h.empty.mono (fun side' hnone => ?_)
    rw [hpair]
    split
    · exact hchannel
    · exact hnone

/-- **A slot is emptied**, and the channel in it freed. -/
theorem Owned.resetChannel (h : s.Owned) {side : Side} (hhand : ∀ c, ¬ s.InHand side c) :
    (s.resetChannel side none).Owned := by
  have hpair := resetChannel_pairs s side none
  have hsession := resetChannel_session s side none
  have hfreed : ∀ x, x ∈ (s.resetChannel side none).ssh.freed ↔
      x ∈ s.ssh.freed ∨ ∃ c, (s.pairs side).channel = some c ∧ .channel c = x := by
    intro x
    simp only [HandleRun.resetChannel, Libssh2.free, List.mem_append, Option.mem_toList, Option.map_eq_some_iff]
  refine ⟨?_, ?_, ?_, ?_, ?_, ?_, ?_, ?_, ?_, h.opened, ?_⟩
  · refine freed_append h.freed (fun k hk => ?_)
    obtain ⟨_, _, he⟩ := Option.map_eq_some_iff.1 hk
    cases he
  · intro side' k hk hmem
    rw [hsession] at hk
    rcases (hfreed _).1 hmem with hmem | ⟨_, _, he⟩
    · exact h.live side' k hk hmem
    · cases he
  · intro side' c hc
    rw [hsession]
    rw [hpair] at hc
    split at hc
    · cases hc
    · exact h.slots side' c hc
  · intro side' c hc
    have hne : side' ≠ side := fun he => hhand c (he ▸ hc)
    obtain ⟨hn, k, hk, hs⟩ := h.hand side' c hc
    rw [hsession]
    refine ⟨fun hmem => ?_, k, hk, hs⟩
    rcases (hfreed _).1 hmem with hmem | ⟨c', hc', he⟩
    · exact hn hmem
    · cases he
      -- the freed channel was opened on the session of its own side
      obtain ⟨k', hk', hs'⟩ := h.slots side c hc'
      obtain rfl := Option.some.inj (hk.symm.trans hk')
      exact hne (h.apart side' side k hs hs')
  · intro c k hc hn
    obtain ⟨side', hk, hslot⟩ := h.owned c k hc (fun hmem => hn ((hfreed _).2 (Or.inl hmem)))
    refine ⟨side', by rw [hsession]; exact hk, ?_⟩
    rcases hslot with hslot | hslot
    · left
      rw [hpair]
      split
      · rename_i he
        subst he
        exact absurd ((hfreed _).2 (Or.inr ⟨c, hslot, rfl⟩)) hn
      · exact hslot
    · exact Or.inr hslot
  · intro side₁ side₂ k h₁ h₂
    rw [hsession] at h₁ h₂
    exact h.apart side₁ side₂ k h₁ h₂
  · intro side' k hk
    rw [hsession] at hk
    exact h.given side' k hk
  · intro k hk
    rcases (hfreed _).1 hk with hk | ⟨_, _, he⟩
    · exact h.freedGiven k hk
    · cases he
  · intro c hc
    rcases (hfreed _).1 hc with hc | ⟨c', hc', he⟩
    · exact h.freedChannels c hc
    · cases he
      obtain ⟨k, hk, -⟩ := h.slots side c hc'
      exact (h.opened c k hk).1
  · refine h.empty.mono (fun side' hnone => ?_)
    rw [hpair]
    split
    · rfl
    · exact hnone

theorem Owned.closeSession (h : s.Owned) {side : Side} (hchannel : (s.pairs side).channel = none)
    (hhand : ∀ c, ¬ s.InHand side c) : (s.resetSession side none).Owned :=
  h.resetSession hchannel hhand (fun _ => nofun)

theorem resetChannel_channel (s : HandleRun) (side : Side) (raw : Option Nat) :
    ((s.resetChannel side raw).pairs side).channel = raw := by
  rw [resetChannel_pairs, if_pos rfl]

/-- **The dead session's handles go, the channel first**, with no notification channel in hand. -/
theorem Owned.markNotificationDead (h : s.Owned) (hhand : ∀ c, ¬ s.InHand .notification c) :
    s.markNotificationDead.Owned :=
  ((h.setConnected .notification false).resetChannel hhand).closeSession (resetChannel_channel _ _ _) hhand

/-- **A new session**, beside an empty channel slot. -/
theorem Owned.init (h : s.Owned) {f : Connect} (hcall : s.call = .init f)
    (hchannel : (s.pairs f.side).channel = none) :
    ((HandleRun.resetSession { s with ssh := s.ssh.sessionInit } f.side (some s.ssh.given)).goto
      (.openChannel f)).Owned := by
  have hhand : ∀ side c, ¬ s.InHand side c := fun side c ⟨f', hf', _⟩ => by rw [hcall] at hf'; cases hf'
  refine (h.sessionInit.resetSession hchannel (hhand f.side) (fun k hk => ?_)).goto hhand (fun _ _ => nofun) ?_
  · cases hk
    exact ⟨Nat.lt_succ_self _, fun hmem => Nat.lt_irrefl _ (h.freedGiven _ hmem),
      fun side' hs => Nat.lt_irrefl _ (h.given side' _ hs)⟩
  · simpa [HandlePc.Empties, HandleRun.resetSession] using hchannel

/-- **A channel is opened on the session that the client holds.** -/
theorem Owned.openChannel (h : s.Owned) {f : Connect} {k : Nat} (hcall : s.call = .openChannel f)
    (hk : (s.pairs f.side).session = some k) :
    (HandleRun.goto { s with ssh := s.ssh.channelOpenSession k } (.store f s.ssh.given)).Owned := by
  have hopened : ∀ c, (s.ssh.channelOpenSession k).openedOn c =
      if c = s.ssh.given then some k else s.ssh.openedOn c := fun c => Function.update_apply ..
  have hnew : s.ssh.openedOn s.ssh.given = none := by
    cases hc : s.ssh.openedOn s.ssh.given with
    | none => rfl
    | some k' => exact absurd (h.opened _ _ hc).1 (Nat.lt_irrefl _)
  have hlt : ∀ n, n < s.ssh.given → n < (s.ssh.channelOpenSession k).given := fun n => Nat.lt_succ_of_lt
  refine ⟨?_, h.live, ?_, ?_, ?_, h.apart, fun side k' hk' => hlt _ (h.given side k' hk'),
    fun k' hk' => hlt _ (h.freedGiven k' hk'), fun c hc => hlt _ (h.freedChannels c hc), ?_, ?_⟩
  · intro pre k' post hsplit c hc
    simp only [HandleRun.goto] at hc hsplit
    rw [hopened] at hc
    split at hc
    · cases hc
      exact absurd (by rw [show s.ssh.freed = _ from hsplit]; simp) (h.live f.side k hk)
    · exact h.freed pre k' post hsplit c hc
  · intro side c hc
    obtain ⟨k', hk', hs⟩ := h.slots side c hc
    refine ⟨k', ?_, hs⟩
    simp only [HandleRun.goto]
    rw [hopened, if_neg (fun he => by rw [he, hnew] at hk'; cases hk')]
    exact hk'
  · rintro side c ⟨f', hf', rfl⟩
    cases hf'
    refine ⟨fun hmem => Nat.lt_irrefl _ (h.freedChannels _ hmem), k, ?_, hk⟩
    simp only [HandleRun.goto]
    rw [hopened, if_pos rfl]
  · intro c k' hc hn
    simp only [HandleRun.goto] at hc
    rw [hopened] at hc
    split at hc
    · rename_i he
      cases hc
      exact ⟨f.side, hk, Or.inr ⟨f, by rw [he]; rfl, rfl⟩⟩
    · obtain ⟨side, hs, hslot | ⟨f', hf', -⟩⟩ := h.owned c k' hc hn
      · exact ⟨side, hs, Or.inl hslot⟩
      · rw [hcall] at hf'
        cases hf'
  · intro c k' hc
    simp only [HandleRun.goto] at hc
    rw [hopened] at hc
    split at hc
    · rename_i he
      cases hc
      exact ⟨by rw [he]; exact Nat.lt_succ_self _, hlt _ (h.given f.side k hk)⟩
    · exact ⟨hlt _ (h.opened c k' hc).1, hlt _ (h.opened c k' hc).2⟩
  · have hempty := h.empty
    rw [hcall] at hempty
    exact hempty

/-- **The channel in hand goes into its slot**, which is empty. -/
theorem Owned.store (h : s.Owned) {f : Connect} {raw : Nat} (hcall : s.call = .store f raw) :
    ((s.resetChannel f.side (some raw)).goto (.finish f)).Owned := by
  have hnone : (s.pairs f.side).channel = none := by
    have hempty := h.empty
    rw [hcall] at hempty
    exact hempty
  have hpair : ∀ side', ((s.resetChannel f.side (some raw)).goto (.finish f)).pairs side' =
      if side' = f.side then { s.pairs f.side with channel := some raw } else s.pairs side' :=
    resetChannel_pairs s f.side (some raw)
  have hsession : ∀ side', (((s.resetChannel f.side (some raw)).goto (.finish f)).pairs side').session =
      (s.pairs side').session := resetChannel_session s f.side (some raw)
  have hssh : ((s.resetChannel f.side (some raw)).goto (.finish f)).ssh = s.ssh := by
    simp [HandleRun.resetChannel, HandleRun.goto, Libssh2.free, hnone]
  obtain ⟨hn, k, hk, hs⟩ := h.hand f.side raw ⟨f, hcall, rfl⟩
  refine ⟨by rw [hssh]; exact h.freed, ?_, ?_, fun side c hc => ?_, ?_, ?_, ?_, by rw [hssh]; exact h.freedGiven,
    by rw [hssh]; exact h.freedChannels, by rw [hssh]; exact h.opened, trivial⟩
  · intro side k' hk'
    rw [hsession] at hk'
    rw [hssh]
    exact h.live side k' hk'
  · intro side c hc
    rw [hsession, hssh]
    rw [hpair] at hc
    split at hc
    · rename_i he
      cases hc
      rw [he]
      exact ⟨k, hk, hs⟩
    · exact h.slots side c hc
  · obtain ⟨f', hf', -⟩ := hc
    cases hf'
  · intro c k' hc hn'
    rw [hssh] at hc hn'
    obtain ⟨side, hs', hslot⟩ := h.owned c k' hc hn'
    refine ⟨side, by rw [hsession]; exact hs', Or.inl ?_⟩
    rw [hpair]
    rcases hslot with hslot | ⟨f', hf', hside⟩
    · rw [if_neg (fun he => by rw [he, hnone] at hslot; cases hslot)]
      exact hslot
    · rw [hcall] at hf'
      cases hf'
      rw [if_pos hside.symm]
  · intro side₁ side₂ k' h₁ h₂
    rw [hsession] at h₁ h₂
    exact h.apart side₁ side₂ k' h₁ h₂
  · intro side k' hk'
    rw [hsession] at hk'
    rw [hssh]
    exact h.given side k' hk'

/-! ## Runs -/

theorem not_inHand {pc : HandlePc} (hcall : s.call = pc) (hpc : ∀ f raw, pc ≠ .store f raw) (side : Side) (c : Nat) :
    ¬ s.InHand side c := fun ⟨f, hf, _⟩ => hpc f c (hcall.symm.trans hf)

/-- **A step of the call that keeps the order keeps the invariant.** -/
theorem Owned.callStep (h : s.Owned) {ok : Bool} (hkeep : s.KeepsOrder (.go ok)) : (s.callStep ok).Owned := by
  unfold HandleRun.callStep
  split
  · exact h
  · exact h
  · rename_i f hcall
    have hhand := not_inHand hcall (fun _ _ => nofun)
    split
    · split <;> exact h.goto hhand (fun _ _ => nofun) trivial
    · exact h.goto hhand (fun _ _ => nofun) trivial
  · rename_i f hcall
    split
    · rename_i hok
      exact h.init hcall (hkeep.1 f hcall hok)
    · exact h.goto (not_inHand hcall (fun _ _ => nofun)) (fun _ _ => nofun) trivial
  · rename_i f hcall
    split
    · rename_i k hk
      exact h.openChannel hcall hk
    · exact h.goto (not_inHand hcall (fun _ _ => nofun)) (fun _ _ => nofun) trivial
  · rename_i f raw hcall
    exact h.store hcall
  · rename_i f hcall
    have hhand := not_inHand hcall (fun _ _ => nofun)
    split
    · cases f <;> exact (h.setConnected _ _).goto hhand (fun _ _ => nofun) trivial
    · exact h.goto hhand (fun _ _ => nofun) trivial
  · rename_i f hcall
    have hhand := not_inHand hcall (fun _ _ => nofun)
    cases f with
    | nonBlocking | blocking => exact h.goto hhand (fun _ _ => nofun) trivial
    | notificationNonBlocking => exact h.goto hhand (fun _ _ => nofun) trivial
    | notificationBlocking =>
      exact (h.closeSession (hkeep.2 hcall) (hhand _)).goto hhand (fun _ _ => nofun) trivial
  · rename_i hcall
    have hhand := not_inHand hcall (fun _ _ => nofun)
    exact (h.resetChannel (hhand _)).goto hhand (fun _ _ => nofun) trivial
  · rename_i f hcall
    have hhand := not_inHand hcall (fun _ _ => nofun)
    split
    · split
      · exact (h.setConnected _ _).goto hhand (fun _ _ => nofun) trivial
      · exact h.goto hhand (fun _ _ => nofun) trivial
    · exact h.goto hhand (fun _ _ => nofun) trivial
  · rename_i hcall
    have hhand := not_inHand hcall (fun _ _ => nofun)
    exact (h.markNotificationDead (hhand _)).goto hhand (fun _ _ => nofun) trivial
  · rename_i destroy hcall
    have hhand := not_inHand hcall (fun _ _ => nofun)
    exact (h.resetChannel (hhand _)).goto hhand (fun _ _ => nofun) (resetChannel_channel _ _ _)
  · rename_i destroy hcall
    have hhand := not_inHand hcall (fun _ _ => nofun)
    have hempty := h.empty
    rw [hcall] at hempty
    exact (h.closeSession hempty (hhand _)).goto hhand (fun _ _ => nofun) trivial
  · rename_i destroy hcall
    have hhand := not_inHand hcall (fun _ _ => nofun)
    exact (h.markNotificationDead (hhand _)).goto hhand (fun _ _ => nofun) trivial
  · rename_i destroy hcall
    have hhand := not_inHand hcall (fun _ _ => nofun)
    cases destroy <;> exact (h.setConnected _ _).goto hhand (fun _ _ => nofun) trivial

theorem Owned.step (h : s.Owned) (turn : HandleTurn) (hkeep : s.KeepsOrder turn) : (s.step turn).Owned := by
  cases turn with
  | connect f | disconnect destroy =>
    simp only [HandleRun.step]
    split
    · rename_i hcall
      exact h.goto (not_inHand hcall (fun _ _ => nofun)) (fun _ _ => nofun) trivial
    · exact h
  | go ok => exact h.callStep hkeep
  | mark =>
    simp only [HandleRun.step]
    split
    · exact h
    · exact h.markNotificationDead (fun c ⟨f, hf, hside⟩ => hkeep f c hf hside)

end HandleRun

end PyNetX
