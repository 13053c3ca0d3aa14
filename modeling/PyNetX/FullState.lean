import PyNetX.QueueRun
/-!
# FullState — what `_notif_queue_full_state` says

The flag is set by the first drop at capacity and reset by the pop that makes room and by `clear_notification_queue`;
`mark_notification_dead` empties the queue and leaves it set.  Over a run it is truthful exactly when no session dies
while it is set (`full_state_truthful_iff`).
-/
namespace PyNetX

open Run (run Along)

variable {cfg : ClientConfig} {c : ClientRun}

/-- The full state is truthful along a run: it is set only at capacity, the first drop of a full episode is announced
as such, and a pop makes an event only when it takes the queue from capacity to below. -/
structure FullStateTruthful (cfg : ClientConfig) (ops : List QueueOp) : Prop where
  state : ∀ pre, pre <+: ops → (runQueue cfg pre).queue.fullState = true →
    cfg.capacity = some (runQueue cfg pre).queue.items.length
  firstDrop : ∀ pre fd n d post, ops = pre ++ .offer fd n d :: post → n ≠ [] → AtCapacity cfg (runQueue cfg pre).queue →
    (runQueue cfg pre).episodeDrops = 0 → ∃ e : NotificationHealthEvent, e.type = .notificationQueueFull ∧
      (runQueue cfg (pre ++ [.offer fd n d])).events = (runQueue cfg pre).events ++ [e]
  recovery : ∀ pre flags timeoutMs post e, ops = pre ++ .pop flags timeoutMs :: post →
    (runQueue cfg (pre ++ [.pop flags timeoutMs])).events = (runQueue cfg pre).events ++ [e] →
    e.type = .notificationQueueRecovered ∧ AtCapacity cfg (runQueue cfg pre).queue ∧
      ¬ AtCapacity cfg (runQueue cfg (pre ++ [.pop flags timeoutMs])).queue

/-- A session does not die while the full state is set, unless the capacity is 0. -/
def DiesNotFull (cfg : ClientConfig) (c : ClientRun) (op : QueueOp) : Prop :=
  op = .markDead → c.queue.fullState = false ∨ cfg.capacity = some 0

/-- The invariant: besides the counts, a set flag means capacity, and a drop in the episode that is on. -/
structure FullStateInv (cfg : ClientConfig) (c : ClientRun) : Prop where
  counts : QueueCounts cfg c
  capacity : c.queue.fullState = true → cfg.capacity = some c.queue.items.length
  dropped : c.queue.fullState = true → 0 < c.episodeDrops

theorem atCapacity_of_capacity {q : NotifQueue} (h : cfg.capacity = some q.items.length) : AtCapacity cfg q :=
  (atCapacity_iff q).2 ⟨_, h, Nat.le_refl _⟩

theorem capacity_of_atCapacity (h : QueueCounts cfg c) (hcap : AtCapacity cfg c.queue) :
    cfg.capacity = some c.queue.items.length := by
  obtain ⟨k, hk, hle⟩ := (atCapacity_iff c.queue).1 hcap
  rw [hk, Nat.le_antisymm (h.bounded k hk) hle]

theorem popRecovers_of_capacity {q : NotifQueue} {x : Bytes} {xs : List Bytes} (hset : q.fullState = true)
    (hcap : cfg.capacity = some q.items.length) (hx : q.items = x :: xs) : PopRecovers cfg q xs := by
  refine ⟨hset, Or.inr ?_⟩
  rw [hx, List.length_cons] at hcap
  unfold ClientConfig.capacity at hcap
  split at hcap
  · injection hcap with hcap
    rw [hcap]
    exact Nat.lt_succ_self _
  · cases hcap

/-- **Every section keeps the flag truthful**, a session's death while it is set apart. -/
theorem QueueOp.step_fullState (h : FullStateInv cfg c) (op : QueueOp) (hg : DiesNotFull cfg c op) :
    FullStateInv cfg (op.step cfg c) := by
  have hcounts := op.step_counts h.counts
  have hs := op.step_outcome cfg c
  generalize op.step cfg c = c' at hs hcounts ⊢
  have hcap : c.queue.fullState = true → AtCapacity cfg c.queue := fun hf => atCapacity_of_capacity (h.capacity hf)
  cases hs with
  | none hq ha hp ho hd he hf =>
    refine ⟨hcounts, by rw [hq]; exact h.capacity, fun hset => ?_⟩
    rw [hq] at hset
    rw [hd (hcap hset)]
    exact h.dropped hset
  | accepted hn hroom => exact ⟨hcounts, fun hset => absurd (hcap hset) hroom, fun hset => absurd (hcap hset) hroom⟩
  | reported hn hfull hr =>
    have hk := capacity_of_atCapacity h.counts hfull
    exact ⟨hcounts, fun _ => hk, fun _ => ClientRun.next_episodeDrops_pos (q := c.queue.reportDrop) [] hfull
      (Or.inl (Nat.lt_succ_self _))⟩
  | silent hn hfull hr =>
    have hk := capacity_of_atCapacity h.counts hfull
    exact ⟨hcounts, fun _ => hk, fun _ => ClientRun.next_episodeDrops_pos (q := c.queue.dropSilently) [] hfull
      (Or.inl (Nat.lt_succ_self _))⟩
  | diagnostic he =>
    exact ⟨hcounts, h.capacity, fun hset => ClientRun.next_episodeDrops_pos _ (hcap hset) (Or.inr (h.dropped hset))⟩
  | popped hl hx hr =>
    have hroom : c.queue.fullState = true → False := fun hset =>
      hr (popRecovers_of_capacity hset (h.capacity hset) hx)
    exact ⟨hcounts, fun hset => (hroom hset).elim, fun hset => (hroom hset).elim⟩
  | recovered hl hx hr => exact ⟨hcounts, fun hset => (by cases hset), fun hset => (by cases hset)⟩
  | dead =>
    rcases hg rfl with hclear | hzero
    · have hnot : ∀ {p : Prop}, c.queue.fullState = true → p := fun hset => by
        rw [hclear] at hset
        cases hset
      exact ⟨hcounts, fun hset => hnot hset, fun hset => hnot hset⟩
    · refine ⟨hcounts, fun _ => hzero, fun hset => ?_⟩
      have hstill : AtCapacity cfg { c.queue with items := [] } := atCapacity_of_capacity hzero
      exact ClientRun.next_episodeDrops_pos [] hstill (Or.inr (h.dropped hset))
  | cleared => exact ⟨hcounts, fun hset => (by cases hset), fun hset => (by cases hset)⟩

theorem runQueue_fullState (cfg : ClientConfig) (ops : List QueueOp)
    (h : Along (QueueOp.step cfg) (DiesNotFull cfg) {} ops) : FullStateInv cfg (runQueue cfg ops) :=
  Run.along_invariant (I := FullStateInv cfg) (fun _ op hi hg => op.step_fullState hi hg)
    ⟨runQueue_counts cfg [], fun hset => (by cases hset), fun hset => (by cases hset)⟩ ops h

theorem FullStateInv.firstDrop (h : FullStateInv cfg c) (fd : Int) {n : Bytes} (d : Int) (hn : n ≠ [])
    (hfull : AtCapacity cfg c.queue) (hzero : c.episodeDrops = 0) : ∃ e : NotificationHealthEvent,
      e.type = .notificationQueueFull ∧ ((QueueOp.offer fd n d).step cfg c).events = c.events ++ [e] := by
  have hclear : c.queue.fullState = false := by
    rw [← Bool.not_eq_true]
    intro hset
    have := h.dropped hset
    omega
  have hs := (QueueOp.offer fd n d).step_outcome cfg c
  generalize (QueueOp.offer fd n d).step cfg c = c' at hs ⊢
  cases hs with
  | none hq ha hp ho hd he hf => exact absurd hf (offer_not_skip fd d hn)
  | accepted _ hroom => exact absurd hfull hroom
  | reported _ _ hr =>
    refine ⟨_, ?_, rfl⟩
    simp [makeNotificationHealthEventLocked, hclear]
  | silent _ _ hr => exact absurd (Or.inl hclear) hr

theorem FullStateInv.recovery (h : FullStateInv cfg c) {flags : SubscriptionFlags} {timeoutMs : Int}
    {e : NotificationHealthEvent} (he : ((QueueOp.pop flags timeoutMs).step cfg c).events = c.events ++ [e]) :
    e.type = .notificationQueueRecovered ∧ AtCapacity cfg c.queue ∧
      ¬ AtCapacity cfg ((QueueOp.pop flags timeoutMs).step cfg c).queue := by
  have hs := (QueueOp.pop flags timeoutMs).step_outcome cfg c
  generalize (QueueOp.pop flags timeoutMs).step cfg c = c' at hs he ⊢
  cases hs with
  | none hq ha hp ho hd hev hf =>
    rw [hev] at he
    simp at he
  | popped hl hx hr =>
    simp at he
  | recovered hl hx hr =>
    simp only [ClientRun.next_events] at he
    obtain rfl := List.cons.inj (List.append_cancel_left he) |>.1
    have hk := h.capacity hr.1
    refine ⟨rfl, atCapacity_of_capacity hk, fun hstill => ?_⟩
    obtain ⟨k, hk', hle⟩ := (atCapacity_iff _).1 hstill
    rw [hk, hx, List.length_cons] at hk'
    cases hk'
    simp only [ClientRun.next_queue] at hle
    omega

/-- **The full state is truthful along a run exactly when no session dies while it is set**, a capacity of 0 apart. -/
theorem full_state_truthful_iff (cfg : ClientConfig) (ops : List QueueOp) :
    FullStateTruthful cfg ops ↔ Along (QueueOp.step cfg) (DiesNotFull cfg) {} ops := by
  constructor
  · intro h pre op post hops hop
    subst hop
    have hbefore := h.state pre ⟨.markDead :: post, hops.symm⟩
    have hafter := h.state (pre ++ [.markDead]) ⟨post, by rw [hops]; simp⟩
    rw [runQueue_concat] at hafter
    cases hset : (runQueue cfg pre).queue.fullState with
    | false => exact Or.inl hset
    | true => exact Or.inr (hafter hset)
  · intro h
    have hinv : ∀ pre, pre <+: ops → FullStateInv cfg (runQueue cfg pre) := fun pre hpre =>
      runQueue_fullState cfg pre (h.of_front hpre)
    refine ⟨fun pre hpre => (hinv pre hpre).capacity, ?_, ?_⟩
    · intro pre fd n d post hops hn hfull hzero
      rw [runQueue_concat]
      exact (hinv pre ⟨_, hops.symm⟩).firstDrop fd d hn hfull hzero
    · intro pre flags timeoutMs post e hops he
      rw [runQueue_concat] at he ⊢
      exact (hinv pre ⟨_, hops.symm⟩).recovery he

/-- A client whose queue holds one notification. -/
def oneSlotConfig : ClientConfig where
  hostname := "device"
  port := 830
  username := "admin"
  notifQueueSize := 1
  accepted := (ClientArgs.check_ok_iff _).2 (by simp)

def sampleOffer : QueueOp := .offer 5 (ascii "<notification/>") 0

/-- **A session that dies full leaves the full state set on an empty queue**, and the first drop of the next full
episode passes for a summary. -/
theorem full_state_not_truthful :
    ¬ FullStateTruthful oneSlotConfig [sampleOffer, sampleOffer, .markDead] ∧
    (runQueue oneSlotConfig [sampleOffer, sampleOffer, .markDead]).queue.fullState = true ∧
    (runQueue oneSlotConfig [sampleOffer, sampleOffer, .markDead]).queue.items = [] ∧
    (runQueue oneSlotConfig [sampleOffer, sampleOffer, .markDead, .subscribed, sampleOffer, sampleOffer]).events.map
      (·.type) = [.notificationQueueFull, .notificationDropsSummary] := by
  refine ⟨fun h => ?_, by decide +kernel, by decide +kernel, by decide +kernel⟩
  have hstate := h.state _ (List.prefix_refl _) (by decide +kernel)
  exact absurd hstate (by decide +kernel)

end PyNetX
