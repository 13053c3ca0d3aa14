import PyNetX.Lib.Monitor
import PyNetX.Delivery
/-!
# QueueWakeups — nobody sleeps on a notification

A client with the condition variable of its queue.  A section of the callback that queues something is followed by a
flush that notifies all, and so are the clearings; other threads may come in between.  Nobody sleeps on a queue that
holds something unless such a notification is due, and on a schedule that lets it and the woken threads go on, what is
queued is given to a consumer (`no_lost_notification`).
-/
namespace PyNetX

open Run (run)
open LeadsTo (after Leads)

/-- The client; the threads in `next_notification`, with what they found under `notif_mutex_` and their `timeout_ms`,
those of them that sleep and those that have been woken and not looked yet; the flushes and clearings that have left
their section and are to notify; and what the calls came to. -/
structure ClientThreads where
  client : ClientState := {}
  waiting : Nat → Option (SubscriptionFlags × Int) := fun _ => none
  blocked : List Nat := []
  woken : List Nat := []
  due : Nat := 0
  returned : List (Nat × Except String Bytes) := []

/-- A section under `_notif_queue_mtx`, or what happens between two of them. -/
inductive ClientMove where
  | parse (fd : Int) (now : Nat) (bytes : Bytes)
  | check (fd : Int) (turn : CallbackTurn)
  | idle (fd : Int) (now : Nat)
  | clear
  | markDead
  | subscribed
  | notifyAll
  | next (thread : Nat) (flags : SubscriptionFlags) (timeoutMs : Int)
  /-- A wait ends by its timeout, or for no reason. -/
  | stir (thread : Nat)
  /-- A woken thread has the mutex again, and its time is over or not. -/
  | look (thread : Nat) (timedOut : Bool)

namespace ClientThreads

/-- A section of the callback; the flush behind it notifies if something was queued. -/
def callback (s : ClientThreads) (c : Callback) : ClientThreads :=
  { s with
    client := s.client.left c
    due := if 0 < c.sink.queuedNotifications then s.due + 1 else s.due }

/-- A look at the queue, the last one if `isLast`. -/
def lookAt (cfg : ClientConfig) (xml : XmlParser) (s : ClientThreads) (thread : Nat) (flags : SubscriptionFlags)
    (timeoutMs : Int) (isLast : Bool) : ClientThreads :=
  match nextNotification cfg flags timeoutMs s.client.queue with
  | .error what => { s with returned := s.returned ++ [(thread, .error what)] }
  | .ok (text, _) =>
    if s.client.queue.items = [] ∧ isLast = false then
      { s with
        waiting := Function.update s.waiting thread (some (flags, timeoutMs))
        blocked := s.blocked ++ [thread] }
    else
      { s with
        client := s.client.step cfg xml (.pop flags timeoutMs)
        waiting := Function.update s.waiting thread none
        returned := s.returned ++ [(thread, .ok text)] }

/-- A thread that sleeps is woken. -/
def wake (s : ClientThreads) (thread : Nat) : ClientThreads :=
  if thread ∈ s.blocked then { s with blocked := s.blocked.erase thread, woken := s.woken ++ [thread] } else s

def step (cfg : ClientConfig) (xml : XmlParser) (s : ClientThreads) : ClientMove → ClientThreads
  | .parse fd now bytes => s.callback (parseLocked ⟨cfg, xml, fd⟩ now bytes s.client.entered)
  | .check fd turn => s.callback (checkLocked ⟨cfg, xml, fd⟩ turn s.client.entered).1
  | .idle fd now => s.callback (idleLocked ⟨cfg, xml, fd⟩ now s.client.entered)
  | .clear => { s with client := s.client.step cfg xml .clear, due := s.due + 1 }
  | .markDead => { s with client := s.client.step cfg xml .markDead, due := s.due + 1 }
  | .subscribed => { s with client := s.client.step cfg xml .subscribed }
  | .notifyAll =>
    if s.due = 0 then s else { s with blocked := [], woken := s.woken ++ s.blocked, due := s.due - 1 }
  | .next thread flags timeoutMs =>
    if (s.waiting thread).isSome then s else s.lookAt cfg xml thread flags timeoutMs (timeoutMs = 0)
  | .stir thread => s.wake thread
  | .look thread timedOut =>
    if thread ∈ s.woken then
      match s.waiting thread with
      | none => s
      | some (flags, timeoutMs) =>
        ({ s with woken := s.woken.erase thread } : ClientThreads).lookAt cfg xml thread flags timeoutMs timedOut
    else s

/-- What the condition variable sees. -/
def monitor (s : ClientThreads) : Monitor.State Nat where
  avail := s.client.queue.items.length
  blocked := s.blocked
  woken := s.woken
  alls := s.due

/-- The notifications that calls of `next_notification` have returned. -/
def given (s : ClientThreads) : Nat := s.returned.countP fun r => match r.2 with
  | .ok text => decide (text ≠ [])
  | .error _ => false

end ClientThreads

def runClientThreads (cfg : ClientConfig) (xml : XmlParser) (moves : List ClientMove) : ClientThreads :=
  run (ClientThreads.step cfg xml) {} moves

variable {cfg : ClientConfig} {xml : XmlParser} {env : CallbackEnv}

/-! ## What a section queues -/

/-- Nothing more is queued than `n`, or something was counted for the flush. -/
def Sink.Flushes (n : Nat) (s : Sink) : Prop := s.queue.items.length ≤ n ∨ 0 < s.queuedNotifications

theorem Sink.Flushes.offer {n : Nat} {s : Sink} (h : s.Flushes n) (fd : Int) (text : Bytes) (d : Int) :
    (enqueueOrDropLocked cfg fd text d s).Flushes n := by
  by_cases ht : text = []
  · subst ht
    exact h
  by_cases hcap : AtCapacity cfg s.queue
  · by_cases hr : DropReported cfg s.queue
    · rw [enqueueOrDropLocked_reported ht hcap hr]
      exact h
    · rw [enqueueOrDropLocked_silent ht hcap hr]
      exact h
  · rw [enqueueOrDropLocked_room ht hcap]
    exact Or.inr (Nat.succ_pos _)

theorem Sink.Flushes.effect {n : Nat} {s : Sink} (h : s.Flushes n) (seg : Segment) : (seg.effect env s).Flushes n := by
  have hnote : (seg.note env s).Flushes n := by
    unfold Segment.note
    split
    · exact h
    · rename_i incomplete _
      unfold addDiagnosticEventLocked
      cases incomplete <;> exact h
  unfold Segment.effect
  split
  · exact hnote
  · exact hnote.offer env.fd _ _

theorem flushes_foldl {n : Nat} : ∀ (segs : List Segment) {s : Sink}, s.Flushes n →
    (segs.foldl (Segment.effect env) s).Flushes n
  | [], _, h => h
  | seg :: segs, _, h => flushes_foldl segs (h.effect seg)

/-- **A section that queues something is followed by a notification.** -/
theorem Takes.flushes {s : ClientState} {c : Callback} {b : Bytes} {segs : List Segment}
    (h : Takes env s.entered c b segs) : c.sink.Flushes s.queue.items.length := by
  rw [h.sink]
  exact flushes_foldl segs (Or.inl (Nat.le_refl _))

/-! ## Nobody sleeps on something -/

namespace ClientThreads

variable {s : ClientThreads}

/-- The client has a run of its own; the threads that sleep and those that are woken are those in `next_notification`,
whose checks passed; and whoever sleeps, sleeps on nothing, unless a notification is due. -/
structure Sound (cfg : ClientConfig) (xml : XmlParser) (s : ClientThreads) : Prop where
  client : ∃ turns, s.client = runClient cfg xml turns
  threads : Monitor.Threads s.blocked s.woken (fun t => (s.waiting t).isSome = true)
  live : ∀ t flags timeoutMs, s.waiting t = some (flags, timeoutMs) → flags.Live timeoutMs
  flushed : Monitor.Flushed s.monitor

theorem Sound.nonempty (h : s.Sound cfg xml) : ∀ text ∈ s.client.queue.items, text ≠ [] := by
  obtain ⟨turns, hc⟩ := h.client
  obtain ⟨ops, hqueue, -, -⟩ := runClient_refines cfg xml turns
  rw [hc, ← hqueue]
  exact runQueue_nonempty cfg ops

theorem Sound.stable (h : s.Sound cfg xml) : rxTurn s.client.entered.rx.bytes = none := by
  obtain ⟨turns, hc⟩ := h.client
  obtain ⟨_, _, -, hstable, -⟩ := run_refines cfg xml turns ClientRun.refines_start rxTurn_nil
  rw [hc]
  exact hstable

theorem client_step (h : ∃ turns, s.client = runClient cfg xml turns) (t : ClientTurn) :
    ∃ turns, s.client.step cfg xml t = runClient cfg xml turns := by
  obtain ⟨turns, hc⟩ := h
  exact ⟨turns ++ [t], by rw [runClient_concat, hc]⟩

/-- A section that leaves the threads where they are. -/
theorem Sound.section {t : ClientTurn} {due : Nat} (h : s.Sound cfg xml)
    (hm : Monitor.Move s.monitor { s with client := s.client.step cfg xml t, due := due }.monitor) :
    Sound cfg xml { s with client := s.client.step cfg xml t, due := due } :=
  ⟨client_step h.client t, h.threads, h.live, hm.flushed rfl h.flushed⟩

theorem Sound.callback {c : Callback} {b : Bytes} {segs : List Segment} (h : s.Sound cfg xml) (t : ClientTurn)
    (hc : Takes env s.client.entered c b segs) (ht : s.client.step cfg xml t = s.client.left c) :
    (s.callback c).Sound cfg xml := by
  have hsection : ∀ due, Monitor.Move s.monitor { s with client := s.client.left c, due := due }.monitor →
      Sound cfg xml { s with client := s.client.left c, due := due } := by
    rw [← ht]
    exact fun due hm => h.section hm
  unfold ClientThreads.callback
  refine hsection _ ?_
  split
  · exact .brings _ 0 1 (Or.inr (Nat.succ_pos _))
  · rename_i hnone
    exact .drops s.monitor (hc.flushes.resolve_right hnone)

theorem Sound.reorder {s' : ClientThreads} (h : s.Sound cfg xml) (hclient : s'.client = s.client)
    (hwaiting : s'.waiting = s.waiting) (hperm : (s'.blocked ++ s'.woken).Perm (s.blocked ++ s.woken))
    (hm : Monitor.Move s.monitor s'.monitor) : s'.Sound cfg xml where
  client := by rw [hclient]; exact h.client
  threads := (h.threads.perm hperm).congr fun t => by rw [hwaiting]
  live := by rw [hwaiting]; exact h.live
  flushed := hm.flushed rfl h.flushed

theorem Sound.wake (h : s.Sound cfg xml) (thread : Nat) : (s.wake thread).Sound cfg xml := by
  unfold ClientThreads.wake
  split
  · rename_i ht
    exact h.reorder rfl rfl (Monitor.perm_wake ht) (.stirs ht)
  · exact h

theorem Sound.notifyAll (h : s.Sound cfg xml) : (s.step cfg xml .notifyAll).Sound cfg xml := by
  simp only [step]
  split
  · exact h
  · refine h.reorder rfl rfl ?_ (.notifiesAll _)
    rw [List.nil_append]
    exact List.perm_append_comm

/-! ## A look at the queue -/

theorem nextNotification_cons (cfg : ClientConfig) {flags : SubscriptionFlags} {timeoutMs : Int} {q : NotifQueue}
    {text : Bytes} {items : List Bytes} (hl : flags.Live timeoutMs) (hq : q.items = text :: items) :
    ∃ q' event, nextNotification cfg flags timeoutMs q = .ok (text, q', event) ∧ q'.items = items := by
  rw [nextNotification_live cfg q hl, hq]
  simp only
  split
  · exact ⟨_, _, rfl, rfl⟩
  · exact ⟨_, _, rfl, rfl⟩

/-- **What a look comes to**, where no text in the queue is empty: the checks throw, or there is nothing and the thread
sleeps or its time is over, or it takes the oldest notification. -/
theorem lookAt_cases (cfg : ClientConfig) (xml : XmlParser) (hne : ∀ text ∈ s.client.queue.items, text ≠ [])
    (thread : Nat) (flags : SubscriptionFlags) (timeoutMs : Int) (isLast : Bool) :
    (¬ flags.Live timeoutMs ∧ ∃ what, s.lookAt cfg xml thread flags timeoutMs isLast =
      { s with returned := s.returned ++ [(thread, .error what)] }) ∨
    flags.Live timeoutMs ∧ s.client.queue.items = [] ∧ s.lookAt cfg xml thread flags timeoutMs isLast =
      { s with
        waiting := Function.update s.waiting thread (some (flags, timeoutMs))
        blocked := s.blocked ++ [thread] } ∨
    flags.Live timeoutMs ∧ ∃ text, s.lookAt cfg xml thread flags timeoutMs isLast =
      { s with
        client := s.client.step cfg xml (.pop flags timeoutMs)
        waiting := Function.update s.waiting thread none
        returned := s.returned ++ [(thread, .ok text)] } ∧
      (s.client.queue.items = [] ∧ (s.client.step cfg xml (.pop flags timeoutMs)).queue.items = [] ∨
        text ≠ [] ∧ s.client.queue.items = text :: (s.client.step cfg xml (.pop flags timeoutMs)).queue.items) := by
  by_cases hl : flags.Live timeoutMs
  · have hnext := nextNotification_live cfg s.client.queue hl
    cases hq : s.client.queue.items with
    | nil =>
      rw [hq] at hnext
      simp only at hnext
      cases isLast with
      | false =>
        refine Or.inr (Or.inl ⟨hl, rfl, ?_⟩)
        simp only [lookAt, hnext, hq, and_self, if_true]
      | true =>
        refine Or.inr (Or.inr ⟨hl, [], ?_, Or.inl ⟨rfl, ?_⟩⟩)
        · simp only [lookAt, hnext]
          rw [if_neg (by simp)]
        · simp only [ClientState.step, hnext, hq]
    | cons text items =>
      obtain ⟨q, event, hnext, hitems⟩ := nextNotification_cons cfg hl hq
      rw [hq] at hne
      refine Or.inr (Or.inr ⟨hl, text, ?_, Or.inr ⟨hne text List.mem_cons_self, ?_⟩⟩)
      · simp only [lookAt, hnext]
        rw [if_neg (by simp [hq])]
      · simp only [ClientState.step, hnext, hitems]
  · obtain ⟨what, hnext⟩ := nextNotification_not_live cfg s.client.queue hl
    exact Or.inl ⟨hl, what, by simp only [lookAt, hnext]⟩

/-- **Behind a look** a thread that was not waiting, or waits no more, sleeps or is gone. -/
theorem sound_lookAt {thread : Nat} {flags : SubscriptionFlags} {timeoutMs : Int} (h : s.Sound cfg xml)
    {woken : List Nat} (hbut : Monitor.Threads s.blocked woken (fun t => (s.waiting t).isSome = true ∧ t ≠ thread))
    (hl : flags.Live timeoutMs) (isLast : Bool) :
    (({ s with woken := woken } : ClientThreads).lookAt cfg xml thread flags timeoutMs isLast).Sound cfg xml := by
  have hlive : ∀ value, (∀ f ms, value = some (f, ms) → f.Live ms) → ∀ t f ms,
      Function.update s.waiting thread value t = some (f, ms) → f.Live ms := by
    intro value hvalue t f ms ht
    rw [Function.update_apply] at ht
    split at ht
    · exact hvalue f ms ht
    · exact h.live t f ms ht
  have hwaits : ∀ value t, t ≠ thread →
      ((Function.update s.waiting thread value t).isSome = true ↔ (s.waiting t).isSome = true) := by
    intro value t ht
    rw [Function.update_of_ne ht]
  have hcases := lookAt_cases (s := { s with woken := woken }) cfg xml h.nonempty thread flags timeoutMs isLast
  rcases hcases with ⟨hdead, -⟩ | ⟨-, hq, hs⟩ | ⟨-, text, hs, htext⟩
  · exact absurd hl hdead
  · rw [hs]
    refine ⟨h.client, hbut.sleeps (fun ht => ht.2 rfl) fun t => ?_, hlive _ fun f ms he => ?_, Or.inr (Or.inl ?_)⟩
    · by_cases ht : t = thread
      · simp [ht]
      · rw [hwaits _ t ht]
        simp [ht]
    · cases he
      exact hl
    · simp only [monitor]
      exact List.length_eq_zero_iff.2 hq
  · rw [hs]
    refine ⟨client_step h.client (.pop flags timeoutMs), hbut.congr fun t => ?_, hlive _ nofun, ?_⟩
    · by_cases ht : t = thread
      · simp [ht]
      · rw [hwaits _ t ht]
        simp [ht]
    · refine h.flushed.imp id (Or.imp_left fun hzero => ?_)
      have hnone : s.client.queue.items = [] := List.length_eq_zero_iff.1 hzero
      rcases htext with ⟨-, hnil⟩ | ⟨-, hcons⟩
      · exact List.length_eq_zero_iff.2 hnil
      · rw [hnone] at hcons
        cases hcons

theorem Sound.next (h : s.Sound cfg xml) (thread : Nat) (flags : SubscriptionFlags) (timeoutMs : Int) :
    (s.step cfg xml (.next thread flags timeoutMs)).Sound cfg xml := by
  simp only [step]
  split
  · exact h
  rename_i hnew
  have hbut : Monitor.Threads s.blocked s.woken (fun t => (s.waiting t).isSome = true ∧ t ≠ thread) := by
    refine h.threads.congr fun t => ⟨fun ht => ht.1, fun ht => ⟨ht, ?_⟩⟩
    rintro rfl
    exact hnew ht
  by_cases hl : flags.Live timeoutMs
  · exact sound_lookAt h hbut hl _
  · obtain ⟨what, hnext⟩ := nextNotification_not_live cfg s.client.queue hl
    simp only [lookAt, hnext]
    exact ⟨h.client, h.threads, h.live, h.flushed⟩

theorem Sound.look (h : s.Sound cfg xml) (thread : Nat) (timedOut : Bool) :
    (s.step cfg xml (.look thread timedOut)).Sound cfg xml := by
  simp only [step]
  split
  case isFalse => exact h
  rename_i hwoken
  split
  · exact h
  · rename_i flags timeoutMs hw
    exact sound_lookAt h (h.threads.leaves hwoken) (h.live thread flags timeoutMs hw) timedOut

/-- **Every move keeps the threads, and nobody sleeps on something.** -/
theorem Sound.step (h : s.Sound cfg xml) (m : ClientMove) : (s.step cfg xml m).Sound cfg xml := by
  cases m with
  | parse fd now bytes =>
    obtain ⟨segs, htakes⟩ := parseLocked_takes ⟨cfg, xml, fd⟩ h.stable now bytes
    exact h.callback (.parse fd now bytes) htakes rfl
  | check fd turn =>
    obtain ⟨segs, htakes⟩ := checkLocked_takes ⟨cfg, xml, fd⟩ h.stable turn
    exact h.callback (.check fd turn) htakes rfl
  | idle fd now =>
    obtain ⟨segs, htakes⟩ := idleLocked_takes (takes_refl ⟨cfg, xml, fd⟩ h.stable) now
    exact h.callback (.idle fd now) htakes rfl
  | clear | markDead => exact h.section (.brings _ 0 1 (Or.inr (Nat.succ_pos _)))
  | subscribed => exact h.section (.idle s.monitor)
  | notifyAll => exact h.notifyAll
  | next thread flags timeoutMs => exact h.next thread flags timeoutMs
  | stir thread => exact h.wake thread
  | look thread timedOut => exact h.look thread timedOut

theorem sound_run (cfg : ClientConfig) (xml : XmlParser) (moves : List ClientMove) :
    (runClientThreads cfg xml moves).Sound cfg xml :=
  Run.run_invariant (fun _ m h => h.step m) moves _
    ⟨⟨[], rfl⟩, Monitor.threads_nil fun _ => nofun, nofun, Or.inl rfl⟩

/-! ## What is queued is given -/

/-- The queue, seen through its condition variable. -/
def view : Monitor.View ClientThreads ClientMove Nat where
  monitor := monitor
  taken := given
  notifies m := m = .notifyAll
  looks m t := ∃ b, m = .look t b

theorem not_helps {m : ClientMove} (hn : m ≠ .notifyAll) (hl : ∀ t b, m ≠ .look t b) : ¬ view.Helps s m := by
  rintro (⟨-, -, ht⟩ | ⟨t, -, b, ht⟩)
  · exact hn ht
  · exact hl t b ht

/-- A look at a queue that holds something gives it, or is refused. -/
theorem lookAt_served {n : Nat} (hne : ∀ text ∈ s.client.queue.items, text ≠ []) (hq : s.client.queue.items ≠ [])
    (hn : s.given = n) (thread : Nat) {flags : SubscriptionFlags} {timeoutMs : Int} (hl : flags.Live timeoutMs)
    (isLast : Bool) : view.Served n (s.lookAt cfg xml thread flags timeoutMs isLast) := by
  rcases lookAt_cases cfg xml hne thread flags timeoutMs isLast with ⟨hdead, -⟩ | ⟨-, hnil, -⟩ | ⟨-, text, hs, htext⟩
  · exact absurd hl hdead
  · exact absurd hnil hq
  · obtain ⟨htext, -⟩ := htext.resolve_left fun h => hq h.1
    refine Or.inl ?_
    rw [hs, ← hn]
    simp [view, given, List.countP_append, htext]

theorem goesOn_next {n : Nat} (hs : s.Sound cfg xml) (h : view.Waiting n s) (thread : Nat) (flags : SubscriptionFlags)
    (timeoutMs : Int) :
    view.GoesOn n s (s.step cfg xml (.next thread flags timeoutMs)) (.next thread flags timeoutMs) := by
  have hidle : ¬ view.Helps s (.next thread flags timeoutMs) := not_helps nofun nofun
  simp only [step]
  split
  · exact .of_same h rfl rfl hidle
  by_cases hl : flags.Live timeoutMs
  · exact Or.inl (lookAt_served hs.nonempty (List.length_pos_iff.1 h.avail) h.taken thread hl _)
  · obtain ⟨what, hnext⟩ := nextNotification_not_live cfg s.client.queue hl
    simp only [lookAt, hnext]
    refine .of_same h rfl ?_ hidle
    simp [view, given, List.countP_append]

theorem goesOn_look {n : Nat} (hs : s.Sound cfg xml) (h : view.Waiting n s) (thread : Nat) (timedOut : Bool) :
    view.GoesOn n s (s.step cfg xml (.look thread timedOut)) (.look thread timedOut) := by
  simp only [step]
  split
  · rename_i hwoken
    obtain ⟨⟨flags, timeoutMs⟩, hw⟩ :=
      Option.isSome_iff_exists.1 ((hs.threads.mem thread).2 (List.mem_append_right _ hwoken))
    rw [hw]
    exact Or.inl (lookAt_served (s := { s with woken := s.woken.erase thread }) hs.nonempty
      (List.length_pos_iff.1 h.avail) h.taken thread (hs.live thread flags timeoutMs hw) timedOut)
  · rename_i hwoken
    refine .of_same h rfl rfl ?_
    rintro (⟨-, -, ht⟩ | ⟨t, hmem, b, ht⟩)
    · cases ht
    · cases ht
      exact hwoken hmem

theorem goesOn_notifyAll {n : Nat} (h : view.Waiting n s) :
    view.GoesOn n s (s.step cfg xml .notifyAll) .notifyAll := by
  simp only [step]
  split
  · rename_i hdue
    refine .of_same h rfl rfl ?_
    rintro (⟨-, hpos, -⟩ | ⟨t, -, b, ht⟩)
    · simp only [view, monitor, hdue] at hpos
      exact absurd hpos (Nat.lt_irrefl 0)
    · cases ht
  · have hwaits := h.waits
    have hwoken : s.woken ++ s.blocked ≠ [] := fun hnone => hwaits <| by
      rw [List.append_eq_nil_iff] at hnone ⊢
      exact hnone.symm
    have hperm : (([] : List Nat) ++ (s.woken ++ s.blocked)).Perm (s.blocked ++ s.woken) := by
      rw [List.nil_append]
      exact List.perm_append_comm
    refine .of_perm h rfl hperm (fun hnone => absurd hnone hwoken) fun hh => ⟨?_, hwoken⟩
    obtain ⟨hnone, -, -⟩ | ⟨t, -, b, ht⟩ := hh
    · exact hnone
    · cases ht

/-- **A move of a schedule**: the threads that wait go on, or one is served. -/
theorem goesOn_step {n : Nat} (m : ClientMove) (hs : s.Sound cfg xml) (h : view.Waiting n s) :
    view.GoesOn n s (s.step cfg xml m) m := by
  have hidle (hn : m ≠ .notifyAll) (hl : ∀ t b, m ≠ .look t b) (hgiven : (s.step cfg xml m).given = s.given)
      (hblocked : (s.step cfg xml m).blocked = s.blocked) (hwoken : (s.step cfg xml m).woken = s.woken) :
      view.GoesOn n s (s.step cfg xml m) m := by
    refine .of_perm h hgiven ?_ (fun hnone => ?_) fun hh => absurd hh (not_helps hn hl)
    · simp only [view, monitor, hblocked, hwoken, List.Perm.refl]
    · simp only [view, monitor, hwoken] at hnone ⊢
      exact hnone
  cases m with
  | parse | check | idle | clear | markDead | subscribed => exact hidle nofun nofun rfl rfl rfl
  | notifyAll => exact goesOn_notifyAll h
  | next thread flags timeoutMs => exact goesOn_next hs h thread flags timeoutMs
  | stir thread =>
    simp only [step, wake]
    split
    · rename_i ht
      refine .of_perm h rfl (Monitor.perm_wake ht) (fun hnone => ?_) fun hh => absurd hh (not_helps nofun nofun)
      exact absurd hnone (List.concat_ne_nil thread s.woken)
    · exact .of_same h rfl rfl (not_helps nofun nofun)
  | look thread timedOut => exact goesOn_look hs h thread timedOut

end ClientThreads

/-- **No lost wakeup on a client's queue.**  Whatever callbacks parse, consumers and clearings do, in what order, and
whichever threads wake: no consumer sleeps on a queue that holds a notification, unless a flush or a clearing has left
its section and is to notify all.  On a schedule that lets these and the woken threads go on, if notifications are
queued and a thread is in `next_notification`, then sooner or later one is given to a consumer, or the queue is empty. -/
theorem no_lost_notification (cfg : ClientConfig) (xml : XmlParser) :
    (∀ moves, (∃ turns, (runClientThreads cfg xml moves).client = runClient cfg xml turns) ∧
      ((runClientThreads cfg xml moves).blocked ≠ [] → (runClientThreads cfg xml moves).client.queue.items ≠ [] →
        0 < (runClientThreads cfg xml moves).due)) ∧
    ∀ moves, ClientThreads.view.Fair (ClientThreads.step cfg xml) {} moves → ∀ n,
      (after (ClientThreads.step cfg xml) {} moves n).client.queue.items ≠ [] →
      (∃ t, ((after (ClientThreads.step cfg xml) {} moves n).waiting t).isSome = true) →
        ∃ m, n ≤ m ∧ ((after (ClientThreads.step cfg xml) {} moves n).given <
            (after (ClientThreads.step cfg xml) {} moves m).given ∨
          (after (ClientThreads.step cfg xml) {} moves m).client.queue.items = []) := by
  refine ⟨fun moves => ?_, fun moves hfair n hqueue hwaits => ?_⟩
  · have hsound := ClientThreads.sound_run cfg xml moves
    refine ⟨hsound.client, fun hblocked hqueue => ?_⟩
    rcases hsound.flushed with h | h | h
    · exact absurd h hblocked
    · exact absurd (List.length_eq_zero_iff.1 h) hqueue
    · exact h
  · have hsound : (after (ClientThreads.step cfg xml) {} moves n).Sound cfg xml := ClientThreads.sound_run cfg xml _
    obtain ⟨t, ht⟩ := hwaits
    have hwaiting : ClientThreads.view.Waiting (after (ClientThreads.step cfg xml) {} moves n).given
        (after (ClientThreads.step cfg xml) {} moves n) :=
      ⟨List.length_pos_iff.2 hqueue, List.ne_nil_of_mem ((hsound.threads.mem t).1 ht), rfl⟩
    have hleads := Monitor.View.leads (I := ClientThreads.Sound cfg xml) (fun _ m h => h.step m)
      (fun _ h => h.flushed.covered)
      (after (ClientThreads.step cfg xml) {} moves n).given (fun _ m => ClientThreads.goesOn_step m) hfair
    obtain ⟨m, hm, hserved⟩ := hleads n ⟨hsound, hwaiting⟩
    exact ⟨m, hm, hserved.imp id List.length_eq_zero_iff.1⟩

/-- A consumer sleeps, a notification comes, and the flush and the consumer go on. -/
def oneConsumer : Nat → ClientMove
  | 0 => .next 1 ⟨true, true, true⟩ 500
  | 1 => .parse 7 0 (notificationA ++ eom)
  | 2 => .notifyAll
  | 3 => .look 1 false
  | _ => .subscribed

theorem oneConsumer_fair :
    ClientThreads.view.Fair (ClientThreads.step pairEnv.cfg pairEnv.xml) {} oneConsumer := by
  have hend : ∀ n, (after (ClientThreads.step pairEnv.cfg pairEnv.xml) {} oneConsumer (n + 4)).due = 0 ∧
      (after (ClientThreads.step pairEnv.cfg pairEnv.xml) {} oneConsumer (n + 4)).woken = [] := by
    intro n
    induction n with
    | zero => decide +kernel
    | succ n ih =>
      rw [show n + 1 + 4 = (n + 4) + 1 from rfl, LeadsTo.after_succ]
      exact ih
  constructor
  · intro n hdue
    rcases n with _ | _ | _ | _ | n
    · exact absurd hdue (by decide +kernel)
    · exact absurd hdue (by decide +kernel)
    · exact ⟨2, Nat.le_refl _, hdue, rfl⟩
    · exact absurd hdue (by decide +kernel)
    · have hnone := (hend n).1
      simp [ClientThreads.view, ClientThreads.monitor, hnone] at hdue
  · intro n hwoken
    rcases n with _ | _ | _ | _ | n
    · exact absurd (by decide +kernel) hwoken
    · exact absurd (by decide +kernel) hwoken
    · exact absurd (by decide +kernel) hwoken
    · exact ⟨3, Nat.le_refl _, 1, by decide +kernel, false, rfl⟩
    · exact absurd (hend n).2 hwoken

theorem no_lost_notification_oneConsumer : ∃ m, 2 ≤ m ∧
    ((after (ClientThreads.step pairEnv.cfg pairEnv.xml) {} oneConsumer 2).given <
      (after (ClientThreads.step pairEnv.cfg pairEnv.xml) {} oneConsumer m).given ∨
    (after (ClientThreads.step pairEnv.cfg pairEnv.xml) {} oneConsumer m).client.queue.items = []) :=
  (no_lost_notification pairEnv.cfg pairEnv.xml).2 oneConsumer oneConsumer_fair 2 (by decide +kernel)
    ⟨1, by decide +kernel⟩

end PyNetX
