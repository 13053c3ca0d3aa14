import PyNetX.Delivery
import PyNetX.Framing
import PyNetX.Subscribe
/-!
# Subscription — from the device's stream to the consumers

One channel carries the subscription's reply and then the notifications; the RPC reader takes the first, the callback
what is left, and consumers on other threads pop what the parser queues.  Where a read ends with the reply's marker, no
segment is reported exactly when no guard fires and every cut is harmless, and then the consumers get the notifications
that have arrived, in order, but for those that are counted as dropped (`subscription_delivers_iff`).
-/
namespace PyNetX

open Run (run Along)
open Search (find splitOn)
open Drain (drain feed)

/-- What a section of the callback appends to the receive buffer, if it is one behind a read. -/
def ClientTurn.read? : ClientTurn → Option Bytes
  | .parse _ _ bytes => some bytes
  | _ => none

/-- A guard of the turn's section fires. -/
def ClientTurn.GuardFires (cfg : ClientConfig) (xml : XmlParser) (s : ClientState) : ClientTurn → Prop
  | .parse fd now bytes =>
    partialSizeLimitReachedLocked cfg (processRxBufferLocked ⟨cfg, xml, fd⟩ now (s.entered.append bytes)).rx = true
  | .check fd t =>
    let rx := (processRxBufferLocked ⟨cfg, xml, fd⟩ t.parsedAt s.entered).rx
    partialSizeLimitReachedLocked cfg rx = true ∨ partialTimeoutReachedLocked cfg t.checkedAt rx = true ∨
      (rx.bytes ≠ [] ∧ 0 < cfg.notifIncompleteTimeout ∧ rx.partialStartedAt + seconds cfg.notifIncompleteTimeout ≤ t.now)
  | .idle _ now => partialTimeoutReachedLocked cfg now s.rx = true
  | _ => False

/-- The client, as `subscribe_non_blocking` finds it. -/
def ClientState.subscriber (s : ClientState) : Subscriber where
  queue := s.queue
  rx := s.rx

/-- What the callbacks append to the receive buffer after a subscription, read after read. -/
def SubscribeCall.handedReads (call : SubscribeCall) (e : SubscribeEnd) : List Bytes :=
  handedBytes call.handles call.handles.socket e.unread.length e.unread

variable {cfg : ClientConfig} {xml : XmlParser} {env : CallbackEnv}

/-! ## Turns whose guards are quiet -/

/-- **The parser takes what the buffer drains into.** -/
theorem processRxBufferLocked_takes (env : CallbackEnv) (now : Nat) (c : Callback) (b : Bytes) :
    Takes env c (processRxBufferLocked env now (c.append b)) b (drain rxPass (c.rx.bytes ++ b)).1 ∧
      (processRxBufferLocked env now (c.append b)).rx.bytes = (drain rxPass (c.rx.bytes ++ b)).2 := by
  have hconserves := Drain.drain_conserves rxPass (c.rx.bytes ++ b)
  rw [processRxBufferLocked_eq]
  exact ⟨⟨Drain.drain_forall rxPass rxTurn_wellFormed _, hconserves.symm, rfl,
    Drain.drain_stable rxPass _⟩, rfl⟩

theorem checkLocked_unguarded (env : CallbackEnv) {t : CallbackTurn} {c : Callback}
    (hsize : ¬ partialSizeLimitReachedLocked env.cfg (processRxBufferLocked env t.parsedAt c).rx = true)
    (htime : ¬ partialTimeoutReachedLocked env.cfg t.checkedAt (processRxBufferLocked env t.parsedAt c).rx = true)
    (hlate : ¬ ((processRxBufferLocked env t.parsedAt c).rx.bytes ≠ [] ∧ 0 < env.cfg.notifIncompleteTimeout ∧
      (processRxBufferLocked env t.parsedAt c).rx.partialStartedAt + seconds env.cfg.notifIncompleteTimeout ≤ t.now)) :
    (checkLocked env t c).1 = processRxBufferLocked env t.parsedAt c := by
  unfold checkLocked guardsLocked
  rw [if_neg hsize, if_neg htime]
  simp only
  split
  · rename_i hwaits
    rw [if_neg fun hle => hlate ⟨hwaits.1, hwaits.2, hle⟩]
  · rfl

/-- A turn in whose section no guard fires takes what its read brings, and that alone. -/
theorem ClientState.step_reads {r : ClientRun} {s : ClientState} (h : r.Refines s) (hs : rxTurn s.rx.bytes = none)
    {t : ClientTurn} (hkeeps : t.Keeps) (hquiet : ¬ t.GuardFires cfg xml s) :
    ∃ ops, (run (QueueOp.step cfg) r ops).Refines (s.step cfg xml t) ∧
      (s.step cfg xml t).rx.bytes = (feed rxPass s.rx.bytes t.read?.toList).2 ∧
      TurnTakes xml (feed rxPass s.rx.bytes t.read?.toList).1 ops s (s.step cfg xml t) t.received := by
  have hstill : drain rxPass (s.rx.bytes ++ []) = ([], s.rx.bytes) := by
    rw [List.append_nil]
    exact Drain.drain_none rxPass hs
  cases t with
  | parse fd now bytes =>
    obtain ⟨htakes, hbytes⟩ := processRxBufferLocked_takes ⟨cfg, xml, fd⟩ now s.entered bytes
    have hparse : parseLocked ⟨cfg, xml, fd⟩ now bytes s.entered =
        processRxBufferLocked ⟨cfg, xml, fd⟩ now (s.entered.append bytes) :=
      (parseLocked_eq _ now bytes _).trans (if_neg hquiet)
    rw [← hparse] at htakes hbytes
    obtain ⟨hrefines, hturn⟩ := left_refines h htakes
    refine ⟨_, hrefines, hbytes, ?_⟩
    rw [ClientTurn.read?, Option.toList_some, feed, feed, List.append_nil]
    exact hturn
  | check fd t =>
    have hsame : s.entered.append [] = s.entered := by simp [Callback.append]
    obtain ⟨htakes, hbytes⟩ := processRxBufferLocked_takes ⟨cfg, xml, fd⟩ t.parsedAt s.entered []
    obtain ⟨hsize, htime, hlate⟩ : _ ∧ _ ∧ _ := by simpa only [ClientTurn.GuardFires, not_or] using hquiet
    rw [hsame, ← checkLocked_unguarded ⟨cfg, xml, fd⟩ hsize htime hlate] at htakes hbytes
    rw [entered, hstill] at htakes hbytes
    obtain ⟨hrefines, hturn⟩ := left_refines h htakes
    exact ⟨_, hrefines, hbytes, hturn⟩
  | idle fd now =>
    have hidle : idleLocked ⟨cfg, xml, fd⟩ now s.entered = s.entered := if_neg hquiet
    have htakes : Takes ⟨cfg, xml, fd⟩ s.entered (idleLocked ⟨cfg, xml, fd⟩ now s.entered) [] [] := by
      rw [hidle]
      exact takes_refl _ hs
    obtain ⟨hrefines, hturn⟩ := left_refines h htakes
    refine ⟨_, hrefines, ?_, hturn⟩
    rw [step, hidle]
    rfl
  | pop flags timeoutMs =>
    obtain ⟨hrefines, hrx⟩ := pop_refines cfg xml h flags timeoutMs
    exact ⟨_, hrefines, congrArg _ hrx, turnTakes_other hrx (by simp [QueueOp.Keeps]) rfl rfl⟩
  | peek maxItems => exact ⟨[], h, rfl, turnTakes_other rfl (by simp) rfl rfl⟩
  | clear | markDead | subscribed => exact hkeeps.elim

/-- **A run in which no guard fires** takes what its reads bring, one after another. -/
theorem ClientState.run_reads : ∀ (turns : List ClientTurn) {r : ClientRun} {s : ClientState}, r.Refines s →
    rxTurn s.rx.bytes = none → (∀ t ∈ turns, t.Keeps) →
    Along (ClientState.step cfg xml) (fun s t => ¬ t.GuardFires cfg xml s) s turns → ∃ ops,
      (run (QueueOp.step cfg) r ops).Refines (run (ClientState.step cfg xml) s turns) ∧
      (run (ClientState.step cfg xml) s turns).rx.bytes =
        (feed rxPass s.rx.bytes (turns.filterMap ClientTurn.read?)).2 ∧
      TurnTakes xml (feed rxPass s.rx.bytes (turns.filterMap ClientTurn.read?)).1 ops s
        (run (ClientState.step cfg xml) s turns) (turns.flatMap ClientTurn.received)
  | [], _, _, h, _, _, _ => ⟨[], h, rfl, turnTakes_other rfl (by simp) rfl rfl⟩
  | t :: turns, r, s, h, hs, hkeeps, hquiet => by
    obtain ⟨hturn, hturns⟩ := List.forall_mem_cons.1 hkeeps
    obtain ⟨hfirst, hrest⟩ := Run.along_cons.1 hquiet
    obtain ⟨ops, hr, hbytes, htakes⟩ := step_reads h hs hturn hfirst
    have hs' : rxTurn (s.step cfg xml t).rx.bytes = none := by
      rw [hbytes]
      exact Drain.feed_stable rxPass hs _
    obtain ⟨ops', hr', hbytes', htakes'⟩ := run_reads turns hr hs' hturns hrest
    have hreads : (t :: turns).filterMap ClientTurn.read? = t.read?.toList ++ turns.filterMap ClientTurn.read? := by
      rw [List.filterMap_cons]
      cases t.read? <;> rfl
    rw [hbytes] at hbytes' htakes'
    rw [hreads, Drain.feed_append, List.flatMap_cons]
    exact ⟨ops ++ ops', by rwa [Run.run_append], hbytes', htakes.trans htakes'⟩

/-! ## Turns whose guards fire -/

/-- A partial that is finalized is reported. -/
theorem finalizeIncompleteLocked_reports (env : CallbackEnv) (reason : String) {c : Callback} (hc : c.rx.bytes ≠ []) :
    segmentReports (finalizeIncompleteLocked env reason c).sink.eventsToEmit ≠ [] := by
  unfold finalizeIncompleteLocked
  rw [if_neg hc]
  simp only
  rw [(enqueueOrDropLocked_from ..).2]
  simp [addDiagnosticEventLocked, segmentReports, NotificationHealthEvent.ReportsSegment,
    makeNotificationHealthEventLocked]

theorem bytes_ne_nil_of_size {rx : RxBuffer} (h : partialSizeLimitReachedLocked cfg rx = true) : rx.bytes ≠ [] := by
  intro hnil
  simp [partialSizeLimitReachedLocked, hnil] at h

theorem bytes_ne_nil_of_time {rx : RxBuffer} {now : Nat} (h : partialTimeoutReachedLocked cfg now rx = true) :
    rx.bytes ≠ [] := by
  intro hnil
  simp [partialTimeoutReachedLocked, hnil] at h

/-- The section at the top of the loop, when a guard fires: the partial is finalized, and that once. -/
theorem checkLocked_guarded (env : CallbackEnv) {t : CallbackTurn} {c : Callback}
    (hfires : partialSizeLimitReachedLocked env.cfg (processRxBufferLocked env t.parsedAt c).rx = true ∨
      partialTimeoutReachedLocked env.cfg t.checkedAt (processRxBufferLocked env t.parsedAt c).rx = true ∨
      ((processRxBufferLocked env t.parsedAt c).rx.bytes ≠ [] ∧ 0 < env.cfg.notifIncompleteTimeout ∧
        (processRxBufferLocked env t.parsedAt c).rx.partialStartedAt + seconds env.cfg.notifIncompleteTimeout ≤
          t.now)) :
    (processRxBufferLocked env t.parsedAt c).rx.bytes ≠ [] ∧ ∃ g : IncompleteGuard,
      (checkLocked env t c).1 = finalizeIncompleteLocked env g.message (processRxBufferLocked env t.parsedAt c) := by
  generalize hp : processRxBufferLocked env t.parsedAt c = p at hfires ⊢
  have hempty : ∀ reason, (finalizeIncompleteLocked env reason p).rx.bytes = [] :=
    fun reason => (finalizeIncompleteLocked_rx env reason p).1
  unfold checkLocked guardsLocked
  rw [hp]
  by_cases hsize : partialSizeLimitReachedLocked env.cfg p.rx = true
  · rw [if_pos hsize]
    simp only [hempty, ne_eq, not_true_eq_false, false_and, if_false]
    exact ⟨bytes_ne_nil_of_size hsize, .size, rfl⟩
  by_cases htime : partialTimeoutReachedLocked env.cfg t.checkedAt p.rx = true
  · rw [if_neg hsize, if_pos htime]
    simp only [hempty, ne_eq, not_true_eq_false, false_and, if_false]
    exact ⟨bytes_ne_nil_of_time htime, .timeout, rfl⟩
  · obtain ⟨hbytes, hlimit, hlate⟩ := (hfires.resolve_left hsize).resolve_left htime
    rw [if_neg hsize, if_neg htime]
    simp only
    rw [if_pos ⟨hbytes, hlimit⟩, if_pos hlate]
    exact ⟨hbytes, .timeout, rfl⟩

/-- **A guard that fires reports.** -/
theorem ClientState.step_fires {s : ClientState} {t : ClientTurn} (h : t.GuardFires cfg xml s) :
    ∃ events, (s.step cfg xml t).made = s.made ++ events ∧ segmentReports events ≠ [] := by
  cases t with
  | parse fd now bytes =>
    have hparse := (parseLocked_eq ⟨cfg, xml, fd⟩ now bytes s.entered).trans (if_pos h)
    refine ⟨_, rfl, ?_⟩
    rw [hparse]
    exact finalizeIncompleteLocked_reports _ _ (bytes_ne_nil_of_size h)
  | check fd t =>
    obtain ⟨hbytes, g, hcheck⟩ := checkLocked_guarded ⟨cfg, xml, fd⟩ h
    refine ⟨_, rfl, ?_⟩
    rw [hcheck]
    exact finalizeIncompleteLocked_reports _ _ hbytes
  | idle fd now =>
    refine ⟨_, rfl, ?_⟩
    have hbytes : s.entered.rx.bytes ≠ [] := bytes_ne_nil_of_time h
    have hidle : idleLocked ⟨cfg, xml, fd⟩ now s.entered = finalizeIncompleteLocked _ timeoutGuardMessage s.entered :=
      if_pos h
    rw [hidle]
    exact finalizeIncompleteLocked_reports _ _ hbytes
  | pop | peek | clear | markDead | subscribed => exact h.elim

theorem ClientState.step_made (cfg : ClientConfig) (xml : XmlParser) (s : ClientState) (t : ClientTurn) :
    ∃ events, (s.step cfg xml t).made = s.made ++ events := by
  cases t with
  | parse | check | idle => exact ⟨_, rfl⟩
  | pop flags timeoutMs =>
    rw [step]
    split
    · exact ⟨[], (List.append_nil _).symm⟩
    · exact ⟨_, rfl⟩
  | peek | clear | markDead | subscribed => exact ⟨[], (List.append_nil _).symm⟩

theorem ClientState.run_made (cfg : ClientConfig) (xml : XmlParser) : ∀ (turns : List ClientTurn) (s : ClientState),
    ∃ events, (run (ClientState.step cfg xml) s turns).made = s.made ++ events
  | [], s => ⟨[], (List.append_nil _).symm⟩
  | t :: turns, s => by
    obtain ⟨events, hstep⟩ := s.step_made cfg xml t
    obtain ⟨events', hrun⟩ := run_made cfg xml turns (s.step cfg xml t)
    exact ⟨events ++ events', by rw [Run.run_cons, hrun, hstep, List.append_assoc]⟩

/-- **Where nothing is reported no guard fires.** -/
theorem ClientState.quiet_of_silent {s : ClientState} {turns : List ClientTurn}
    (h : segmentReports (run (ClientState.step cfg xml) s turns).made = segmentReports s.made) :
    Along (ClientState.step cfg xml) (fun s t => ¬ t.GuardFires cfg xml s) s turns := by
  rintro pre t post rfl hfires
  obtain ⟨before, hbefore⟩ := ClientState.run_made cfg xml pre s
  obtain ⟨events, hstep, hreports⟩ := ClientState.step_fires hfires
  obtain ⟨after, hafter⟩ := ClientState.run_made cfg xml post
    ((run (ClientState.step cfg xml) s pre).step cfg xml t)
  rw [Run.run_append, Run.run_cons, hafter, hstep, hbefore] at h
  simp only [segmentReports_append, List.append_assoc, List.append_right_eq_self, List.append_eq_nil_iff] at h
  exact hreports h.2.1

/-! ## Notifications, cut anywhere -/

/-- The frames that have arrived are the first of the payloads. -/
theorem frames_of_stream {ps : List Bytes} (hps : ∀ p ∈ ps, find eom (p ++ eom) = some p.length) {w x : Bytes}
    (hw : w ++ x = ps.flatMap (· ++ eom)) : (splitOn eom w).1 = ps.take (splitOn eom w).1.length := by
  have hwhole := Search.splitOn_flatMap eom_ne_nil ps [] hps
  rw [List.append_nil, ← hw, Search.splitOn_append eom_ne_nil, Search.splitOn_of_none (l := []) rfl,
    List.append_nil] at hwhole
  have hfs := (Prod.mk.inj hwhole).1
  conv => rhs; rw [← hfs]
  rw [List.take_left]

/-- The cuts are harmless exactly when every buffer is quiet that the parser looks at, whatever is still to come. -/
theorem cutsHarmless_iff {ps chunks : List Bytes} (hps : ∀ p ∈ ps, Payload xml p) {x : Bytes}
    (hw : chunks.flatten ++ x = ps.flatMap (· ++ eom)) :
    CutsHarmless ps chunks ↔ ∀ pre r post, chunks = pre ++ r :: post → Quiet (bufferAt pre r) := by
  unfold CutsHarmless
  refine forall_congr' fun pre => forall_congr' fun r => forall_congr' fun post => forall_congr' fun h => ?_
  refine (quiet_iff hps (x := post.flatten ++ x) ?_).symm
  rw [← hw, h, List.flatten_append, List.flatten_cons, List.append_assoc, List.append_assoc]

/-- **What the parser takes of payloads is reported nowhere exactly when the cuts are harmless.** -/
theorem feed_silent_iff {ps chunks : List Bytes} (hps : ∀ p ∈ ps, Payload xml p) {x : Bytes}
    (hw : chunks.flatten ++ x = ps.flatMap (· ++ eom)) :
    (feed rxPass [] chunks).1.filterMap (Segment.report xml) = [] ↔ CutsHarmless ps chunks := by
  rw [cutsHarmless_iff hps hw, ← feed_frames_iff, List.filterMap_eq_nil_iff]
  constructor
  · intro h seg hseg
    obtain ⟨f, rfl, -⟩ := (report_eq_none_iff xml seg).1 (h seg hseg)
    rfl
  · intro h seg hseg
    rw [feed_of_quiet chunks ((feed_frames_iff chunks).1 h),
      frames_of_stream (fun p hp => (hps p hp).closed) hw] at hseg
    obtain ⟨p, hp, rfl⟩ := List.mem_map.1 hseg
    have hvalid := (hps p (List.mem_of_mem_take hp)).valid
    exact (report_eq_none_iff xml (.frame p)).2 ⟨p, rfl, not_blank_of_valid hvalid, hvalid⟩

/-- From an empty buffer on: where no guard fires, the run adds up, in what the parser takes of the reads. -/
theorem ClientState.reads_accounts {s : ClientState} {ops : List QueueOp} (hr : (runQueue cfg ops).Refines s)
    (hb : s.rx.bytes = []) {turns : List ClientTurn} (hkeeps : ∀ t ∈ turns, t.Keeps)
    (hquiet : Along (ClientState.step cfg xml) (fun s t => ¬ t.GuardFires cfg xml s) s turns) :
    (run (ClientState.step cfg xml) s turns).rx.bytes = (feed rxPass [] (turns.filterMap ClientTurn.read?)).2 ∧
    ∃ taken, Accounts xml s (run (ClientState.step cfg xml) s turns) (turns.flatMap ClientTurn.received)
      (feed rxPass [] (turns.filterMap ClientTurn.read?)).1 taken := by
  have hs : rxTurn s.rx.bytes = none := by rw [hb, rxTurn_nil]
  obtain ⟨ops', hr', hbytes, htakes⟩ := run_reads turns hr hs hkeeps hquiet
  rw [runQueue, ← Run.run_append] at hr'
  rw [hb] at hbytes htakes
  exact ⟨hbytes, htakes.accounts hr hr'⟩

/-- **Nothing is reported exactly when no guard fires and every cut is harmless**, on a stream of payloads. -/
theorem ClientState.silent_iff {s : ClientState} {ops : List QueueOp} (hr : (runQueue cfg ops).Refines s)
    (hb : s.rx.bytes = []) {turns : List ClientTurn} (hkeeps : ∀ t ∈ turns, t.Keeps) {ps : List Bytes}
    (hps : ∀ p ∈ ps, Payload xml p) {x : Bytes}
    (hw : (turns.filterMap ClientTurn.read?).flatten ++ x = ps.flatMap (· ++ eom)) :
    segmentReports (run (ClientState.step cfg xml) s turns).made = segmentReports s.made ↔
      Along (ClientState.step cfg xml) (fun s t => ¬ t.GuardFires cfg xml s) s turns ∧
        CutsHarmless ps (turns.filterMap ClientTurn.read?) := by
  constructor
  · intro h
    have hquiet := quiet_of_silent h
    obtain ⟨-, taken, haccounts⟩ := reads_accounts hr hb hkeeps hquiet
    have hreports := haccounts.reports
    rw [h, List.self_eq_append_right] at hreports
    exact ⟨hquiet, (feed_silent_iff hps hw).1 hreports⟩
  · rintro ⟨hquiet, hcuts⟩
    obtain ⟨-, taken, haccounts⟩ := reads_accounts hr hb hkeeps hquiet
    rw [haccounts.reports, (feed_silent_iff hps hw).2 hcuts, List.append_nil]

/-! ## The whole way -/

/-- What the callbacks read after a subscription is what follows the reply, if a read ends with the reply's marker. -/
theorem handedReads_flatten {call : SubscribeCall} {c : Subscriber} {reply rest r : Bytes}
    (hok : NoFailedRead call.script.tape) (hstream : (pieces call.script.tape).flatten = reply ++ eom ++ rest)
    (hends : EndsAtMarker (pieces call.script.tape) reply)
    (hreturn : (subscribeNonBlocking cfg xml call c).outcome = some (.ok r)) :
    r = reply ++ eom ∧ (call.handedReads (subscribeNonBlocking cfg xml call c)).flatten = rest := by
  obtain ⟨hhandles, hout, hunread, -⟩ := subscribeNonBlocking_returned hreturn
  obtain ⟨hpieces, hsuffix⟩ := sendRpcNonBlockingFunc_pieces xml call.handles
    (createSubscriptionRpc call.stream call.filter) cfg.readTimeout call.script
  have hcases := sendRpcNonBlockingFunc_cases xml call.handles
    (createSubscriptionRpc call.stream call.filter) cfg.readTimeout_pos call.script
  rw [SubscribeCall.handedReads, hunread]
  generalize sendRpcNonBlockingFunc xml call.handles _ cfg.readTimeout call.script = e at hout hpieces hsuffix hcases
  obtain ⟨-, hmark, ⟨front, last, hreads, hfront⟩, -, hreply⟩ := hcases.resolve_left (fun hno => hno.2 r hout)
  have htaken : e.reads.flatten = reply ++ eom := by
    rw [hreads] at hpieces hmark ⊢
    exact (taken_eq_iff hpieces hstream hfront hmark).2 hends
  refine ⟨(hreply r hout).trans htaken, ?_⟩
  rw [handedBytes_eq hhandles _ e.unread (Nat.le_refl _) (fun t ht => hok t (hsuffix.subset ht))]
  rw [← hpieces, List.flatten_append, htaken] at hstream
  exact List.append_cancel_left hstream

/-- A subscription that returns does to the client what the turn does. -/
theorem subscribeNonBlocking_client {s : ClientState} {call : SubscribeCall} {r : Bytes}
    (h : (subscribeNonBlocking cfg xml call s.subscriber).outcome = some (.ok r)) :
    (subscribeNonBlocking cfg xml call s.subscriber).client.queue = (s.step cfg xml .subscribed).queue ∧
      (subscribeNonBlocking cfg xml call s.subscriber).client.rx = (s.step cfg xml .subscribed).rx := by
  obtain ⟨⟨hchannel, hsession⟩, hout, -, -⟩ := subscribeNonBlocking_returned h
  unfold subscribeNonBlocking at h ⊢
  rcases hc : call.connected with what | status
  · rw [hc] at h
    cases h
  simp only [hc, hout] at h ⊢
  by_cases hstatus : ¬ status
  · rw [if_pos hstatus] at h
    cases h
  by_cases hsocket : call.handles.socket < 0
  · rw [if_neg hstatus, if_neg (not_not.2 hchannel), if_neg (not_not.2 hsession), if_pos hsocket] at h
    cases h
  rw [if_neg hstatus, if_neg (not_not.2 hchannel), if_neg (not_not.2 hsession), if_neg hsocket] at h ⊢
  cases hreg : call.registered with
  | error what =>
    rw [hreg] at h
    cases h
  | ok u => exact ⟨rfl, rfl⟩

/-- **From the device's stream to the consumers.**  A subscription whose reply ends a read, on a client to which anything
has happened; then any sections of the callbacks, which read what follows, and of other threads, without a clearing.  On
a stream of notifications no segment is reported exactly when no guard fires and every cut is harmless; and then the
consumers get the notifications that have arrived, with their markers and in order, but for those counted as dropped. -/
theorem subscription_delivers_iff (cfg : ClientConfig) (xml : XmlParser) (call : SubscribeCall)
    (pre turns : List ClientTurn) (reply r : Bytes) (ps : List Bytes) (hps : ∀ p ∈ ps, Payload xml p)
    (hok : NoFailedRead call.script.tape)
    (hstream : (pieces call.script.tape).flatten = reply ++ eom ++ ps.flatMap (· ++ eom))
    (hends : EndsAtMarker (pieces call.script.tape) reply)
    (hreturn : (subscribeNonBlocking cfg xml call (runClient cfg xml pre).subscriber).outcome = some (.ok r))
    (hkeeps : ∀ t ∈ turns, t.Keeps)
    (hreads : turns.filterMap ClientTurn.read? <+:
      call.handedReads (subscribeNonBlocking cfg xml call (runClient cfg xml pre).subscriber)) :
    let e := subscribeNonBlocking cfg xml call (runClient cfg xml pre).subscriber
    let s := runClient cfg xml (pre ++ [.subscribed])
    let s' := runClient cfg xml (pre ++ [.subscribed] ++ turns)
    let reads := turns.filterMap ClientTurn.read?
    let arrived := ps.take (splitOn eom reads.flatten).1.length
    (r = reply ++ eom ∧ e.client.queue = s.queue ∧ e.client.rx = s.rx) ∧
    (segmentReports s'.made = segmentReports s.made ↔
      Along (ClientState.step cfg xml) (fun s t => ¬ t.GuardFires cfg xml s) s turns ∧ CutsHarmless ps reads) ∧
    (segmentReports s'.made = segmentReports s.made → s'.rx.bytes = (splitOn eom reads.flatten).2 ∧
      ∃ taken : List Bytes, taken.Sublist (arrived.map (· ++ eom)) ∧
        s'.delivered ++ s'.queue.items = s.delivered ++ s.queue.items ++ taken ∧
        s'.queue.droppedQueueFullCount + taken.length = s.queue.droppedQueueFullCount + arrived.length) := by
  intro e s s' reads arrived
  obtain ⟨hreply, hflat⟩ := handedReads_flatten hok hstream hends hreturn
  obtain ⟨later, hlater⟩ := hreads
  have hw : reads.flatten ++ later.flatten = ps.flatMap (· ++ eom) := by
    rw [← List.flatten_append, hlater, hflat]
  obtain ⟨ops, -, hr, -, -⟩ := run_refines cfg xml (pre ++ [.subscribed]) ClientRun.refines_start rxTurn_nil
  have hs : s = (runClient cfg xml pre).step cfg xml .subscribed := runClient_concat pre .subscribed
  have hclient : e.client.queue = s.queue ∧ e.client.rx = s.rx := by
    rw [hs]
    exact subscribeNonBlocking_client hreturn
  have hb : s.rx.bytes = [] := congrArg (fun s => s.rx.bytes) hs
  have hrun : s' = run (ClientState.step cfg xml) s turns := Run.run_append (pre ++ [ClientTurn.subscribed]) turns
  have hsilent := ClientState.silent_iff hr hb hkeeps hps hw
  rw [hrun]
  refine ⟨⟨hreply, hclient⟩, hsilent, fun h => ?_⟩
  obtain ⟨hquiet, hcuts⟩ := hsilent.1 h
  obtain ⟨hbytes, taken, haccounts⟩ := ClientState.reads_accounts hr hb hkeeps hquiet
  -- what the parser takes is what has arrived, each with its marker
  have hfeed := feed_of_quiet reads ((cutsHarmless_iff hps hw).1 hcuts)
  rw [frames_of_stream (fun p hp => (hps p hp).closed) hw] at hfeed
  have hoffers : ((feed rxPass [] reads).1).filterMap Segment.offer = arrived.map (· ++ eom) := by
    rw [hfeed, List.filterMap_map, ← List.filterMap_eq_map]
    refine List.filterMap_congr fun p hp => ?_
    simp only [Function.comp_apply, Segment.offer, if_neg (not_blank_of_valid (hps p (List.mem_of_mem_take hp)).valid)]
  have hdropped := haccounts.dropped
  have hsublist := haccounts.sublist
  rw [hoffers] at hdropped hsublist
  rw [List.length_map] at hdropped
  exact ⟨hbytes.trans (congrArg Prod.snd hfeed), taken, hsublist, haccounts.given, hdropped⟩

/-- A subscription whose notification comes in two reads, cut inside the name of its inner element. -/
def subscribesAndReads : SubscribeCall where
  handles := { socket := 4 }
  stream := ascii "NETCONF"
  script :=
    { writes := [.accepted 1000]
      tape := [{ read := .bytes (ascii "<ok/>]]>") }, { read := .bytes (ascii "]]>") },
        { read := .bytes (ascii "<notification><noti") }, { read := .eagain },
        { read := .bytes (ascii "ficationId/></notification>]]>]]>") }] }

/-- A consumer comes too early, and comes again. -/
def readsAndPops : List ClientTurn := [
  .parse 4 0 (ascii "<notification><noti"), .pop ⟨true, true, true⟩ 0,
  .parse 4 1 (ascii "ficationId/></notification>]]>]]>"), .pop ⟨true, true, true⟩ 0]

theorem readsAndPops_delivered :
    let s := runClient idEnv.cfg idEnv.xml [.parse 3 0 (ascii "<hello/>"), .subscribed]
    let s' := runClient idEnv.cfg idEnv.xml ([.parse 3 0 (ascii "<hello/>"), .subscribed] ++ readsAndPops)
    CutsHarmless [idPayload] (readsAndPops.filterMap ClientTurn.read?) ∧ s'.rx.bytes = [] ∧
      ∃ taken : List Bytes, taken.Sublist [idPayload ++ eom] ∧
        s'.delivered ++ s'.queue.items = s.delivered ++ s.queue.items ++ taken ∧
        s'.queue.droppedQueueFullCount + taken.length = s.queue.droppedQueueFullCount + 1 := by
  have hok : NoFailedRead subscribesAndReads.script.tape := by
    intro t ht e he
    simp only [subscribesAndReads, List.mem_cons, List.not_mem_nil, or_false] at ht
    rcases ht with rfl | rfl | rfl | rfl | rfl <;> cases he
  have hends : EndsAtMarker (pieces subscribesAndReads.script.tape) (ascii "<ok/>") := by
    have hchunks : [ascii "<ok/>]]>"] ++ [ascii "]]>"] ++ [ascii "<notification><noti",
        ascii "ficationId/></notification>]]>]]>"] = pieces subscribesAndReads.script.tape := by decide +kernel
    have hflat : (pieces subscribesAndReads.script.tape).flatten = ascii "<ok/>" ++ eom ++ (idPayload ++ eom) := by
      decide +kernel
    exact (taken_eq_iff hchunks hflat (by decide +kernel) (by decide +kernel)).1 (by decide +kernel)
  obtain ⟨-, hsilent, htakes⟩ := subscription_delivers_iff idEnv.cfg idEnv.xml subscribesAndReads
    [.parse 3 0 (ascii "<hello/>")] readsAndPops (ascii "<ok/>") (ascii "<ok/>]]>]]>") [idPayload]
    (fun p hp => by rw [List.mem_singleton.1 hp]; exact idPayload_payload) hok (by decide +kernel) hends
    (by decide +kernel) (by simp [readsAndPops, ClientTurn.Keeps]) (by decide +kernel)
  have hreports : segmentReports (runClient idEnv.cfg idEnv.xml
      ([.parse 3 0 (ascii "<hello/>")] ++ [.subscribed] ++ readsAndPops)).made = segmentReports (runClient idEnv.cfg
        idEnv.xml ([.parse 3 0 (ascii "<hello/>")] ++ [.subscribed])).made := by decide +kernel
  have harrived : [idPayload].take (splitOn eom (readsAndPops.filterMap ClientTurn.read?).flatten).1.length =
      [idPayload] := by decide +kernel
  obtain ⟨hbytes, taken, hsublist, hgiven, hdropped⟩ := htakes hreports
  rw [harrived] at hsublist hdropped
  exact ⟨(hsilent.1 hreports).2, hbytes.trans (by decide +kernel), taken, hsublist, hgiven, hdropped⟩

end PyNetX
