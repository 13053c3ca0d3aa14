import PyNetX.CallbackRun
import PyNetX.DropReports
import PyNetX.Recovery
/-!
# Delivery — from the received bytes to the consumers, in every interleaving

The sections of `on_notification_ready` and those of all other threads, one after another in any order.  What the parser
does to the queue is a run of the queue's operations (`runClient_refines`), so that what is known of those runs is known
of the client; and the bytes, the segments, the queue and what the consumers were given add up (`client_run_exact`).
-/
namespace PyNetX

open Run (run)
open Search (find splitOn)

/-- A section under `_notif_queue_mtx`: those of `on_notification_ready` that parse what was read, look at the top of
the loop and follow a poll without data; and those of other threads. -/
inductive ClientTurn where
  | parse (fd : Int) (now : Nat) (bytes : Bytes)
  | check (fd : Int) (turn : CallbackTurn)
  | idle (fd : Int) (now : Nat)
  | pop (flags : SubscriptionFlags) (timeoutMs : Int)
  | peek (maxItems : Int)
  | clear
  | markDead
  | subscribed

/-- The members, the events made, in that order, and what `next_notification` has returned since the queue was last
cleared. -/
structure ClientState where
  rx : RxBuffer := {}
  queue : NotifQueue := {}
  made : List NotificationHealthEvent := []
  delivered : List Bytes := []

namespace ClientState

/-- What a section of the callback finds: its locals are empty, as the flush behind the section before left them. -/
def entered (s : ClientState) : Callback where
  rx := s.rx
  sink := { queue := s.queue }

def left (s : ClientState) (c : Callback) : ClientState :=
  { s with rx := c.rx, queue := c.sink.queue, made := s.made ++ c.sink.eventsToEmit }

def step (cfg : ClientConfig) (xml : XmlParser) (s : ClientState) : ClientTurn → ClientState
  | .parse fd now bytes => s.left (parseLocked ⟨cfg, xml, fd⟩ now bytes s.entered)
  | .check fd turn => s.left (checkLocked ⟨cfg, xml, fd⟩ turn s.entered).1
  | .idle fd now => s.left (idleLocked ⟨cfg, xml, fd⟩ now s.entered)
  | .pop flags timeoutMs =>
    match nextNotification cfg flags timeoutMs s.queue with
    | .error _ => s
    | .ok (text, q, event) =>
      { s with
        queue := q
        made := s.made ++ event.toList
        delivered := if text = [] then s.delivered else s.delivered ++ [text] }
  | .peek _ => s
  | .clear =>
    let (q, rx) := clearNotificationQueue s.queue s.rx
    { s with queue := q, rx := rx, delivered := [] }
  | .markDead =>
    let (q, rx) := markNotificationDead s.queue s.rx
    { s with queue := q, rx := rx, delivered := [] }
  | .subscribed => { s with rx := { s.rx with bytes := [], partialTimerActive := false } }

end ClientState

/-- A run from a client just constructed. -/
def runClient (cfg : ClientConfig) (xml : XmlParser) (turns : List ClientTurn) : ClientState :=
  run (ClientState.step cfg xml) {} turns

def ClientTurn.received : ClientTurn → Bytes
  | .parse _ _ bytes => bytes
  | _ => []

/-- The turn empties neither the receive buffer nor the queue under other hands. -/
def ClientTurn.Keeps : ClientTurn → Prop
  | .clear | .markDead | .subscribed => False
  | _ => True

variable {cfg : ClientConfig} {xml : XmlParser} {env : CallbackEnv}

/-! ## A section of the callback is a sequence of segments -/

/-- Segments lead from one state of the callback to the other, with these bytes appended. -/
structure Takes (env : CallbackEnv) (c c' : Callback) (appended : Bytes) (segs : List Segment) : Prop where
  wellFormed : ∀ seg ∈ segs, seg.WellFormed
  bytes : c.rx.bytes ++ appended = segs.flatMap Segment.span ++ c'.rx.bytes
  sink : c'.sink = segs.foldl (Segment.effect env) c.sink
  stable : rxTurn c'.rx.bytes = none

theorem takes_refl (env : CallbackEnv) {c : Callback} (hc : rxTurn c.rx.bytes = none) : Takes env c c [] [] where
  wellFormed _ h := absurd h List.not_mem_nil
  bytes := List.append_nil _
  sink := rfl
  stable := hc

theorem Takes.trans {c c' c'' : Callback} {b b' : Bytes} {segs segs' : List Segment} (h : Takes env c c' b segs)
    (h' : Takes env c' c'' b' segs') : Takes env c c'' (b ++ b') (segs ++ segs') where
  wellFormed := List.forall_mem_append.2 ⟨h.wellFormed, h'.wellFormed⟩
  bytes := by
    rw [← List.append_assoc, h.bytes, List.append_assoc, h'.bytes, List.flatMap_append, List.append_assoc]
  sink := by rw [h'.sink, h.sink, List.foldl_append]
  stable := h'.stable

/-- Without a change under other hands, what a run does to the sink is what its segments do. -/
theorem acts_eq_segments : ∀ {acts : List SinkAct}, acts.filterMap SinkAct.between? = [] →
    acts = (segmentsOf acts).map .segment
  | [], _ => rfl
  | .segment seg :: acts, h => by
    have ih : acts = (segmentsOf acts).map .segment := acts_eq_segments h
    rw [segmentsOf, List.filterMap_cons, SinkAct.segment?]
    exact congrArg _ ih
  | .between f :: acts, h => by
    rw [List.filterMap_cons] at h
    cases h

theorem takes_step (env : CallbackEnv) {c : Callback} (hc : rxTurn c.rx.bytes = none) (op : RxOp)
    (hop : op.between? = none) :
    ∃ segs, Takes env c (op.step env c) op.received segs := by
  obtain ⟨hstable, acts, hwf, hbytes, hbetween, hsink⟩ := RxOp.step_accounted env c hc op
  rw [hop] at hbetween
  refine ⟨segmentsOf acts, hwf, hbytes, ?_, hstable⟩
  rw [hsink]
  conv => lhs; rw [acts_eq_segments hbetween]
  exact foldl_apply_segments env _ _

theorem takes_guard {c c' : Callback} {b : Bytes} {segs : List Segment} (h : Takes env c c' b segs)
    (g : IncompleteGuard) : ∃ segs', Takes env c (finalizeIncompleteLocked env g.message c') b segs' := by
  obtain ⟨segs', hguard⟩ := takes_step env h.stable (.guard g) rfl
  have htrans := h.trans hguard
  rw [show (RxOp.guard g).received = [] from rfl, List.append_nil] at htrans
  exact ⟨_, htrans⟩

theorem parseLocked_eq (env : CallbackEnv) (now : Nat) (bytes : Bytes) (c : Callback) : parseLocked env now bytes c =
    if partialSizeLimitReachedLocked env.cfg (processRxBufferLocked env now (c.append bytes)).rx then
      finalizeIncompleteLocked env sizeGuardMessage (processRxBufferLocked env now (c.append bytes))
    else processRxBufferLocked env now (c.append bytes) := by
  have happend : (if bytes ≠ [] then c.append bytes else c) = c.append bytes := by
    by_cases hb : bytes = []
    · simp [hb, Callback.append]
    · simp [hb]
  unfold parseLocked
  rw [happend]

theorem parseLocked_takes (env : CallbackEnv) {c : Callback} (hc : rxTurn c.rx.bytes = none) (now : Nat) (bytes : Bytes) :
    ∃ segs, Takes env c (parseLocked env now bytes c) bytes segs := by
  obtain ⟨segs, hread⟩ := takes_step env hc (.read bytes now) rfl
  rw [RxOp.step, RxOp.received] at hread
  rw [parseLocked_eq]
  split
  · exact takes_guard hread .size
  · exact ⟨segs, hread⟩

theorem idleLocked_takes {c c' : Callback} {b : Bytes} {segs : List Segment} (h : Takes env c c' b segs) (now : Nat) :
    ∃ segs', Takes env c (idleLocked env now c') b segs' := by
  unfold idleLocked
  split
  · exact takes_guard h .timeout
  · exact ⟨segs, h⟩

theorem checkLocked_takes (env : CallbackEnv) {c : Callback} (hc : rxTurn c.rx.bytes = none) (t : CallbackTurn) :
    ∃ segs, Takes env c (checkLocked env t c).1 [] segs := by
  obtain ⟨segs, hread⟩ := takes_step env hc (.read [] t.parsedAt) rfl
  rw [RxOp.step, RxOp.received, Callback.append, List.append_nil] at hread
  have hguards : ∃ segs, Takes env c (guardsLocked env t.checkedAt (processRxBufferLocked env t.parsedAt c)) [] segs := by
    unfold guardsLocked
    split
    · exact takes_guard hread .size
    · exact idleLocked_takes hread t.checkedAt
  obtain ⟨segs', hguarded⟩ := hguards
  unfold checkLocked
  simp only
  split
  · split
    · exact takes_guard hguarded .timeout
    · exact ⟨segs', hguarded⟩
  · exact ⟨segs', hguarded⟩

/-! ## A segment is a run of the queue's operations -/

/-- What a segment asks of the queue: its event, and then its offer. -/
def Segment.queueOps (env : CallbackEnv) (seg : Segment) : List QueueOp :=
  ((seg.diagnosis env.xml).map fun d => QueueOp.diagnostic env.fd d.2.1 seg.bytes.length d.2.2).toList ++
  (seg.offer.map fun n =>
    QueueOp.offer env.fd n (if (seg.diagnosis env.xml).isSome then seg.bytes.length else 0)).toList

theorem Segment.diagnosis_incomplete {seg : Segment} {d : HealthEventType × String × Bool}
    (h : seg.diagnosis xml = some d) :
    d.1 = if d.2.2 then .incompleteNotification else .malformedNotification := by
  cases seg with
  | frame b =>
    unfold Segment.diagnosis at h
    simp only at h
    split at h
    · cases h; rfl
    · split at h
      · cases h
      · cases h; rfl
  | orphan b | recovered b | abandoned b | finalized g b => cases h; rfl

/-- An offer looks at the queue alone, and adds to the rest of the sink. -/
theorem enqueueOrDropLocked_from (cfg : ClientConfig) (fd : Int) (n : Bytes) (d : Int) (s : Sink) :
    (enqueueOrDropLocked cfg fd n d s).queue = (enqueueOrDropLocked cfg fd n d { queue := s.queue }).queue ∧
    (enqueueOrDropLocked cfg fd n d s).eventsToEmit =
      s.eventsToEmit ++ (enqueueOrDropLocked cfg fd n d { queue := s.queue }).eventsToEmit := by
  by_cases hn : n = []
  · subst hn
    exact ⟨rfl, (List.append_nil _).symm⟩
  by_cases hcap : AtCapacity cfg s.queue
  · by_cases hr : DropReported cfg s.queue
    · rw [enqueueOrDropLocked_reported hn hcap hr, enqueueOrDropLocked_reported hn (s := { queue := s.queue }) hcap hr]
      exact ⟨rfl, rfl⟩
    · rw [enqueueOrDropLocked_silent hn hcap hr, enqueueOrDropLocked_silent hn (s := { queue := s.queue }) hcap hr]
      exact ⟨rfl, (List.append_nil _).symm⟩
  · rw [enqueueOrDropLocked_room hn hcap, enqueueOrDropLocked_room hn (s := { queue := s.queue }) hcap]
    exact ⟨rfl, (List.append_nil _).symm⟩

/-- The run has the sink's queue, its events are those made before and the sink's, and it has popped `popped`. -/
structure ClientRun.Shows (r : ClientRun) (made : List NotificationHealthEvent) (popped : List Bytes) (s : Sink) :
    Prop where
  queue : r.queue = s.queue
  events : r.events = made ++ s.eventsToEmit
  popped : r.popped = popped

variable {r : ClientRun} {made : List NotificationHealthEvent} {popped : List Bytes} {s : Sink}

theorem ClientRun.Shows.note (h : r.Shows made popped s) (env : CallbackEnv) (seg : Segment) :
    (run (QueueOp.step env.cfg) r ((seg.diagnosis env.xml).map fun d =>
      QueueOp.diagnostic env.fd d.2.1 seg.bytes.length d.2.2).toList).Shows made popped (seg.note env s) := by
  unfold Segment.note
  cases hd : seg.diagnosis env.xml with
  | none => exact h
  | some d =>
    obtain ⟨type, message, incomplete⟩ := d
    have htype : type = if incomplete then .incompleteNotification else .malformedNotification :=
      Segment.diagnosis_incomplete hd
    refine ⟨?_, ?_, h.popped⟩
    · simp [QueueOp.step, addDiagnosticEventLocked, h.queue]
    · simp [QueueOp.step, addDiagnosticEventLocked, h.queue, h.events, htype]

theorem ClientRun.Shows.offer (h : r.Shows made popped s) (fd : Int) (n : Bytes) (d : Int) :
    ((QueueOp.offer fd n d).step cfg r).Shows made popped (enqueueOrDropLocked cfg fd n d s) := by
  obtain ⟨hqueue, hevents⟩ := enqueueOrDropLocked_from cfg fd n d s
  refine ⟨?_, ?_, h.popped⟩
  · rw [hqueue, ← h.queue]
    rfl
  · rw [hevents, ← List.append_assoc, ← h.events, ← h.queue]
    rfl

/-- **What a segment does is what its operations do.** -/
theorem ClientRun.Shows.effect (h : r.Shows made popped s) (env : CallbackEnv) (seg : Segment) :
    (run (QueueOp.step env.cfg) r (seg.queueOps env)).Shows made popped (seg.effect env s) := by
  have hnote := h.note env seg
  unfold Segment.queueOps Segment.effect
  rw [Run.run_append]
  cases seg.offer with
  | none => exact hnote
  | some n => exact hnote.offer env.fd n _

theorem ClientRun.Shows.foldl_effect (env : CallbackEnv) : ∀ (segs : List Segment) {r : ClientRun} {s : Sink},
    r.Shows made popped s → (run (QueueOp.step env.cfg) r (segs.flatMap (Segment.queueOps env))).Shows made popped
      (segs.foldl (Segment.effect env) s)
  | [], _, _, h => h
  | seg :: segs, _, _, h => by
    rw [List.flatMap_cons, Run.run_append]
    exact ClientRun.Shows.foldl_effect env segs (h.effect env seg)

/-! ## Runs of the queue's operations -/

/-- What an operation offers to the queue. -/
def QueueOp.offered : QueueOp → Option Bytes
  | .offer _ n _ => if n = [] then none else some n
  | _ => none

/-- What an operation reports. -/
def QueueOp.reported : QueueOp → Option (HealthEventType × String × Int)
  | .diagnostic _ message bytes incomplete =>
    some (if incomplete then .incompleteNotification else .malformedNotification, message, bytes)
  | _ => none

def QueueOp.Keeps : QueueOp → Prop
  | .markDead | .clear => False
  | _ => True

/-- The events that report a segment. -/
def NotificationHealthEvent.ReportsSegment (e : NotificationHealthEvent) : Prop :=
  e.type = .malformedNotification ∨ e.type = .incompleteNotification

instance (e : NotificationHealthEvent) : Decidable e.ReportsSegment := inferInstanceAs (Decidable (_ ∨ _))

/-- What events say of segments, in short. -/
def segmentReports (events : List NotificationHealthEvent) : List (HealthEventType × String × Int) :=
  (events.filter (fun e => e.ReportsSegment)).map NotificationHealthEvent.summary

theorem segmentReports_append (es es' : List NotificationHealthEvent) :
    segmentReports (es ++ es') = segmentReports es ++ segmentReports es' := by
  rw [segmentReports, List.filter_append, List.map_append]
  rfl

/-- What a stretch of operations without a clearing adds: `taken` goes into the queue, the other offers are counted as
dropped, and the reports are told. -/
structure Stretch (offered : List Bytes) (reported : List (HealthEventType × String × Int)) (taken : List Bytes)
    (r r' : ClientRun) : Prop where
  accepted : r'.accepted = r.accepted ++ taken
  sublist : taken.Sublist offered
  enqueued : r'.queue.enqueuedCount = r.queue.enqueuedCount + taken.length
  dropped : r'.queue.droppedQueueFullCount + taken.length = r.queue.droppedQueueFullCount + offered.length
  reports : segmentReports r'.events = segmentReports r.events ++ reported

theorem Stretch.refl (r : ClientRun) : Stretch [] [] [] r r :=
  ⟨(List.append_nil _).symm, List.Sublist.refl _, rfl, rfl, (List.append_nil _).symm⟩

theorem Stretch.trans {o o' t t' : List Bytes} {p p' : List (HealthEventType × String × Int)} {r r' r'' : ClientRun}
    (h : Stretch o p t r r') (h' : Stretch o' p' t' r' r'') : Stretch (o ++ o') (p ++ p') (t ++ t') r r'' where
  accepted := by rw [h'.accepted, h.accepted, List.append_assoc]
  sublist := h.sublist.append h'.sublist
  enqueued := by rw [h'.enqueued, h.enqueued, List.length_append, Nat.add_assoc]
  dropped := by
    have hd := h.dropped
    have hd' := h'.dropped
    rw [List.length_append, List.length_append]
    omega
  reports := by rw [h'.reports, h.reports, List.append_assoc]

/-- A step that takes nothing, drops nothing and tells of no segment. -/
theorem Stretch.idle {c : ClientRun} (ha : c.accepted = r.accepted)
    (he : c.queue.enqueuedCount = r.queue.enqueuedCount)
    (hd : c.queue.droppedQueueFullCount = r.queue.droppedQueueFullCount)
    (hr : segmentReports c.events = segmentReports r.events) : Stretch [] [] [] r c :=
  ⟨by rw [ha, List.append_nil], List.Sublist.refl _, he, hd, by rw [hr, List.append_nil]⟩

theorem segmentReports_other {e : NotificationHealthEvent} {es : List NotificationHealthEvent}
    (he : e.type ≠ .malformedNotification ∧ e.type ≠ .incompleteNotification) :
    segmentReports (es ++ [e]) = segmentReports es := by
  have hnone : segmentReports [e] = [] := by
    rw [segmentReports, List.filter_cons_of_neg]
    · rfl
    · rw [decide_eq_true_eq]
      exact not_or.2 he
  rw [segmentReports_append, hnone, List.append_nil]

theorem diagnostic_stretch (fd : Int) (message : String) (bytes : Int) (incomplete : Bool) (r : ClientRun) :
    Stretch [] [(if incomplete then .incompleteNotification else .malformedNotification, message, bytes)] [] r
      ((QueueOp.diagnostic fd message bytes incomplete).step cfg r) where
  accepted := (List.append_nil _).symm
  sublist := List.Sublist.refl _
  enqueued := by cases incomplete <;> rfl
  dropped := by cases incomplete <;> rfl
  reports := by
    cases incomplete with
    | false => exact segmentReports_append r.events _
    | true => exact segmentReports_append r.events _

/-- A drop. -/
theorem dropped_stretch {n : Bytes} {c : ClientRun} (ha : c.accepted = r.accepted)
    (he : c.queue.enqueuedCount = r.queue.enqueuedCount)
    (hd : c.queue.droppedQueueFullCount = r.queue.droppedQueueFullCount + 1)
    (hr : segmentReports c.events = segmentReports r.events) : Stretch [n] [] [] r c :=
  ⟨by rw [ha, List.append_nil], List.nil_sublist _, he, hd, by rw [hr, List.append_nil]⟩

/-- **One operation.** -/
theorem QueueOp.step_stretch (cfg : ClientConfig) {op : QueueOp} (hop : op.Keeps) (r : ClientRun) :
    ∃ taken, Stretch op.offered.toList op.reported.toList taken r (op.step cfg r) := by
  have hs := op.step_outcome cfg r
  cases op with
  | offer fd n d =>
    generalize (QueueOp.offer fd n d).step cfg r = r' at hs ⊢
    cases hs with
    | none hq ha hp ho hd he hf =>
      have hn : n = [] := by
        by_contra hn
        exact offer_not_skip fd d hn hf
      rw [offered, if_pos hn]
      exact ⟨[], Stretch.idle ha (by rw [hq]) (by rw [hq]) (by rw [he])⟩
    | accepted hn hroom =>
      rw [offered, if_neg hn]
      refine ⟨[n], rfl, List.Sublist.refl _, rfl, rfl, ?_⟩
      rw [ClientRun.next_events, List.append_nil]
      exact (List.append_nil _).symm
    | reported hn hfull hr =>
      rw [offered, if_neg hn]
      refine ⟨[], dropped_stretch rfl rfl rfl (segmentReports_other ?_)⟩
      simp only [makeNotificationHealthEventLocked]
      split <;> decide
    | silent hn hfull hr =>
      rw [offered, if_neg hn]
      refine ⟨[], dropped_stretch rfl rfl rfl ?_⟩
      rw [ClientRun.next_events, List.append_nil]
  | diagnostic fd message bytes incomplete => exact ⟨[], diagnostic_stretch fd message bytes incomplete r⟩
  | pop flags timeoutMs =>
    change ∃ taken, Stretch [] [] taken r _
    generalize (QueueOp.pop flags timeoutMs).step cfg r = r' at hs ⊢
    cases hs with
    | none hq ha hp ho hd he => exact ⟨[], Stretch.idle ha (by rw [hq]) (by rw [hq]) (by rw [he])⟩
    | popped =>
      refine ⟨[], Stretch.idle rfl rfl rfl ?_⟩
      rw [ClientRun.next_events, List.append_nil]
    | recovered =>
      refine ⟨[], Stretch.idle rfl rfl rfl (segmentReports_other ?_)⟩
      simp only [makeNotificationHealthEventLocked]
      decide
  | peek => exact ⟨[], Stretch.refl r⟩
  | subscribed => exact ⟨[], Stretch.idle rfl rfl rfl rfl⟩
  | markDead | clear => cases hop

theorem run_stretch (cfg : ClientConfig) : ∀ {ops : List QueueOp}, (∀ op ∈ ops, op.Keeps) → ∀ r : ClientRun,
    ∃ taken, Stretch (ops.filterMap QueueOp.offered) (ops.filterMap QueueOp.reported) taken r
      (run (QueueOp.step cfg) r ops)
  | [], _, r => ⟨[], Stretch.refl r⟩
  | op :: ops, h, r => by
    obtain ⟨hop, hops⟩ := List.forall_mem_cons.1 h
    obtain ⟨taken, hstep⟩ := QueueOp.step_stretch cfg hop r
    obtain ⟨taken', hrun⟩ := run_stretch cfg hops (op.step cfg r)
    refine ⟨taken ++ taken', ?_⟩
    have htrans := hstep.trans hrun
    rw [List.filterMap_cons, List.filterMap_cons]
    cases ho : op.offered <;> cases hr : op.reported <;> simpa [ho, hr] using htrans

/-! ## Whole runs of a client -/

/-- The run of the queue's operations has what the client has. -/
structure ClientRun.Refines (r : ClientRun) (s : ClientState) : Prop where
  queue : r.queue = s.queue
  events : r.events = s.made
  popped : r.popped = s.delivered

/-- What a turn that empties nothing adds, in segments. -/
structure TurnTakes (xml : XmlParser) (segs : List Segment) (ops : List QueueOp) (s s' : ClientState)
    (received : Bytes) : Prop where
  wellFormed : ∀ seg ∈ segs, seg.WellFormed
  bytes : s.rx.bytes ++ received = segs.flatMap Segment.span ++ s'.rx.bytes
  keeps : ∀ op ∈ ops, op.Keeps
  offered : ops.filterMap QueueOp.offered = segs.filterMap Segment.offer
  reported : ops.filterMap QueueOp.reported = segs.filterMap (Segment.report xml)

theorem TurnTakes.trans {segs segs' : List Segment} {ops ops' : List QueueOp} {s s' s'' : ClientState} {b b' : Bytes}
    (h : TurnTakes xml segs ops s s' b) (h' : TurnTakes xml segs' ops' s' s'' b') :
    TurnTakes xml (segs ++ segs') (ops ++ ops') s s'' (b ++ b') where
  wellFormed := List.forall_mem_append.2 ⟨h.wellFormed, h'.wellFormed⟩
  bytes := by rw [← List.append_assoc, h.bytes, List.append_assoc, h'.bytes, List.flatMap_append, List.append_assoc]
  keeps := List.forall_mem_append.2 ⟨h.keeps, h'.keeps⟩
  offered := by rw [List.filterMap_append, List.filterMap_append, h.offered, h'.offered]
  reported := by rw [List.filterMap_append, List.filterMap_append, h.reported, h'.reported]

theorem Segment.queueOps_spec {seg : Segment} (h : seg.WellFormed) (env : CallbackEnv) :
    (∀ op ∈ seg.queueOps env, op.Keeps) ∧ (seg.queueOps env).filterMap QueueOp.offered = seg.offer.toList ∧
    (seg.queueOps env).filterMap QueueOp.reported = (seg.report env.xml).toList := by
  have hoffer := h.offer_ne_nil
  unfold Segment.queueOps Segment.report
  rw [List.filterMap_append, List.filterMap_append]
  refine ⟨fun op hop => ?_, ?_, ?_⟩
  · rcases List.mem_append.1 hop with hop | hop
    · obtain ⟨d, -, rfl⟩ := Option.map_eq_some_iff.1 (Option.mem_toList.1 hop)
      trivial
    · obtain ⟨n, -, rfl⟩ := Option.map_eq_some_iff.1 (Option.mem_toList.1 hop)
      trivial
  · cases ho : seg.offer with
    | none => cases seg.diagnosis env.xml <;> rfl
    | some n =>
      have hn : n ≠ [] := hoffer n ho
      cases seg.diagnosis env.xml <;> simp [QueueOp.offered, hn]
  · cases hd : seg.diagnosis env.xml with
    | none => cases seg.offer <;> rfl
    | some d =>
      have htype := Segment.diagnosis_incomplete hd
      cases seg.offer <;> simp [QueueOp.reported, htype]

theorem queueOps_takes (env : CallbackEnv) : ∀ {segs : List Segment}, (∀ seg ∈ segs, seg.WellFormed) →
    (∀ op ∈ segs.flatMap (Segment.queueOps env), op.Keeps) ∧
    (segs.flatMap (Segment.queueOps env)).filterMap QueueOp.offered = segs.filterMap Segment.offer ∧
    (segs.flatMap (Segment.queueOps env)).filterMap QueueOp.reported = segs.filterMap (Segment.report env.xml)
  | [], _ => ⟨fun _ h => absurd h List.not_mem_nil, rfl, rfl⟩
  | seg :: segs, h => by
    obtain ⟨hseg, hsegs⟩ := List.forall_mem_cons.1 h
    obtain ⟨hkeeps, hoffered, hreported⟩ := Segment.queueOps_spec hseg env
    obtain ⟨hkeeps', hoffered', hreported'⟩ := queueOps_takes env hsegs
    rw [List.flatMap_cons, List.filterMap_append, List.filterMap_append, hoffered, hreported, hoffered', hreported',
      List.filterMap_cons, List.filterMap_cons]
    refine ⟨List.forall_mem_append.2 ⟨hkeeps, hkeeps'⟩, ?_, ?_⟩
    · cases seg.offer <;> rfl
    · cases seg.report env.xml <;> rfl

/-- **A section of the callback.** -/
theorem left_refines {r : ClientRun} {s : ClientState} (h : r.Refines s) {env : CallbackEnv} {c : Callback} {b : Bytes}
    {segs : List Segment} (hc : Takes env s.entered c b segs) :
    (run (QueueOp.step env.cfg) r (segs.flatMap (Segment.queueOps env))).Refines (s.left c) ∧
    TurnTakes env.xml segs (segs.flatMap (Segment.queueOps env)) s (s.left c) b := by
  have hshows : r.Shows s.made s.delivered s.entered.sink :=
    ⟨h.queue, by rw [h.events]; exact (List.append_nil _).symm, h.popped⟩
  have hend := ClientRun.Shows.foldl_effect env segs hshows
  rw [← hc.sink] at hend
  obtain ⟨hkeeps, hoffered, hreported⟩ := queueOps_takes env hc.wellFormed
  exact ⟨⟨hend.queue, hend.events, hend.popped⟩, hc.wellFormed, hc.bytes, hkeeps, hoffered, hreported⟩

/-- A section of another thread that leaves the receive buffer alone. -/
theorem turnTakes_other {ops : List QueueOp} {s s' : ClientState} (hrx : s'.rx = s.rx) (hkeeps : ∀ op ∈ ops, op.Keeps)
    (hoffered : ops.filterMap QueueOp.offered = []) (hreported : ops.filterMap QueueOp.reported = []) :
    TurnTakes xml [] ops s s' [] :=
  ⟨fun _ h => absurd h List.not_mem_nil, by rw [hrx, List.append_nil]; rfl, hkeeps, hoffered, hreported⟩

theorem ClientState.pop_refines (cfg : ClientConfig) (xml : XmlParser) {r : ClientRun} {s : ClientState}
    (h : r.Refines s) (flags : SubscriptionFlags) (timeoutMs : Int) :
    (run (QueueOp.step cfg) r [.pop flags timeoutMs]).Refines (s.step cfg xml (.pop flags timeoutMs)) ∧
      (s.step cfg xml (.pop flags timeoutMs)).rx = s.rx := by
  simp only [Run.run_cons, Run.run_nil, QueueOp.step, step, h.queue]
  cases nextNotification cfg flags timeoutMs s.queue with
  | error e => exact ⟨h, rfl⟩
  | ok res =>
    obtain ⟨text, q, event⟩ := res
    refine ⟨⟨rfl, ?_, ?_⟩, rfl⟩
    · simp only [ClientRun.next_events, h.events]
    · simp only [h.popped]

/-- **One turn**, on the queue's operations and in segments. -/
theorem ClientState.step_refines (cfg : ClientConfig) (xml : XmlParser) {r : ClientRun} {s : ClientState}
    (h : r.Refines s) (hs : rxTurn s.rx.bytes = none) (turn : ClientTurn) :
    ∃ ops segs, (run (QueueOp.step cfg) r ops).Refines (s.step cfg xml turn) ∧
      rxTurn (s.step cfg xml turn).rx.bytes = none ∧
      (turn.Keeps → TurnTakes xml segs ops s (s.step cfg xml turn) turn.received) := by
  cases turn with
  | parse fd now bytes =>
    obtain ⟨segs, htakes⟩ := parseLocked_takes ⟨cfg, xml, fd⟩ (c := s.entered) hs now bytes
    obtain ⟨hrefines, hturn⟩ := left_refines h htakes
    exact ⟨_, segs, hrefines, htakes.stable, fun _ => hturn⟩
  | check fd t =>
    obtain ⟨segs, htakes⟩ := checkLocked_takes ⟨cfg, xml, fd⟩ (c := s.entered) hs t
    obtain ⟨hrefines, hturn⟩ := left_refines h htakes
    exact ⟨_, segs, hrefines, htakes.stable, fun _ => hturn⟩
  | idle fd now =>
    obtain ⟨segs, htakes⟩ := idleLocked_takes (takes_refl ⟨cfg, xml, fd⟩ (c := s.entered) hs) now
    obtain ⟨hrefines, hturn⟩ := left_refines h htakes
    exact ⟨_, segs, hrefines, htakes.stable, fun _ => hturn⟩
  | pop flags timeoutMs =>
    obtain ⟨hrefines, hrx⟩ := pop_refines cfg xml h flags timeoutMs
    exact ⟨[.pop flags timeoutMs], [], hrefines, by rwa [hrx],
      fun _ => turnTakes_other hrx (by simp [QueueOp.Keeps]) rfl rfl⟩
  | peek maxItems => exact ⟨[], [], h, hs, fun _ => turnTakes_other rfl (by simp) rfl rfl⟩
  | clear =>
    refine ⟨[.clear], [], ⟨?_, ?_, rfl⟩, rxTurn_nil, fun hk => hk.elim⟩
    · simp [QueueOp.step, step, clearNotificationQueue, h.queue]
    · simp [QueueOp.step, step, h.events]
  | markDead =>
    refine ⟨[.markDead], [], ⟨?_, ?_, rfl⟩, rxTurn_nil, fun hk => hk.elim⟩
    · simp [QueueOp.step, step, markNotificationDead, h.queue]
    · simp [QueueOp.step, step, h.events]
  | subscribed => exact ⟨[], [], ⟨h.queue, h.events, h.popped⟩, rxTurn_nil, fun hk => hk.elim⟩

theorem runClient_concat (turns : List ClientTurn) (turn : ClientTurn) :
    runClient cfg xml (turns ++ [turn]) = (runClient cfg xml turns).step cfg xml turn := Run.run_concat turns turn

/-- From a state on: the queue's operations, and, in a stretch that empties nothing, the segments. -/
theorem run_refines (cfg : ClientConfig) (xml : XmlParser) : ∀ (turns : List ClientTurn) {r : ClientRun}
    {s : ClientState}, r.Refines s → rxTurn s.rx.bytes = none → ∃ ops segs,
      (run (QueueOp.step cfg) r ops).Refines (run (ClientState.step cfg xml) s turns) ∧
      rxTurn (run (ClientState.step cfg xml) s turns).rx.bytes = none ∧
      ((∀ t ∈ turns, t.Keeps) →
        TurnTakes xml segs ops s (run (ClientState.step cfg xml) s turns) (turns.flatMap ClientTurn.received))
  | [], r, s, h, hs => ⟨[], [], h, hs, fun _ => turnTakes_other rfl (by simp) rfl rfl⟩
  | turn :: turns, r, s, h, hs => by
    obtain ⟨ops, segs, hr, hstable, htakes⟩ := ClientState.step_refines cfg xml h hs turn
    obtain ⟨ops', segs', hr', hstable', htakes'⟩ := run_refines cfg xml turns hr hstable
    refine ⟨ops ++ ops', segs ++ segs', by rwa [Run.run_append], hstable', fun hkeeps => ?_⟩
    obtain ⟨hturn, hturns⟩ := List.forall_mem_cons.1 hkeeps
    rw [List.flatMap_cons]
    exact (htakes hturn).trans (htakes' hturns)

theorem ClientRun.refines_start : ClientRun.Refines {} {} := ⟨rfl, rfl, rfl⟩

/-- **A client's run is a run of its queue's operations**: whatever the callbacks parse, and whatever else is done in
between, the queue with its counters, the events in the order in which they are made and what the consumers are given
are those of a run of the queue, and this run is one of the abstract bounded queue. -/
theorem runClient_refines (cfg : ClientConfig) (xml : XmlParser) (turns : List ClientTurn) :
    ∃ ops, (runQueue cfg ops).queue = (runClient cfg xml turns).queue ∧
      (runQueue cfg ops).events = (runClient cfg xml turns).made ∧
      (runQueue cfg ops).popped = (runClient cfg xml turns).delivered ∧
      (runQueue cfg ops).fifo = run (Fifo.step cfg.capacity) {} (ops.map QueueOp.fifo) := by
  obtain ⟨ops, _, hrefines, -, -⟩ := run_refines cfg xml turns ClientRun.refines_start rxTurn_nil
  exact ⟨ops, hrefines.queue, hrefines.events, hrefines.popped, runQueue_fifo cfg ops⟩

/-- Since the last clearing, what the queue accepted is what was popped and what it holds. -/
theorem runQueue_history (cfg : ClientConfig) (ops : List QueueOp) :
    (runQueue cfg ops).accepted = (runQueue cfg ops).popped ++ (runQueue cfg ops).queue.items := by
  have hfifo := runQueue_fifo cfg ops
  have hhistory := Fifo.run_history cfg.capacity (ops.map QueueOp.fifo)
  rwa [← hfifo] at hhistory

/-- How a stretch from `s` to `s'` adds up: the bytes that waited and those received are the spans of `segs` and the
bytes that wait; what the consumers were given and what is queued for them has grown at its end by `taken`, which is
offers of the segments, in order and each at most once; the others were counted as dropped; and the segments were
reported, in order. -/
structure Accounts (xml : XmlParser) (s s' : ClientState) (received : Bytes) (segs : List Segment)
    (taken : List Bytes) : Prop where
  wellFormed : ∀ seg ∈ segs, seg.WellFormed
  bytes : s.rx.bytes ++ received = segs.flatMap Segment.span ++ s'.rx.bytes
  given : s'.delivered ++ s'.queue.items = s.delivered ++ s.queue.items ++ taken
  sublist : taken.Sublist (segs.filterMap Segment.offer)
  enqueued : s'.queue.enqueuedCount = s.queue.enqueuedCount + taken.length
  dropped : s'.queue.droppedQueueFullCount + taken.length =
    s.queue.droppedQueueFullCount + (segs.filterMap Segment.offer).length
  reports : segmentReports s'.made = segmentReports s.made ++ segs.filterMap (Segment.report xml)

theorem TurnTakes.accounts {ops ops' : List QueueOp} {segs : List Segment} {s s' : ClientState} {received : Bytes}
    (hr : (runQueue cfg ops).Refines s) (hr' : (runQueue cfg (ops ++ ops')).Refines s')
    (h : TurnTakes xml segs ops' s s' received) : ∃ taken, Accounts xml s s' received segs taken := by
  obtain ⟨taken, hstretch⟩ := run_stretch cfg h.keeps (runQueue cfg ops)
  have hend : run (QueueOp.step cfg) (runQueue cfg ops) ops' = runQueue cfg (ops ++ ops') :=
    (Run.run_append ops ops').symm
  rw [hend] at hstretch
  have hhistory := runQueue_history cfg ops
  have hhistory' := runQueue_history cfg (ops ++ ops')
  rw [hr.popped, hr.queue] at hhistory
  rw [hr'.popped, hr'.queue, hstretch.accepted, hhistory] at hhistory'
  have henqueued := hstretch.enqueued
  have hdropped := hstretch.dropped
  have hreports := hstretch.reports
  have hsublist := hstretch.sublist
  rw [hr'.queue, hr.queue] at henqueued hdropped
  rw [hr'.events, hr.events, h.reported] at hreports
  rw [h.offered] at hdropped hsublist
  exact ⟨taken, h.wellFormed, h.bytes, hhistory'.symm, hsublist, henqueued, hdropped, hreports⟩

theorem run_accounts (cfg : ClientConfig) (xml : XmlParser) (pre : List ClientTurn) {turns : List ClientTurn}
    (hkeeps : ∀ t ∈ turns, t.Keeps) : ∃ segs taken, Accounts xml (runClient cfg xml pre)
      (runClient cfg xml (pre ++ turns)) (turns.flatMap ClientTurn.received) segs taken := by
  obtain ⟨ops, _, hr, hstable, -⟩ := run_refines cfg xml pre ClientRun.refines_start rxTurn_nil
  obtain ⟨ops', segs, hr', -, htakes⟩ := run_refines cfg xml turns hr hstable
  have hend : runClient cfg xml (pre ++ turns) = run (ClientState.step cfg xml) (runClient cfg xml pre) turns :=
    Run.run_append pre turns
  rw [← Run.run_append] at hr'
  rw [hend]
  exact ⟨segs, (htakes hkeeps).accounts hr hr'⟩

/-- Without a report and without a drop, the segments are valid notifications, and all of them are taken. -/
theorem Accounts.silent {s s' : ClientState} {received : Bytes} {segs : List Segment} {taken : List Bytes}
    (h : Accounts xml s s' received segs taken) (hreports : segmentReports s'.made = segmentReports s.made)
    (hdropped : s'.queue.droppedQueueFullCount = s.queue.droppedQueueFullCount) :
    ∃ ps : List Bytes, segs = ps.map .frame ∧ taken = ps.map (· ++ eom) ∧
      ∀ p ∈ ps, isValidNotificationDocument xml p = true := by
  have hnone : segs.filterMap (Segment.report xml) = [] := by
    have hr := h.reports
    rwa [hreports, List.self_eq_append_right] at hr
  rw [List.filterMap_eq_nil_iff] at hnone
  have hall : taken = segs.filterMap Segment.offer := by
    refine h.sublist.eq_of_length ?_
    have hd := h.dropped
    omega
  have hframes : ∀ segs' : List Segment, (∀ seg ∈ segs', seg.report xml = none) → ∃ ps : List Bytes,
      segs' = ps.map .frame ∧ segs'.filterMap Segment.offer = ps.map (· ++ eom) ∧
      ∀ p ∈ ps, isValidNotificationDocument xml p = true := by
    intro segs'
    induction segs' with
    | nil => exact fun _ => ⟨[], rfl, rfl, fun _ hp => absurd hp List.not_mem_nil⟩
    | cons seg segs' ih =>
      intro hsegs
      obtain ⟨hseg, hrest⟩ := List.forall_mem_cons.1 hsegs
      obtain ⟨ps, rfl, hoffers, hvalid⟩ := ih hrest
      obtain ⟨p, rfl, hblank, hp⟩ := (report_eq_none_iff xml seg).1 hseg
      refine ⟨p :: ps, rfl, ?_, List.forall_mem_cons.2 ⟨hp, hvalid⟩⟩
      rw [List.filterMap_cons, Segment.offer, if_neg hblank]
      exact congrArg _ hoffers
  obtain ⟨ps, hps, hoffers, hvalid⟩ := hframes segs hnone
  exact ⟨ps, hps, hall.trans hoffers, hvalid⟩

/-- **From the wire to the consumer.**  Whatever has happened to a client, and whatever happens then without a
clearing, callbacks of any kind with pops and peeks between their sections: bytes, segments, queue, consumers and
reports add up.  And where that made no report and dropped nothing, the stream was valid notifications, cut exactly at
their markers, and the consumers get each of them with its marker, in order, and nothing else. -/
theorem client_run_exact (cfg : ClientConfig) (xml : XmlParser) (pre turns : List ClientTurn)
    (hkeeps : ∀ t ∈ turns, t.Keeps) :
    let s := runClient cfg xml pre
    let s' := runClient cfg xml (pre ++ turns)
    let received := turns.flatMap ClientTurn.received
    (∃ segs taken, Accounts xml s s' received segs taken) ∧
    (segmentReports s'.made = segmentReports s.made →
      s'.queue.droppedQueueFullCount = s.queue.droppedQueueFullCount →
        (∀ p ∈ (splitOn eom (s.rx.bytes ++ received)).1, isValidNotificationDocument xml p = true) ∧
        s'.delivered ++ s'.queue.items =
          s.delivered ++ s.queue.items ++ (splitOn eom (s.rx.bytes ++ received)).1.map (· ++ eom) ∧
        s'.rx.bytes = (splitOn eom (s.rx.bytes ++ received)).2) := by
  intro s s' received
  obtain ⟨segs, taken, haccounts⟩ := run_accounts cfg xml pre hkeeps
  refine ⟨⟨segs, taken, haccounts⟩, fun hreports hdropped => ?_⟩
  obtain ⟨ps, rfl, rfl, hvalid⟩ := haccounts.silent hreports hdropped
  have hclosed : ∀ p ∈ ps, find eom (p ++ eom) = some p.length :=
    fun p hp => haccounts.wellFormed (.frame p) (List.mem_map_of_mem hp)
  have hrest : find eom s'.rx.bytes = none := by
    obtain ⟨_, _, -, hstable, -⟩ := run_refines cfg xml (pre ++ turns) ClientRun.refines_start rxTurn_nil
    exact find_eom_of_rxTurn_none hstable
  have hsplit : splitOn eom (s.rx.bytes ++ received) = (ps, s'.rx.bytes) := by
    have hbytes : s.rx.bytes ++ received = ps.flatMap (· ++ eom) ++ s'.rx.bytes := by
      rw [← haccounts.bytes.symm, List.flatMap_map]
      rfl
    rw [hbytes, Search.splitOn_flatMap eom_ne_nil ps _ hclosed, Search.splitOn_of_none hrest, List.append_nil]
  rw [hsplit]
  exact ⟨hvalid, haccounts.given, rfl⟩

/-- A notification in two reads, with a consumer that comes too early and comes again. -/
def splitTurns : List ClientTurn := [
  .parse 7 0 (ascii "<notification><a/>"), .pop ⟨true, true, true⟩ 0, .peek (-1),
  .parse 7 1 (ascii "</notification>]]>]]>"), .pop ⟨true, true, true⟩ 0]

theorem client_run_exact_split : (runClient pairEnv.cfg pairEnv.xml ([.clear] ++ splitTurns)).delivered ++
    (runClient pairEnv.cfg pairEnv.xml ([.clear] ++ splitTurns)).queue.items =
      (splitOn eom (splitTurns.flatMap ClientTurn.received)).1.map (· ++ eom) :=
  ((client_run_exact pairEnv.cfg pairEnv.xml [.clear] splitTurns (by simp [splitTurns, ClientTurn.Keeps])).2
    (by decide +kernel) (by decide +kernel)).2.1

/-! ## The counters in the events -/

/-- The counters that only grow, as a queue has them and as an event tells them. -/
structure Counters where
  enqueued : Int
  dropped : Int
  incomplete : Int

def Counters.Le (a b : Counters) : Prop :=
  a.enqueued ≤ b.enqueued ∧ a.dropped ≤ b.dropped ∧ a.incomplete ≤ b.incomplete

theorem Counters.Le.trans {a b c : Counters} (h : a.Le b) (h' : b.Le c) : a.Le c :=
  ⟨h.1.trans h'.1, h.2.1.trans h'.2.1, h.2.2.trans h'.2.2⟩

def NotifQueue.counters (q : NotifQueue) : Counters where
  enqueued := q.enqueuedCount
  dropped := q.droppedQueueFullCount
  incomplete := q.incompleteCount

def NotificationHealthEvent.counters (e : NotificationHealthEvent) : Counters where
  enqueued := e.notificationsEnqueued
  dropped := e.notificationsDroppedQueueFull
  incomplete := e.incompleteNotificationsReceived

/-- The counters the events tell never fall, and are not ahead of the queue's. -/
structure CountersGrow (r : ClientRun) : Prop where
  ordered : (r.events.map (·.counters)).Pairwise Counters.Le
  behind : ∀ e ∈ r.events, e.counters.Le r.queue.counters

/-- A step that makes no counter less, and whose events tell the counters it leaves. -/
theorem CountersGrow.next {c c' : ClientRun} {es : List NotificationHealthEvent} (h : CountersGrow c)
    (hevents : c'.events = c.events ++ es) (hle : c.queue.counters.Le c'.queue.counters)
    (hes : es = [] ∨ ∃ e, es = [e] ∧ e.counters = c'.queue.counters) : CountersGrow c' := by
  have hself : c'.queue.counters.Le c'.queue.counters := ⟨Int.le_refl _, Int.le_refl _, Int.le_refl _⟩
  have hold : ∀ e ∈ c.events, e.counters.Le c'.queue.counters := fun e he => (h.behind e he).trans hle
  rcases hes with rfl | ⟨e, rfl, he⟩
  · rw [List.append_nil] at hevents
    exact ⟨by rw [hevents]; exact h.ordered, by rw [hevents]; exact hold⟩
  · refine ⟨?_, ?_⟩
    · rw [hevents, List.map_append, List.pairwise_append]
      refine ⟨h.ordered, List.pairwise_singleton _ _, fun a ha b hb => ?_⟩
      obtain ⟨x, hx, rfl⟩ := List.mem_map.1 ha
      rw [List.map_singleton, List.mem_singleton] at hb
      rw [hb, he]
      exact hold x hx
    · rw [hevents]
      refine List.forall_mem_append.2 ⟨hold, fun x hx => ?_⟩
      rw [List.mem_singleton.1 hx, he]
      exact hself

theorem diagnostic_countersGrow {c : ClientRun} (h : CountersGrow c) (fd : Int) (message : String) (bytes : Int)
    (incomplete : Bool) : CountersGrow ((QueueOp.diagnostic fd message bytes incomplete).step cfg c) := by
  refine h.next rfl ?_ (Or.inr ⟨_, rfl, ?_⟩)
  · cases incomplete with
    | false => exact ⟨Int.le_refl _, Int.le_refl _, Int.le_refl _⟩
    | true => exact ⟨Int.le_refl _, Int.le_refl _, by simp [QueueOp.step, addDiagnosticEventLocked, NotifQueue.counters]⟩
  · cases incomplete <;> rfl

theorem QueueOp.step_countersGrow {c : ClientRun} (h : CountersGrow c) (op : QueueOp) :
    CountersGrow (op.step cfg c) := by
  have hs := op.step_outcome cfg c
  have hsame : ∀ q : NotifQueue, q.enqueuedCount = c.queue.enqueuedCount →
      q.droppedQueueFullCount = c.queue.droppedQueueFullCount → q.incompleteCount = c.queue.incompleteCount →
        c.queue.counters.Le q.counters := by
    intro q he hd hi
    exact ⟨by rw [NotifQueue.counters, NotifQueue.counters, he], by rw [NotifQueue.counters, NotifQueue.counters, hd],
      by rw [NotifQueue.counters, NotifQueue.counters, hi]⟩
  by_cases hdiag : ∃ fd message bytes incomplete, op = .diagnostic fd message bytes incomplete
  · obtain ⟨fd, message, bytes, incomplete, rfl⟩ := hdiag
    exact diagnostic_countersGrow h fd message bytes incomplete
  generalize op.step cfg c = c' at hs ⊢
  cases hs with
  | none hq ha hp ho hd he hf =>
    exact h.next (by rw [he, List.append_nil]) (hsame _ (by rw [hq]) (by rw [hq]) (by rw [hq])) (Or.inl rfl)
  | accepted hn hroom =>
    refine h.next rfl ⟨?_, Int.le_refl _, Int.le_refl _⟩ (Or.inl rfl)
    simp [NotifQueue.counters, NotifQueue.accept]
  | reported hn hcap hr =>
    refine h.next rfl ⟨Int.le_refl _, ?_, Int.le_refl _⟩ (Or.inr ⟨_, rfl, rfl⟩)
    simp [NotifQueue.counters, NotifQueue.reportDrop]
  | silent hn hcap hr =>
    refine h.next rfl ⟨Int.le_refl _, ?_, Int.le_refl _⟩ (Or.inl rfl)
    simp [NotifQueue.counters, NotifQueue.dropSilently]
  | diagnostic => exact absurd ⟨_, _, _, _, rfl⟩ hdiag
  | popped => exact h.next rfl (hsame _ rfl rfl rfl) (Or.inl rfl)
  | recovered => exact h.next rfl (hsame _ rfl rfl rfl) (Or.inr ⟨_, rfl, rfl⟩)
  | dead | cleared => exact h.next rfl (hsame _ rfl rfl rfl) (Or.inl rfl)

/-- **The counters that a client's events tell never go back**, in the order in which the events are made, and are never
ahead of the client's own, whatever callbacks, consumers and clearings come in what order. -/
theorem made_countersGrow (cfg : ClientConfig) (xml : XmlParser) (turns : List ClientTurn) :
    ((runClient cfg xml turns).made.map (·.counters)).Pairwise Counters.Le ∧
    ∀ e ∈ (runClient cfg xml turns).made, e.counters.Le (runClient cfg xml turns).queue.counters := by
  obtain ⟨ops, _, hr, -, -⟩ := run_refines cfg xml turns ClientRun.refines_start rxTurn_nil
  have hgrow : CountersGrow (runQueue cfg ops) :=
    Run.run_invariant (I := CountersGrow) (fun _ op h => op.step_countersGrow h) ops {}
      ⟨List.Pairwise.nil, fun e h => by cases h⟩
  have hordered := hgrow.ordered
  have hbehind := hgrow.behind
  rw [runQueue, hr.events] at hordered
  rw [runQueue, hr.events, hr.queue] at hbehind
  exact ⟨hordered, hbehind⟩

end PyNetX
