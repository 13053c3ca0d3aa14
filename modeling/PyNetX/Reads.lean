import PyNetX.Lib.Run
import PyNetX.Accounting
/-!
# Reads — a stream cut into reads, on an unbounded queue

With no guard firing and an unbounded queue, what a stream becomes is decided by its segments alone: the queue holds
their offers and the events are their reports (`readAll_eq`).  The segments are the marked frames and nothing else
exactly when no read leaves a buffer that the orphan check or the look-ahead takes something from
(`feed_frames_iff`).
-/
namespace PyNetX

open Search (find splitOn)
open Drain (drain feed)

/-- Reads, each with the clock's reading at its parse. -/
abbrev Reads := List (Bytes × Nat)

/-- The bytes of the reads, in order. -/
def Reads.chunks (reads : Reads) : List Bytes := reads.map Prod.fst

/-- The stream the reads cut. -/
def Reads.stream (reads : Reads) : Bytes := reads.chunks.flatten

/-- What a subscription starts on: an empty queue whose counters have survived, and no event waiting. -/
def Sink.fresh (q : NotifQueue) : Sink where
  queue := { q with items := [] }

/-- The reads, one by one, from a cleared buffer. -/
def readAll (env : CallbackEnv) (q : NotifQueue) (reads : Reads) : Callback :=
  runRx env { sink := Sink.fresh q } (reads.map (fun r => RxOp.read r.1 r.2))

/-- What an event says of its segment. -/
def NotificationHealthEvent.summary (e : NotificationHealthEvent) : HealthEventType × String × Int :=
  (e.type, e.message, e.partialBytes)

/-- The event of a segment, in short. -/
def Segment.report (xml : XmlParser) (seg : Segment) : Option (HealthEventType × String × Int) :=
  (seg.diagnosis xml).map (fun d => (d.1, d.2.1, (seg.bytes.length : Int)))

theorem Segment.WellFormed.offer_ne_nil {seg : Segment} (h : seg.WellFormed) : ∀ n ∈ seg.offer, n ≠ [] := by
  intro n hn
  have hspan := h.span_ne_nil
  cases seg with
  | frame b =>
    simp only [Segment.offer] at hn
    split at hn
    · cases hn
    · cases hn
      exact hspan
  | orphan b => cases hn
  | recovered b => cases hn; exact hspan
  | abandoned b => cases hn; exact hspan
  | finalized g b => cases hn; exact hspan

theorem Segment.note_summary (env : CallbackEnv) (s : Sink) (seg : Segment) :
    (seg.note env s).queue.items = s.queue.items ∧
    (seg.note env s).eventsToEmit.map NotificationHealthEvent.summary =
      s.eventsToEmit.map NotificationHealthEvent.summary ++ (seg.report env.xml).toList := by
  unfold Segment.note Segment.report
  cases seg.diagnosis env.xml with
  | none => simp
  | some d =>
    obtain ⟨type, message, incomplete⟩ := d
    cases incomplete <;> simp [addDiagnosticEventLocked, makeNotificationHealthEventLocked,
      NotificationHealthEvent.summary]

theorem Segment.effect_unbounded {env : CallbackEnv} (hu : env.cfg.notifQueueSize < 0) {seg : Segment}
    (h : seg.WellFormed) (s : Sink) :
    (seg.effect env s).queue.items = s.queue.items ++ seg.offer.toList ∧
    (seg.effect env s).eventsToEmit.map NotificationHealthEvent.summary =
      s.eventsToEmit.map NotificationHealthEvent.summary ++ (seg.report env.xml).toList := by
  obtain ⟨hitems, hevents⟩ := Segment.note_summary env s seg
  unfold Segment.effect
  cases ho : seg.offer with
  | none =>
    rw [Option.toList_none, List.append_nil]
    exact ⟨hitems, hevents⟩
  | some n =>
    obtain ⟨hi, he⟩ := @enqueueOrDropLocked_unbounded env.cfg env.fd n
      (if (seg.diagnosis env.xml).isSome then seg.bytes.length else 0) (seg.note env s) hu (h.offer_ne_nil n ho)
    exact ⟨by rw [hi, hitems, Option.toList_some], by rw [he, hevents]⟩

theorem foldl_effect_unbounded {env : CallbackEnv} (hu : env.cfg.notifQueueSize < 0) :
    ∀ (segs : List Segment) (s : Sink), (∀ seg ∈ segs, seg.WellFormed) →
      (segs.foldl (Segment.effect env) s).queue.items = s.queue.items ++ segs.filterMap Segment.offer ∧
      (segs.foldl (Segment.effect env) s).eventsToEmit.map NotificationHealthEvent.summary =
        s.eventsToEmit.map NotificationHealthEvent.summary ++ segs.filterMap (Segment.report env.xml)
  | [], s, _ => by simp
  | seg :: segs, s, h => by
    obtain ⟨hi, he⟩ := Segment.effect_unbounded hu (h seg List.mem_cons_self) s
    obtain ⟨his, hes⟩ := foldl_effect_unbounded hu segs (seg.effect env s)
      (fun x hx => h x (List.mem_cons_of_mem seg hx))
    rw [List.foldl_cons, his, hes, hi, he, List.append_assoc, List.append_assoc, List.filterMap_cons,
      List.filterMap_cons]
    constructor
    · cases seg.offer <;> rfl
    · cases seg.report env.xml <;> rfl

/-- **Reads are a feed**: the buffer is what the feed leaves, the sink is what its segments do. -/
theorem runRx_reads (env : CallbackEnv) : ∀ (reads : Reads) (c : Callback),
    c.rx.partialTimerActive = decide (c.rx.bytes ≠ []) →
      let c' := runRx env c (reads.map (fun r => RxOp.read r.1 r.2))
      c'.rx.bytes = (feed rxPass c.rx.bytes reads.chunks).2 ∧
      c'.rx.partialTimerActive = decide (c'.rx.bytes ≠ []) ∧
      c'.sink = (feed rxPass c.rx.bytes reads.chunks).1.foldl (Segment.effect env) c.sink
  | [], c, h => ⟨rfl, h, rfl⟩
  | r :: reads, c, h => by
    have hstep := processRxBufferLocked_eq env r.2 (c.append r.1)
    have ih := runRx_reads env reads (processRxBufferLocked env r.2 (c.append r.1)) (by rw [hstep])
    simp only [runRx, List.map_cons, List.foldl_cons, RxOp.step, Reads.chunks, feed, List.foldl_append] at ih ⊢
    rw [hstep] at ih ⊢
    exact ih

/-- **What reads come to on an unbounded queue.** -/
theorem readAll_eq {env : CallbackEnv} (hu : env.cfg.notifQueueSize < 0) (q : NotifQueue) (reads : Reads) :
    (readAll env q reads).sink.queue.items = (feed rxPass [] reads.chunks).1.filterMap Segment.offer ∧
    (readAll env q reads).sink.eventsToEmit.map NotificationHealthEvent.summary =
      (feed rxPass [] reads.chunks).1.filterMap (Segment.report env.xml) ∧
    (readAll env q reads).rx.bytes = (feed rxPass [] reads.chunks).2 ∧
    ((readAll env q reads).rx.partialTimerActive = decide ((readAll env q reads).rx.bytes ≠ [])) := by
  obtain ⟨hbytes, htimer, hsink⟩ := runRx_reads env reads { sink := Sink.fresh q } rfl
  obtain ⟨hitems, hevents⟩ := foldl_effect_unbounded hu (feed rxPass [] reads.chunks).1 (Sink.fresh q)
    (Drain.feed_forall rxPass rxTurn_wellFormed [] reads.chunks)
  refine ⟨?_, ?_, hbytes, htimer⟩
  · rw [readAll, hsink]
    exact hitems
  · rw [readAll, hsink]
    exact hevents

/-- `w` has been received when some read has been parsed, or before the first one. -/
def Boundary (chunks : List Bytes) (w : Bytes) : Prop := ∃ pre, pre <+: chunks ∧ pre.flatten = w

theorem completing_read : ∀ chunks : List Bytes, chunks.flatten ≠ [] → ∃ pre r post, chunks = pre ++ r :: post ∧
    pre.flatten.length < chunks.flatten.length ∧ pre.flatten ++ r = chunks.flatten ∧ post.flatten = [] := by
  intro chunks
  induction chunks using List.reverseRecOn with
  | nil => intro h; exact absurd rfl h
  | append_singleton chunks x ih =>
    intro h
    by_cases hx : x = []
    · subst hx
      obtain ⟨pre, r, post, rfl, hlt, hr, hpost⟩ := ih (by simpa using h)
      exact ⟨pre, r, post ++ [[]], by simp, by simpa using hlt, by simpa using hr, by simpa using hpost⟩
    · have := List.length_pos_iff.2 hx
      exact ⟨chunks, x, [], rfl, by simp; omega, by simp, rfl⟩

/-! ## Frames and nothing else -/

/-- A frame a marker ended. -/
def Segment.isFrame : Segment → Bool
  | .frame _ => true
  | _ => false

/-- The parser takes nothing but marked frames from the buffer: neither the orphan check, in front of them or behind,
nor the look-ahead behind them finds anything. -/
def Quiet (b : Bytes) : Prop :=
  orphanPrefix b = none ∧ orphanPrefix (splitOn eom b).2 = none ∧ lookahead (splitOn eom b).2 = none

theorem rxTurn_of_unmarked {b : Bytes} (hb : find eom b = none) (ho : orphanPrefix b = none) :
    rxTurn b = (lookahead b).map (fun p => ([p.1], p.2)) := by
  unfold rxTurn
  rw [ho, Search.splitOn_of_none hb]
  simp only
  cases lookahead b <;> rfl

/-- **A turn takes nothing from a buffer without a marker** exactly when neither check finds anything. -/
theorem rxTurn_eq_none_iff {b : Bytes} (hb : find eom b = none) :
    rxTurn b = none ↔ orphanPrefix b = none ∧ lookahead b = none := by
  cases ho : orphanPrefix b with
  | none => simp [rxTurn_of_unmarked hb ho]
  | some k => simp [rxTurn, ho]

theorem drain_frame {f : Bytes} (hf : find eom (f ++ eom) = some f.length) (ho : orphanPrefix (f ++ eom) = none) :
    drain rxPass (f ++ eom) = ([.frame f], []) := by
  have hsplit : splitOn eom (f ++ eom) = ([f], []) := by
    have := Search.splitOn_cons eom_ne_nil hf []
    rwa [List.append_nil, Search.splitOn_of_none (l := []) rfl] at this
  have ht : rxTurn (f ++ eom) = some ([.frame f], []) := by
    unfold rxTurn
    rw [ho, hsplit, lookahead_nil]
    rfl
  rw [Drain.drain_some rxPass ht, Drain.drain_none rxPass (b := []) rxTurn_nil, List.append_nil]

theorem Quiet.drain_eq {b : Bytes} (h : Quiet b) :
    drain rxPass b = ((splitOn eom b).1.map .frame, (splitOn eom b).2) := by
  obtain ⟨ho, hor, hl⟩ := h
  have hrest : rxTurn (splitOn eom b).2 = none := by
    rw [rxTurn_of_unmarked (Search.splitOn_rest eom_ne_nil b) hor, hl]
    rfl
  have hturn : rxTurn b =
      if (splitOn eom b).1 = [] then none else some ((splitOn eom b).1.map .frame, (splitOn eom b).2) := by
    unfold rxTurn
    rw [ho, hl]
  by_cases hfs : (splitOn eom b).1 = []
  · rw [if_pos hfs] at hturn
    have hcons := Search.splitOn_conserves eom_ne_nil b
    rw [hfs, List.flatMap_nil, List.nil_append] at hcons
    rw [Drain.drain_none rxPass hturn, hfs, hcons]
    rfl
  · rw [if_neg hfs] at hturn
    rw [Drain.drain_some rxPass hturn, Drain.drain_none rxPass hrest, List.append_nil]

theorem lookahead_not_isFrame {b r : Bytes} {seg : Segment} (h : lookahead b = some (seg, r)) :
    seg.isFrame = false := by
  obtain ⟨s, -, ⟨e, t, -, -, rfl, -⟩ | ⟨t, -, -, rfl, -⟩⟩ := lookahead_eq_some h
  · rfl
  · rfl

theorem quiet_of_drain_frames {b : Bytes} (h : ∀ seg ∈ (drain rxPass b).1, seg.isFrame = true) : Quiet b := by
  have ho : orphanPrefix b = none := by
    cases ho : orphanPrefix b with
    | none => rfl
    | some k =>
      have ht : rxTurn b = some ([.orphan (b.take k)], b.drop k) := by
        unfold rxTurn
        rw [ho]
      rw [Drain.drain_some rxPass ht] at h
      cases h (.orphan (b.take k)) (by simp)
  have hl : lookahead (splitOn eom b).2 = none := by
    cases hl : lookahead (splitOn eom b).2 with
    | none => rfl
    | some p =>
      have ht : rxTurn b = some ((splitOn eom b).1.map .frame ++ [p.1], p.2) := by
        unfold rxTurn
        rw [ho, hl]
      rw [Drain.drain_some rxPass ht] at h
      have hseg := h p.1 (by simp)
      rw [lookahead_not_isFrame hl] at hseg
      cases hseg
  refine ⟨ho, ?_, hl⟩
  by_cases hfs : (splitOn eom b).1 = []
  · have hcons := Search.splitOn_conserves eom_ne_nil b
    rw [hfs, List.flatMap_nil, List.nil_append] at hcons
    rw [hcons]
    exact ho
  · cases hor : orphanPrefix (splitOn eom b).2 with
    | none => rfl
    | some k =>
      have ht : rxTurn b = some ((splitOn eom b).1.map .frame, (splitOn eom b).2) := by
        unfold rxTurn
        rw [ho, hl]
        exact if_neg hfs
      have htr : rxTurn (splitOn eom b).2 = some ([.orphan ((splitOn eom b).2.take k)], (splitOn eom b).2.drop k) := by
        unfold rxTurn
        rw [hor]
      rw [Drain.drain_some rxPass ht, Drain.drain_some rxPass htr] at h
      cases h (.orphan ((splitOn eom b).2.take k)) (by simp)

/-- What is in the buffer when the read behind `pre` has been appended, if nothing but frames was taken before. -/
def bufferAt (pre : List Bytes) (r : Bytes) : Bytes := (splitOn eom pre.flatten).2 ++ r

theorem splitOn_bufferAt (pre : List Bytes) (r : Bytes) :
    (splitOn eom (pre.flatten ++ r)).2 = (splitOn eom (bufferAt pre r)).2 := by
  rw [Search.splitOn_append eom_ne_nil]
  rfl

theorem feed_of_quiet : ∀ (chunks : List Bytes),
    (∀ pre r post, chunks = pre ++ r :: post → Quiet (bufferAt pre r)) →
      feed rxPass [] chunks = ((splitOn eom chunks.flatten).1.map .frame, (splitOn eom chunks.flatten).2) := by
  intro chunks
  induction chunks using List.reverseRecOn with
  | nil => intro _; rfl
  | append_singleton chunks r ih =>
    intro h
    have hpre := ih (fun pre r' post hc => h pre r' (post ++ [r]) (by rw [hc]; simp))
    have hlast := h chunks r [] rfl
    rw [Drain.feed_concat, hpre]
    have hdrain := hlast.drain_eq
    have hsplit := Search.splitOn_append eom_ne_nil chunks.flatten r
    simp only [bufferAt] at hdrain ⊢
    rw [hdrain, List.flatten_append, List.flatten_singleton, hsplit, List.map_append]

/-- **Nothing but frames is taken exactly when every buffer is quiet.** -/
theorem feed_frames_iff (chunks : List Bytes) : (∀ seg ∈ (feed rxPass [] chunks).1, seg.isFrame = true) ↔
    ∀ pre r post, chunks = pre ++ r :: post → Quiet (bufferAt pre r) := by
  constructor
  · intro h
    induction chunks using List.reverseRecOn with
    | nil => intro pre r post hc; cases pre <;> cases hc
    | append_singleton chunks r ih =>
      rw [Drain.feed_concat] at h
      have hfront := ih (fun seg hseg => h seg (List.mem_append_left _ hseg))
      have hfeed := feed_of_quiet chunks hfront
      have hlast : Quiet (bufferAt chunks r) := quiet_of_drain_frames (fun seg hseg =>
        h seg (List.mem_append_right _ (by rw [hfeed]; exact hseg)))
      intro pre r' post hc
      obtain ⟨rfl, rfl, -⟩ | ⟨post', -, hpre⟩ := Run.split_concat hc
      · exact hlast
      · exact hfront pre r' post' hpre
  · intro h
    rw [feed_of_quiet chunks h]
    intro seg hseg
    obtain ⟨f, -, rfl⟩ := List.mem_map.1 hseg
    rfl

end PyNetX
