import PyNetX.Segments
/-!
# Accounting — every received byte, exactly once and in order

Between two clearings of the receive buffer, the sections of `on_notification_ready` read, finalize, or leave the
buffer to itself while the events are flushed and consumers work on the queue (`RxOp`).  Over every such run the
received bytes are the spans of the segments taken, in order, and the buffer (`received_accounted`).
-/
namespace PyNetX

open Search (find splitOn)
open Drain (drain feed)

/-- What a segment was when it was taken, `r` being what stood behind it in the buffer. -/
def Segment.WellFormed : Segment → Prop
  | .frame b => find eom (b ++ eom) = some b.length
  | .orphan b => b ≠ [] ∧ benignNotificationPrefix b = false ∧
      ∃ r, findNotificationStartTag (b ++ r) 0 = some b.length
  | .recovered b => ∃ r s t, find eom (b ++ r) = none ∧ findNotificationStartTag (b ++ r) 0 = some s ∧
      notificationEndAfterStart (b ++ r) s = some b.length ∧ findNotificationStartTag (b ++ r) b.length = some t
  | .abandoned b => ∃ r s, find eom (b ++ r) = none ∧ findNotificationStartTag (b ++ r) 0 = some s ∧
      notificationEndAfterStart (b ++ r) s = none ∧ findNotificationStartTag (b ++ r) (s + 1) = some b.length
  | .finalized _ b => b ≠ [] ∧ find eom b = none

theorem Segment.WellFormed.span_ne_nil {seg : Segment} (h : seg.WellFormed) : seg.span ≠ [] := by
  cases seg with
  | frame b => simp [Segment.span, eom]
  | orphan b => exact h.1
  | recovered b =>
    obtain ⟨r, s, t, -, -, he, -⟩ := h
    obtain ⟨a, c, -, hlen, -⟩ := notificationEndAfterStart_eq_some he
    exact List.length_pos_iff.1 (by rw [Segment.span]; omega)
  | abandoned b =>
    obtain ⟨r, s, -, -, -, ht⟩ := h
    have hle := (findNotificationStartTag_eq_some ht).1
    exact List.length_pos_iff.1 (by rw [Segment.span]; omega)
  | finalized g b => exact h.1

theorem lookahead_wellFormed {b r : Bytes} {seg : Segment} (hb : find eom b = none)
    (h : lookahead b = some (seg, r)) : seg.WellFormed := by
  obtain ⟨s, hs, ⟨e, t, he, ht, rfl, rfl⟩ | ⟨t, he, ht, rfl, rfl⟩⟩ := lookahead_eq_some h
  · have hlen : (b.take e).length = e := by
      rw [List.length_take]
      have := (findNotificationStartTag_eq_some ht).1
      have := findNotificationStartTag_lt ht
      omega
    refine ⟨b.drop e, s, t, ?_⟩
    rw [List.take_append_drop, hlen]
    exact ⟨hb, hs, he, ht⟩
  · have hlen : (b.take t).length = t := by
      rw [List.length_take]
      have := findNotificationStartTag_lt ht
      omega
    refine ⟨b.drop t, s, ?_⟩
    rw [List.take_append_drop, hlen]
    exact ⟨hb, hs, he, ht⟩

/-- **What a turn takes is well formed.** -/
theorem rxTurn_wellFormed (b : Bytes) (segs : List Segment) (r : Bytes) (h : rxTurn b = some (segs, r)) :
    ∀ seg ∈ segs, seg.WellFormed := by
  have hframes : ∀ seg ∈ (splitOn eom b).1.map Segment.frame, seg.WellFormed := by
    intro seg hseg
    obtain ⟨f, hf, rfl⟩ := List.mem_map.1 hseg
    exact Search.splitOn_closed eom_ne_nil b f hf
  unfold rxTurn at h
  split at h
  · rename_i k hk
    cases h
    obtain ⟨hf, hpos, hbenign⟩ := orphanPrefix_eq_some hk
    have hlt := findNotificationStartTag_lt hf
    have hlen : (b.take k).length = k := by rw [List.length_take]; omega
    intro seg hseg
    obtain rfl := List.mem_singleton.1 hseg
    exact ⟨List.length_pos_iff.1 (by omega), hbenign, b.drop k, by rw [List.take_append_drop, hlen]; exact hf⟩
  · split at h
    · rename_i seg' r' hl
      cases h
      intro seg hseg
      rcases List.mem_append.1 hseg with hseg | hseg
      · exact hframes seg hseg
      · obtain rfl := List.mem_singleton.1 hseg
        exact lookahead_wellFormed (Search.splitOn_rest eom_ne_nil b) hl
    · split at h
      · cases h
      · cases h
        exact hframes

theorem find_eom_of_rxTurn_none {b : Bytes} (h : rxTurn b = none) : find eom b = none := by
  unfold rxTurn at h
  split at h
  · cases h
  split at h
  · cases h
  split at h
  · rename_i hfs
    have hrest := Search.splitOn_rest eom_ne_nil b
    have hcons := Search.splitOn_conserves eom_ne_nil b
    rw [hfs, List.flatMap_nil, List.nil_append] at hcons
    rwa [hcons] at hrest
  · cases h

/-! ## Runs -/

/-- What happens between two clearings of the receive buffer: a read is appended and parsed, a guard fires, or the
sink changes under other hands (the events are flushed, consumers pop). -/
inductive RxOp where
  | read (bytes : Bytes) (now : Nat)
  | guard (g : IncompleteGuard)
  | between (f : Sink → Sink)

def RxOp.step (env : CallbackEnv) (c : Callback) : RxOp → Callback
  | .read bytes now => processRxBufferLocked env now (c.append bytes)
  | .guard g => finalizeIncompleteLocked env g.message c
  | .between f => { c with sink := f c.sink }

def runRx (env : CallbackEnv) (c : Callback) (ops : List RxOp) : Callback := ops.foldl (RxOp.step env) c

/-- The bytes a run appends to the receive buffer. -/
def RxOp.received : RxOp → Bytes
  | .read bytes _ => bytes
  | _ => []

/-- What a run does to the sink: a segment's effect, or a change under other hands. -/
inductive SinkAct where
  | segment (seg : Segment)
  | between (f : Sink → Sink)

def SinkAct.apply (env : CallbackEnv) (s : Sink) : SinkAct → Sink
  | .segment seg => seg.effect env s
  | .between f => f s

def SinkAct.segment? : SinkAct → Option Segment
  | .segment seg => some seg
  | .between _ => none

def SinkAct.between? : SinkAct → Option (Sink → Sink)
  | .segment _ => none
  | .between f => some f

def RxOp.between? : RxOp → Option (Sink → Sink)
  | .between f => some f
  | _ => none

/-- The segments among the acts, in order. -/
def segmentsOf (acts : List SinkAct) : List Segment := acts.filterMap SinkAct.segment?

theorem segmentsOf_append (as bs : List SinkAct) : segmentsOf (as ++ bs) = segmentsOf as ++ segmentsOf bs :=
  List.filterMap_append

theorem segmentsOf_segments (segs : List Segment) : segmentsOf (segs.map .segment) = segs := by
  unfold segmentsOf
  rw [List.filterMap_map]
  exact List.filterMap_some

theorem between?_segments (segs : List Segment) :
    (segs.map SinkAct.segment).filterMap SinkAct.between? = [] := by
  rw [List.filterMap_map, List.filterMap_eq_nil_iff]
  exact fun _ _ => rfl

theorem foldl_apply_segments (env : CallbackEnv) (segs : List Segment) (s : Sink) :
    (segs.map SinkAct.segment).foldl (SinkAct.apply env) s = segs.foldl (Segment.effect env) s := by
  rw [List.foldl_map]
  rfl

/-- **One section is accounted for.** -/
theorem RxOp.step_accounted (env : CallbackEnv) (c : Callback) (hc : rxTurn c.rx.bytes = none) (op : RxOp) :
    rxTurn (op.step env c).rx.bytes = none ∧
    ∃ acts : List SinkAct, (∀ seg ∈ segmentsOf acts, seg.WellFormed) ∧
      c.rx.bytes ++ op.received = (segmentsOf acts).flatMap Segment.span ++ (op.step env c).rx.bytes ∧
      acts.filterMap SinkAct.between? = op.between?.toList ∧
      (op.step env c).sink = acts.foldl (SinkAct.apply env) c.sink := by
  cases op with
  | read bytes now =>
    simp only [step, processRxBufferLocked_eq, Callback.append]
    refine ⟨Drain.drain_stable rxPass _, (drain rxPass (c.rx.bytes ++ bytes)).1.map .segment, ?_, ?_, ?_, ?_⟩
    · rw [segmentsOf_segments]
      exact Drain.drain_forall rxPass rxTurn_wellFormed _
    · rw [segmentsOf_segments]
      exact (Drain.drain_conserves rxPass _).symm
    · exact between?_segments _
    · exact (foldl_apply_segments env _ _).symm
  | guard g =>
    by_cases hb : c.rx.bytes = []
    · simp only [step, finalizeIncompleteLocked, hb, if_true]
      exact ⟨rxTurn_nil, [], fun seg h => (by cases h), rfl, rfl, rfl⟩
    · simp only [step, finalizeIncompleteLocked, if_neg hb]
      refine ⟨rxTurn_nil, [.segment (.finalized g c.rx.bytes)], ?_, by simp [segmentsOf, SinkAct.segment?, received,
        Segment.span], rfl, rfl⟩
      intro seg hseg
      obtain rfl := List.mem_singleton.1 hseg
      exact ⟨hb, find_eom_of_rxTurn_none hc⟩
  | between f =>
    exact ⟨hc, [.between f], fun seg h => (by cases h), List.append_nil _, rfl, rfl⟩

/-- **A run is accounted for**, section by section. -/
theorem runRx_accounted (env : CallbackEnv) : ∀ (ops : List RxOp) (c : Callback), rxTurn c.rx.bytes = none →
    ∃ acts : List SinkAct, (∀ seg ∈ segmentsOf acts, seg.WellFormed) ∧
      c.rx.bytes ++ ops.flatMap RxOp.received =
        (segmentsOf acts).flatMap Segment.span ++ (runRx env c ops).rx.bytes ∧
      acts.filterMap SinkAct.between? = ops.filterMap RxOp.between? ∧
      (runRx env c ops).sink = acts.foldl (SinkAct.apply env) c.sink
  | [], c, _ => ⟨[], fun seg h => (by cases h), List.append_nil _, rfl, rfl⟩
  | op :: ops, c, hc => by
    obtain ⟨hc', acts, hwf, hbytes, hbetween, hsink⟩ := RxOp.step_accounted env c hc op
    obtain ⟨acts', hwf', hbytes', hbetween', hsink'⟩ := runRx_accounted env ops (op.step env c) hc'
    refine ⟨acts ++ acts', ?_, ?_, ?_, ?_⟩
    · intro seg hseg
      rw [segmentsOf_append, List.mem_append] at hseg
      exact hseg.elim (hwf seg) (hwf' seg)
    · rw [segmentsOf_append, List.flatMap_append, List.append_assoc, runRx, List.foldl_cons, List.flatMap_cons,
        ← List.append_assoc, hbytes, List.append_assoc, hbytes', runRx]
    · rw [List.filterMap_append, hbetween, hbetween', List.filterMap_cons]
      cases op.between? <;> rfl
    · rw [List.foldl_append, runRx, List.foldl_cons, ← hsink]
      exact hsink'

/-- **Every received byte is accounted for exactly once and in order**: from a cleared buffer, whatever is read,
whenever a guard fires and whatever the XML check says, the received bytes are the spans of non-empty segments and the
buffer; and the sink is what the segments' events and offers, in that order, made of it. -/
theorem received_accounted (env : CallbackEnv) (startedAt : Nat) (s : Sink) (ops : List RxOp) :
    ∃ acts : List SinkAct, (∀ seg ∈ segmentsOf acts, seg.span ≠ [] ∧ seg.WellFormed) ∧
      ops.flatMap RxOp.received = (segmentsOf acts).flatMap Segment.span ++
        (runRx env ⟨⟨[], false, startedAt⟩, s⟩ ops).rx.bytes ∧
      acts.filterMap SinkAct.between? = ops.filterMap RxOp.between? ∧
      (runRx env ⟨⟨[], false, startedAt⟩, s⟩ ops).sink = acts.foldl (SinkAct.apply env) s := by
  obtain ⟨acts, hwf, hbytes, hbetween, hsink⟩ := runRx_accounted env ops ⟨⟨[], false, startedAt⟩, s⟩ rxTurn_nil
  exact ⟨acts, fun seg h => ⟨(hwf seg h).span_ne_nil, hwf seg h⟩, hbytes, hbetween, hsink⟩

end PyNetX
