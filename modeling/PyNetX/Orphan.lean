import PyNetX.Recovery
/-!
# Orphan — a malformed frame in front of a notification

The orphan check comes before the frames are taken and looks for a start tag anywhere in the buffer, so a malformed
frame whose marker has arrived is still dropped, marker and all, when the start tag of the next notification is in the
buffer with it.  Two cuts of one stream agree on keeping the frame exactly when neither does that
(`frame_kept_alike_iff`).
-/
namespace PyNetX

open Search (find splitOn)
open Drain (drain feed)

/-- A frame that its marker ends, not blank, without a start tag, and no notification to the XML parser. -/
structure MalformedFrame (xml : XmlParser) (g : Bytes) : Prop where
  notBlank : ¬ Blank g
  untagged : findNotificationStartTag g 0 = none
  closed : find eom (g ++ eom) = some g.length
  malformed : isValidNotificationDocument xml g = false

/-- A well-formed notification: valid, framed by its marker, and without a further tag whose local name goes on behind
`notification`. -/
structure WellFormedNotification (xml : XmlParser) (n : Bytes) : Prop extends FramedNotification n where
  valid : isValidNotificationDocument xml n = true
  inner : ∀ k < n.length, 0 < k → n[k]? = some chLt →
    ¬ notificationName <+: xmlLocalName (tagName (n.drop (k + 1)))

/-- The cuts keep the frame: no read shows a start tag inside it, the read that brings the end of its marker brings no
start tag of the notification behind it, and none shows a second one in that. -/
structure FrameCut (g : Bytes) (chunks : List Bytes) : Prop where
  inside : ∀ w, Boundary chunks w → w.length < (g ++ eom).length → orphanPrefix w = none ∧ lookahead w = none
  apart : ∀ pre r post y, chunks = pre ++ r :: post → pre.flatten.length < (g ++ eom).length →
    pre.flatten ++ r = g ++ eom ++ y → findNotificationStartTag y 0 = none
  behind : ∀ v, Boundary chunks (g ++ eom ++ v) → SeesOneTag v

section Orphan

variable {g n : Bytes}

theorem quiet_iff_of_unmarked {b : Bytes} (hb : find eom b = none) :
    Quiet b ↔ orphanPrefix b = none ∧ lookahead b = none := by
  unfold Quiet
  rw [Search.splitOn_of_none hb]
  exact ⟨And.right, fun h => ⟨h.1, h⟩⟩

theorem quiet_frame (hn : FramedNotification n) : Quiet (n ++ eom) := by
  have hsplit : splitOn eom (n ++ eom) = ([n], []) := by
    have := Search.splitOn_cons eom_ne_nil hn.closed []
    rwa [List.append_nil, Search.splitOn_of_none (l := []) rfl] at this
  refine ⟨hn.orphanPrefix_append eom, ?_, ?_⟩ <;> rw [hsplit] <;> rfl

theorem seesOneTag_frame (hn : FramedNotification n) : SeesOneTag (n ++ eom) := by
  intro t ht
  rw [hn.starts_append] at ht
  cases ht
  exact hn.single_eom

theorem unmarked_of_ne (hn : FramedNotification n) {v : Bytes} (hv : v <+: n ++ eom) (hne : v ≠ n ++ eom) :
    find eom v = none := by
  apply Search.find_none_of_short hn.closed (z := []) (by rwa [List.append_nil])
  have hle := hv.length_le
  have : v.length ≠ (n ++ eom).length := fun h => hne (hv.eq_of_length h)
  omega

theorem quiet_inside (hg : find eom (g ++ eom) = some g.length) {pre : List Bytes} {r z : Bytes}
    (hw : pre.flatten ++ r <+: g ++ eom ++ z) (hlt : (pre.flatten ++ r).length < (g ++ eom).length) :
    Quiet (bufferAt pre r) ↔ orphanPrefix (pre.flatten ++ r) = none ∧ lookahead (pre.flatten ++ r) = none := by
  have hfree := Search.find_none_of_short hg hw hlt
  rw [bufferAt, Search.splitOn_of_none (Search.find_none_of_append_left hfree), quiet_iff_of_unmarked hfree]

/-- **The read that brings the end of the frame's marker**: with a start tag behind it, the orphan check takes the frame
for an orphan prefix. -/
theorem quiet_apart (hg : find eom (g ++ eom) = some g.length) (htag : findNotificationStartTag g 0 = none)
    (hn : FramedNotification n) {pre : List Bytes} {r y : Bytes} (hpre : pre.flatten.length < (g ++ eom).length)
    (hw : pre.flatten ++ r = g ++ eom ++ y) (hy : y <+: n ++ eom) :
    Quiet (bufferAt pre r) ↔ findNotificationStartTag y 0 = none := by
  have hfree : find eom pre.flatten = none := Search.find_none_of_short hg (hw ▸ List.prefix_append _ r) hpre
  rw [bufferAt, Search.splitOn_of_none hfree, hw]
  have hseen := findNotificationStartTag_append_eom (Nat.zero_le _) htag y
  rw [← findNotificationStartTag_zero] at hseen
  rcases hn.tag_of_front hy with hy0 | hy0
  · rw [hy0, Option.map_none] at hseen
    have hyn : y ≠ n ++ eom := by
      rintro rfl
      rw [hn.starts_append] at hy0
      cases hy0
    refine iff_of_true ?_ hy0
    unfold Quiet
    rw [Search.splitOn_cons eom_ne_nil hg, Search.splitOn_of_none (unmarked_of_ne hn hy hyn)]
    simp only [orphanPrefix, lookahead, hseen, hy0, and_self]
  · rw [hy0, Option.map_some, Nat.zero_add] at hseen
    refine iff_of_false (fun hq => ?_) (by rw [hy0]; exact Option.some_ne_none 0)
    have ho := hq.1
    have htake : (g ++ eom ++ y).take (g.length + eomLen) = g ++ eom := by
      rw [← eom_length, ← List.length_append, List.take_left]
    simp only [orphanPrefix, hseen, htake, benign_append_eom] at ho
    rw [if_pos ⟨by rw [eomLen]; omega, by simp⟩] at ho
    cases ho

theorem quiet_behind (hg : find eom (g ++ eom) = some g.length) (hn : FramedNotification n) {pre : List Bytes}
    {r u : Bytes} (hpre : pre.flatten = g ++ eom ++ u) (hv : u ++ r <+: n ++ eom) :
    Quiet (bufferAt pre r) ↔ SeesOneTag (u ++ r) := by
  have hrest : (splitOn eom pre.flatten).2 = (splitOn eom u).2 := by
    rw [hpre, Search.splitOn_cons eom_ne_nil hg]
  rw [bufferAt, hrest]
  by_cases hu : u = n ++ eom
  · subst hu
    have hr : r = [] := by
      have := hv.length_le
      rw [List.length_append] at this
      exact List.eq_nil_of_length_eq_zero (by omega)
    have hsplit := Search.splitOn_cons eom_ne_nil hn.closed []
    rw [List.append_nil, Search.splitOn_of_none (l := []) rfl] at hsplit
    rw [hr, hsplit, List.append_nil, List.append_nil]
    exact iff_of_true quiet_nil (seesOneTag_frame hn)
  · have hu' : u <+: n ++ eom := (List.prefix_append u r).trans hv
    rw [Search.splitOn_of_none (unmarked_of_ne hn hu' hu)]
    by_cases hvn : u ++ r = n ++ eom
    · rw [hvn]
      exact iff_of_true (quiet_frame hn) (seesOneTag_frame hn)
    · have hfree := unmarked_of_ne hn hv hvn
      rw [quiet_iff_of_unmarked hfree, ← rxTurn_eq_none_iff hfree, rxTurn_second hn hv hfree]

variable {chunks : List Bytes}

/-- **Every buffer is quiet exactly when the cuts keep the frame.** -/
theorem quiet_iff_frameCut (hg : find eom (g ++ eom) = some g.length) (htag : findNotificationStartTag g 0 = none)
    (hn : FramedNotification n) (hs : chunks.flatten = g ++ eom ++ (n ++ eom)) :
    (∀ pre r post, chunks = pre ++ r :: post → Quiet (bufferAt pre r)) ↔ FrameCut g chunks := by
  have hcut : ∀ {pre r post}, chunks = pre ++ r :: post → pre.flatten ++ r <+: g ++ eom ++ (n ++ eom) := by
    intro pre r post h
    exact ⟨post.flatten, by rw [← hs, h, List.flatten_append, List.flatten_cons, List.append_assoc]⟩
  have hbehind : ∀ {v : Bytes}, g ++ eom ++ v <+: g ++ eom ++ (n ++ eom) → v <+: n ++ eom :=
    fun h => (List.prefix_append_right_inj _).1 h
  -- a boundary other than the first is the end of a read
  have hbound : ∀ {w : Bytes}, Boundary chunks w → w = [] ∨ ∃ pre r post, chunks = pre ++ r :: post ∧
      w = pre.flatten ++ r := by
    rintro w ⟨pre, ⟨post, hpost⟩, rfl⟩
    rcases List.eq_nil_or_concat pre with rfl | ⟨pre, r, rfl⟩
    · exact Or.inl rfl
    · exact Or.inr ⟨pre, r, post, by rw [← hpost]; simp, by simp⟩
  constructor
  · intro hq
    refine ⟨?_, ?_, ?_⟩
    · intro w hw hlt
      obtain rfl | ⟨pre, r, post, hc, rfl⟩ := hbound hw
      · exact ⟨rfl, rfl⟩
      · exact (quiet_inside hg (hcut hc) hlt).1 (hq pre r post hc)
    · intro pre r post y hc hlt hw
      exact (quiet_apart hg htag hn hlt hw (hbehind (hw ▸ hcut hc))).1 (hq pre r post hc)
    · intro v hv
      obtain hnil | ⟨pre, r, post, hc, hw⟩ := hbound hv
      · exact absurd hnil (by simp [eom])
      · by_cases hlt : pre.flatten.length < (g ++ eom).length
        · have hv0 := (quiet_apart hg htag hn hlt hw.symm (hbehind (hw ▸ hcut hc))).1 (hq pre r post hc)
          intro t ht
          rw [hv0] at ht
          cases ht
        · obtain ⟨u, hu⟩ : g ++ eom <+: pre.flatten :=
            List.prefix_of_prefix_length_le ⟨v, hw⟩ (List.prefix_append _ r) (by omega)
          rw [← hu, List.append_assoc (g ++ eom)] at hw
          have hvu : v = u ++ r := List.append_cancel_left hw
          rw [hvu]
          have hpre := hcut hc
          rw [← hu, List.append_assoc (g ++ eom) u r] at hpre
          exact (quiet_behind hg hn hu.symm (hbehind hpre)).1 (hq pre r post hc)
  · intro hf pre r post hc
    have hpre := hcut hc
    have hw : Boundary chunks (pre.flatten ++ r) := ⟨pre ++ [r], ⟨post, by rw [hc]; simp⟩, by simp⟩
    by_cases hlt : (pre.flatten ++ r).length < (g ++ eom).length
    · exact (quiet_inside hg hpre hlt).2 (hf.inside _ hw hlt)
    · by_cases hlt' : pre.flatten.length < (g ++ eom).length
      · obtain ⟨y, hy⟩ : g ++ eom <+: pre.flatten ++ r :=
          List.prefix_of_prefix_length_le (List.prefix_append _ _) hpre (by omega)
        exact (quiet_apart hg htag hn hlt' hy.symm (hbehind (hy ▸ hpre))).2 (hf.apart pre r post y hc hlt' hy.symm)
      · obtain ⟨u, hu⟩ : g ++ eom <+: pre.flatten :=
          List.prefix_of_prefix_length_le (List.prefix_append _ _) ((List.prefix_append _ r).trans hpre) (by omega)
        rw [← hu, List.append_assoc (g ++ eom) u r] at hpre hw
        exact (quiet_behind hg hn hu.symm (hbehind hpre)).2 (hf.behind _ hw)

end Orphan

/-- The frame was queued for inspection and reported as malformed, and the notification behind it framed. -/
def FrameKept (env : CallbackEnv) (q : NotifQueue) (g n : Bytes) (reads : Reads) : Prop :=
  (readAll env q reads).sink.queue.items = [g ++ eom, n ++ eom] ∧
  (readAll env q reads).sink.eventsToEmit.map NotificationHealthEvent.summary =
    [(.malformedNotification, malformedFrameMessage, (g.length : Int))]

theorem isFrame_of_report (xml : XmlParser) {seg : Segment} (k : Int)
    (h : ∀ ρ ∈ seg.report xml, ρ = (.malformedNotification, malformedFrameMessage, k)) : seg.isFrame = true := by
  cases seg with
  | frame f => rfl
  | orphan b =>
    have hmsg : orphanMessage = malformedFrameMessage := congrArg (fun r => r.2.1) (h _ rfl)
    exact absurd hmsg (by decide)
  | recovered b =>
    have hmsg : recoveredMessage = malformedFrameMessage := congrArg (fun r => r.2.1) (h _ rfl)
    exact absurd hmsg (by decide)
  | abandoned b => cases congrArg (fun r => r.1) (h _ rfl)
  | finalized g b => cases congrArg (fun r => r.1) (h _ rfl)

section Kept

variable {env : CallbackEnv} (hu : env.cfg.notifQueueSize < 0) (q : NotifQueue) {g n : Bytes}
  (hg : MalformedFrame env.xml g) (hn : WellFormedNotification env.xml n)

include hu hg hn in
theorem frameKept_iff_feed {reads : Reads} (hs : reads.stream = g ++ eom ++ (n ++ eom)) :
    (FrameKept env q g n reads ↔ FrameCut g reads.chunks) ∧
      (FrameCut g reads.chunks → (feed rxPass [] reads.chunks).1 = [.frame g, .frame n]) := by
  obtain ⟨hitems, hevents, -, -⟩ := readAll_eq hu q reads
  have hsegs : FrameCut g reads.chunks → (feed rxPass [] reads.chunks).1 = [.frame g, .frame n] := by
    intro hf
    have hfeed := feed_of_quiet reads.chunks ((quiet_iff_frameCut hg.closed hg.untagged hn.toFramedNotification hs).2 hf)
    have hsplit : splitOn eom reads.chunks.flatten = ([g, n], []) := by
      rw [Reads.stream] at hs
      have := Search.splitOn_cons eom_ne_nil hn.closed []
      rw [List.append_nil, Search.splitOn_of_none (l := []) rfl] at this
      rw [hs, Search.splitOn_cons eom_ne_nil hg.closed, this]
    rw [hfeed, hsplit]
    rfl
  refine ⟨⟨fun hkept => ?_, fun hf => ?_⟩, hsegs⟩
  · have hr := hkept.2
    rw [hevents] at hr
    refine (quiet_iff_frameCut hg.closed hg.untagged hn.toFramedNotification hs).1 ((feed_frames_iff _).1 ?_)
    intro seg hseg
    refine isFrame_of_report env.xml g.length (fun ρ hρ => ?_)
    have hmem := List.mem_filterMap.2 ⟨seg, hseg, hρ⟩
    rw [hr] at hmem
    exact List.mem_singleton.1 hmem
  · unfold FrameKept
    rw [hitems, hevents, hsegs hf]
    simp [Segment.offer, Segment.report, Segment.diagnosis, Segment.bytes, hg.notBlank, hg.malformed,
      not_blank_of_valid hn.valid, hn.valid]

end Kept

/-- **Two cuts of the stream agree, and keep the frame, exactly when each of them keeps it.** -/
theorem frame_kept_alike_iff (env : CallbackEnv) (hu : env.cfg.notifQueueSize < 0) (q : NotifQueue) (g n : Bytes)
    (hg : MalformedFrame env.xml g) (hn : WellFormedNotification env.xml n) (reads reads' : Reads)
    (hs : reads.stream = g ++ eom ++ (n ++ eom)) (hs' : reads'.stream = g ++ eom ++ (n ++ eom)) :
    ((readAll env q reads).sink.queue.items = (readAll env q reads').sink.queue.items ∧
      (readAll env q reads).sink.eventsToEmit = (readAll env q reads').sink.eventsToEmit ∧
      FrameKept env q g n reads) ↔ FrameCut g reads.chunks ∧ FrameCut g reads'.chunks := by
  obtain ⟨hkept, hsegs⟩ := frameKept_iff_feed hu q hg hn hs
  obtain ⟨hkept', hsegs'⟩ := frameKept_iff_feed hu q hg hn hs'
  constructor
  · rintro ⟨hitems, hevents, hk⟩
    refine ⟨hkept.1 hk, hkept'.1 ?_⟩
    unfold FrameKept at hk ⊢
    rwa [hitems, hevents] at hk
  · rintro ⟨hf, hf'⟩
    have hsink : (readAll env q reads).sink = (readAll env q reads').sink := by
      obtain ⟨-, -, h⟩ := runRx_reads env reads { sink := Sink.fresh q } rfl
      obtain ⟨-, -, h'⟩ := runRx_reads env reads' { sink := Sink.fresh q } rfl
      rw [readAll, readAll, h, h']
      simp only
      rw [hsegs hf, hsegs' hf']
    exact ⟨by rw [hsink], by rw [hsink], hkept.2 hf⟩

/-- A frame that is no notification, and a notification behind it. -/
def helloFrame : Bytes := ascii "<hello/>"

def helloEnv : CallbackEnv :=
  defaultEnv [(helloFrame, [.element (ascii "hello") []]),
    (notificationB, [.element notificationName [.element (ascii "b") []]])]

theorem helloFrame_malformed : MalformedFrame helloEnv.xml helloFrame where
  notBlank := by decide +kernel
  untagged := by decide +kernel
  closed := by decide +kernel
  malformed := by decide +kernel

theorem notificationB_wellFormed : WellFormedNotification helloEnv.xml notificationB where
  toFramedNotification := notificationB_complete.framed
  valid := by decide +kernel
  inner := notificationB_complete.inner

/-- One read for each frame. -/
def apartReads : Reads := [(helloFrame ++ eom, 0), (notificationB ++ eom, 1)]

/-- One read for both. -/
def wholeReads : Reads := [(helloFrame ++ eom ++ (notificationB ++ eom), 0)]

theorem frame_kept_alike_iff_hello :
    ((readAll helloEnv {} apartReads).sink.queue.items = (readAll helloEnv {} wholeReads).sink.queue.items ∧
      (readAll helloEnv {} apartReads).sink.eventsToEmit = (readAll helloEnv {} wholeReads).sink.eventsToEmit ∧
      FrameKept helloEnv {} helloFrame notificationB apartReads) ↔
    FrameCut helloFrame apartReads.chunks ∧ FrameCut helloFrame wholeReads.chunks :=
  frame_kept_alike_iff helloEnv (by decide) {} helloFrame notificationB helloFrame_malformed notificationB_wellFormed
    apartReads wholeReads (by decide +kernel) (by decide +kernel)

/-- **The frame is kept or dropped as the stream is cut**: alone in its read it is queued and reported as malformed, with
the notification behind it in the same read it is dropped as an orphan prefix. -/
theorem frame_not_kept_alike : MalformedFrame helloEnv.xml helloFrame ∧
    WellFormedNotification helloEnv.xml notificationB ∧
    apartReads.stream = helloFrame ++ eom ++ (notificationB ++ eom) ∧
    wholeReads.stream = helloFrame ++ eom ++ (notificationB ++ eom) ∧
    (readAll helloEnv {} apartReads).sink.queue.items ≠ (readAll helloEnv {} wholeReads).sink.queue.items ∧
    (readAll helloEnv {} apartReads).sink.queue.items = [helloFrame ++ eom, notificationB ++ eom] ∧
    (readAll helloEnv {} wholeReads).sink.queue.items = [notificationB ++ eom] ∧
    (readAll helloEnv {} apartReads).sink.eventsToEmit.map (·.message) = [malformedFrameMessage] ∧
    (readAll helloEnv {} wholeReads).sink.eventsToEmit.map (·.message) = [orphanMessage] :=
  ⟨helloFrame_malformed, notificationB_wellFormed, by decide +kernel, by decide +kernel, by decide +kernel,
    by decide +kernel, by decide +kernel, by decide +kernel, by decide +kernel⟩

end PyNetX
