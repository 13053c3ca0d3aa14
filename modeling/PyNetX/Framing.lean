import PyNetX.Reads
/-!
# Framing — marked notifications under every fragmentation

A stream of notifications, each closed by its marker, comes out frame by frame exactly when no read cuts a longer tag
name down to `notification` where the parser looks (`framing_exact_iff`).  A cut inside `<notificationId>` is enough to
lose the framing (`framing_not_exact`).
-/
namespace PyNetX

open Search (find splitOn)
open Drain (drain feed)

/-- A payload: a valid document that its own marker closes, whose one start tag stands behind a benign prefix. -/
structure Payload (xml : XmlParser) (p : Bytes) : Prop where
  valid : isValidNotificationDocument xml p = true
  closed : find eom (p ++ eom) = some p.length
  tag : ∃ s, findNotificationStartTag p 0 = some s ∧ benignNotificationPrefix (p.take s) = true ∧
    findNotificationStartTag p (s + 1) = none

/-- The first start tag seen in `b`, if one is seen, is the one of `p`. -/
def SeesOwnTag (p b : Bytes) : Prop :=
  findNotificationStartTag b 0 = none ∨ findNotificationStartTag b 0 = findNotificationStartTag p 0

/-- No start tag is seen in `b` behind the first one. -/
def SeesOneTag (b : Bytes) : Prop :=
  ∀ s, findNotificationStartTag b 0 = some s → findNotificationStartTag b (s + 1) = none

/-- The cuts are harmless: after each read, neither the buffer it was appended to nor what is left behind the last
marker shows a start tag that the payload under reception does not have there, and what is left shows no second one. -/
def CutsHarmless (ps chunks : List Bytes) : Prop :=
  ∀ pre r post, chunks = pre ++ r :: post →
    (∀ p, ps[(splitOn eom pre.flatten).1.length]? = some p → SeesOwnTag p (bufferAt pre r)) ∧
    ∀ p, ps[(splitOn eom (pre.flatten ++ r)).1.length]? = some p →
      SeesOwnTag p (splitOn eom (pre.flatten ++ r)).2 ∧ SeesOneTag (splitOn eom (pre.flatten ++ r)).2

/-- The stream came out frame by frame: the queue holds every payload with its marker, in order, no health event was
made, and nothing is left in the buffer. -/
def FramedExactly (env : CallbackEnv) (q : NotifQueue) (ps : List Bytes) (reads : Reads) : Prop :=
  (readAll env q reads).sink.queue.items = ps.map (· ++ eom) ∧
  (readAll env q reads).sink.eventsToEmit = [] ∧
  (readAll env q reads).rx.bytes = [] ∧ (readAll env q reads).rx.partialTimerActive = false

/-! ## What the orphan check sees -/

/-- **Of two points behind which a tag may stand, at most the first has a benign prefix.** -/
theorem benign_take_lt {t : Bytes} {i j : Nat} {next : UInt8} {rest : Bytes} (ht : t.drop i = chLt :: next :: rest)
    (hn : next ≠ chQuestion) (hij : i < j) (hi : benignNotificationPrefix (t.take i) = true) :
    benignNotificationPrefix (t.take j) = false := by
  have hsplit : t.take j = t.take i ++ chLt :: (next :: rest).take (j - i - 1) := by
    obtain ⟨k, rfl⟩ : ∃ k, j = i + (k + 1) := ⟨j - i - 1, by omega⟩
    rw [List.take_add, ht, List.take_succ_cons, show i + (k + 1) - i - 1 = k by omega]
  by_contra hj
  rw [hsplit, Bool.not_eq_false] at hj
  obtain ⟨b', hb'⟩ := benign_append_lt hi hj
  cases hk : j - i - 1 with
  | zero => rw [hk] at hb'; cases hb'
  | succ k =>
    rw [hk, List.take_succ_cons] at hb'
    exact hn (List.cons.inj hb').1

theorem drop_of_front {b t : Bytes} {k : Nat} {x y : UInt8} {l : Bytes} (h : b <+: t)
    (hb : b.drop k = x :: y :: l) : ∃ l', t.drop k = x :: y :: l' := by
  obtain ⟨z, rfl⟩ := h
  have hk : k ≤ b.length := by
    by_contra hn
    rw [List.drop_eq_nil_of_le (by omega)] at hb
    cases hb
  exact ⟨l ++ z, by rw [List.drop_append_of_le_length hk, hb]; rfl⟩

theorem take_of_front {b t : Bytes} {k : Nat} (h : b <+: t) (hk : k ≤ b.length) : t.take k = b.take k := by
  obtain ⟨z, rfl⟩ := h
  exact List.take_append_of_le_length hk

/-- **The orphan check passes over a buffer exactly when the tag seen first is the payload's own.** -/
theorem orphanPrefix_eq_none_iff {p b y : Bytes} {s : Nat} (hs : findNotificationStartTag p 0 = some s)
    (hben : benignNotificationPrefix (p.take s) = true) (hb : b <+: p ++ y) :
    orphanPrefix b = none ↔ SeesOwnTag p b := by
  unfold SeesOwnTag
  rw [hs]
  have hsp := findNotificationStartTag_lt hs
  have hpy : p <+: p ++ y := List.prefix_append p y
  constructor
  · intro ho
    cases hf : findNotificationStartTag b 0 with
    | none => exact Or.inl rfl
    | some f =>
      have hfb := findNotificationStartTag_lt hf
      -- what the check lets pass is benign
      have hbf : benignNotificationPrefix ((p ++ y).take f) = true := by
        rw [take_of_front hb (by omega)]
        cases f with
        | zero => rfl
        | succ f =>
          simp only [orphanPrefix, hf] at ho
          split at ho
          · cases ho
          · rename_i hc
            by_contra hn
            exact hc ⟨by omega, hn⟩
      have hbs : benignNotificationPrefix ((p ++ y).take s) = true := by rwa [take_of_front hpy (by omega)]
      refine Or.inr (congrArg some ?_)
      rcases Nat.lt_trichotomy f s with hlt | heq | hgt
      · obtain ⟨next, rest, hd, -, -, hq⟩ := (findNotificationStartTag_eq_some hf).2.bytes
        obtain ⟨rest', hd'⟩ := drop_of_front hb hd
        rw [benign_take_lt hd' hq hlt hbf] at hbs
        cases hbs
      · exact heq
      · obtain ⟨next, rest, hd, -, -, hq⟩ := (findNotificationStartTag_eq_some hs).2.bytes
        obtain ⟨rest', hd'⟩ := drop_of_front hpy hd
        rw [benign_take_lt hd' hq hgt hbs] at hbf
        cases hbf
  · rintro (hf | hf)
    · simp only [orphanPrefix, hf]
    · have hfb := findNotificationStartTag_lt hf
      have htake : b.take s = p.take s := by
        rw [← take_of_front hb (by omega), take_of_front hpy (by omega)]
      simp only [orphanPrefix, hf, htake, hben]
      rw [if_neg (by simp)]

/-! ## What the look-ahead sees -/

theorem scan_behind_close {p v : Bytes} {s e : Nat} (hs2 : findNotificationStartTag p (s + 1) = none)
    (hv : v <+: p) (he : notificationEndAfterStart v s = some e) :
    findNotificationStartTag v (s + 1) = findNotificationStartTag v e := by
  obtain ⟨a, c, hac, hae, hsa⟩ := notificationEndAfterStart_eq_some he
  rw [hac] at hv ⊢
  rw [findNotificationStartTag_of_front (by decide) hv hsa hs2, hae]

/-- **The look-ahead passes over a buffer exactly when it sees no second start tag.** -/
theorem lookahead_eq_none_iff {p v : Bytes} {s : Nat} (hs2 : findNotificationStartTag p (s + 1) = none) (hv : v <+: p)
    (hf : findNotificationStartTag v 0 = some s) :
    lookahead v = none ↔ findNotificationStartTag v (s + 1) = none := by
  simp only [lookahead, hf]
  cases he : notificationEndAfterStart v s with
  | none => simp
  | some e => simp [scan_behind_close hs2 hv he]

/-! ## The stream, from a frame's boundary on -/

/-- **What is left behind the last marker is the front of the payloads not yet complete.** -/
theorem rest_of_stream {ps : List Bytes} (hps : ∀ p ∈ ps, find eom (p ++ eom) = some p.length) {w x : Bytes}
    (hw : w ++ x = ps.flatMap (· ++ eom)) :
    (splitOn eom w).2 ++ x = (ps.drop (splitOn eom w).1.length).flatMap (· ++ eom) := by
  have hwhole := Search.splitOn_flatMap eom_ne_nil ps [] hps
  rw [List.append_nil, ← hw, Search.splitOn_append eom_ne_nil, Search.splitOn_of_none (l := []) rfl,
    List.append_nil] at hwhole
  obtain ⟨hfs, hrest⟩ := Prod.mk.inj hwhole
  have hcons := Search.splitOn_conserves eom_ne_nil ((splitOn eom w).2 ++ x)
  rw [hrest, List.append_nil] at hcons
  rw [← hcons, ← hfs, List.drop_left]

/-- **Payload by payload**: what is left is empty, or the front of the payload under reception, its marker and more. -/
theorem rest_cases {ps : List Bytes} (hps : ∀ p ∈ ps, find eom (p ++ eom) = some p.length) {w x : Bytes}
    (hw : w ++ x = ps.flatMap (· ++ eom)) :
    (ps[(splitOn eom w).1.length]? = none ∧ (splitOn eom w).2 ++ x = []) ∨
      ∃ p y, ps[(splitOn eom w).1.length]? = some p ∧ (splitOn eom w).2 ++ x = p ++ eom ++ y := by
  rw [rest_of_stream hps hw]
  cases hd : ps.drop (splitOn eom w).1.length with
  | nil =>
    refine Or.inl ⟨?_, rfl⟩
    rw [List.getElem?_eq_none_iff]
    exact List.drop_eq_nil_iff.1 hd
  | cons p ps' =>
    refine Or.inr ⟨p, ps'.flatMap (· ++ eom), ?_, rfl⟩
    rw [← Nat.add_zero (splitOn eom w).1.length, ← List.getElem?_drop, hd]
    rfl

theorem prefix_of_unmarked {p y v : Bytes} (hp : find eom (p ++ eom) = some p.length) (hv : v <+: p ++ eom ++ y)
    (hfree : find eom v = none) : v <+: p ++ eom := by
  rcases Nat.le_total v.length (p ++ eom).length with hle | hle
  · exact List.prefix_of_prefix_length_le hv (List.prefix_append _ y) hle
  · obtain ⟨z, rfl⟩ := List.prefix_of_prefix_length_le (List.prefix_append (p ++ eom) y) hv hle
    rw [Search.find_append z hp] at hfree
    cases hfree

theorem quiet_nil : Quiet [] := ⟨rfl, rfl, rfl⟩

/-- **One read of the stream**: its buffer is quiet exactly when its cut is harmless. -/
theorem quiet_iff {xml : XmlParser} {ps : List Bytes} (hps : ∀ p ∈ ps, Payload xml p) {pre : List Bytes} {r x : Bytes}
    (hw : pre.flatten ++ (r ++ x) = ps.flatMap (· ++ eom)) :
    Quiet (bufferAt pre r) ↔
      (∀ p, ps[(splitOn eom pre.flatten).1.length]? = some p → SeesOwnTag p (bufferAt pre r)) ∧
      ∀ p, ps[(splitOn eom (pre.flatten ++ r)).1.length]? = some p →
        SeesOwnTag p (splitOn eom (pre.flatten ++ r)).2 ∧ SeesOneTag (splitOn eom (pre.flatten ++ r)).2 := by
  have hclosed : ∀ p ∈ ps, find eom (p ++ eom) = some p.length := fun p hp => (hps p hp).closed
  -- the orphan check, on the whole buffer
  have hfront : orphanPrefix (bufferAt pre r) = none ↔
      ∀ p, ps[(splitOn eom pre.flatten).1.length]? = some p → SeesOwnTag p (bufferAt pre r) := by
    obtain ⟨hnone, hnil⟩ | ⟨p, y, hp, hpy⟩ := rest_cases hclosed hw
    · rw [← List.append_assoc] at hnil
      have hb : bufferAt pre r = [] := (List.append_eq_nil_iff.1 hnil).1
      rw [hnone, hb]
      exact ⟨fun _ p hp => (by cases hp), fun _ => rfl⟩
    · obtain ⟨s, hs, hben, -⟩ := (hps p (List.mem_of_getElem? hp)).tag
      have hb : bufferAt pre r <+: p ++ (eom ++ y) :=
        ⟨x, by rw [bufferAt, List.append_assoc, hpy, List.append_assoc]⟩
      rw [hp, orphanPrefix_eq_none_iff hs hben hb]
      exact ⟨fun h p' hp' => by cases hp'; exact h, fun h => h p rfl⟩
  -- both checks, on what is left behind the last marker
  have hback : (orphanPrefix (splitOn eom (bufferAt pre r)).2 = none ∧ lookahead (splitOn eom (bufferAt pre r)).2 = none) ↔
      ∀ p, ps[(splitOn eom (pre.flatten ++ r)).1.length]? = some p →
        SeesOwnTag p (splitOn eom (pre.flatten ++ r)).2 ∧ SeesOneTag (splitOn eom (pre.flatten ++ r)).2 := by
    rw [← splitOn_bufferAt]
    rw [← List.append_assoc] at hw
    have hfree := Search.splitOn_rest eom_ne_nil (pre.flatten ++ r)
    obtain ⟨hnone, hnil⟩ | ⟨p, y, hp, hpy⟩ := rest_cases hclosed hw
    · rw [hnone, (List.append_eq_nil_iff.1 hnil).1]
      exact ⟨fun _ p hp => (by cases hp), fun _ => ⟨rfl, rfl⟩⟩
    · obtain ⟨s, hs, hben, hs2⟩ := (hps p (List.mem_of_getElem? hp)).tag
      have hv := prefix_of_unmarked (hclosed p (List.mem_of_getElem? hp)) ⟨x, hpy⟩ hfree
      have hs2' : findNotificationStartTag (p ++ eom) (s + 1) = none := by
        have := findNotificationStartTag_append_eom (by have := findNotificationStartTag_lt hs; omega) hs2 []
        rwa [List.append_nil] at this
      generalize (splitOn eom (pre.flatten ++ r)).2 = v at hv ⊢
      rw [hp, orphanPrefix_eq_none_iff hs hben hv]
      constructor
      · rintro ⟨hown, hl⟩ p' hp'
        cases hp'
        refine ⟨hown, fun s' hs' => ?_⟩
        have hse : s' = s := by
          rcases hown with h | h
          · rw [h] at hs'; cases hs'
          · rw [h, hs] at hs'; exact (Option.some.inj hs').symm
        subst hse
        exact (lookahead_eq_none_iff hs2' hv hs').1 hl
      · intro h
        obtain ⟨hown, hsecond⟩ := h p rfl
        refine ⟨hown, ?_⟩
        rcases hown with hf | hf
        · simp only [lookahead, hf]
        · rw [hs] at hf
          exact (lookahead_eq_none_iff hs2' hv hf).2 (hsecond s hf)
  unfold Quiet
  rw [hfront, hback]

/-! ## The stream comes out frame by frame -/

theorem not_blank_of_valid {xml : XmlParser} {p : Bytes} (h : isValidNotificationDocument xml p = true) :
    ¬ Blank p := by
  intro hb
  unfold isValidNotificationDocument at h
  rw [(trimCopy_eq_nil_iff p).2 hb] at h
  cases h

theorem report_eq_none_iff (xml : XmlParser) (seg : Segment) : seg.report xml = none ↔
    ∃ f, seg = .frame f ∧ ¬ Blank f ∧ isValidNotificationDocument xml f = true := by
  unfold Segment.report
  rw [Option.map_eq_none_iff]
  cases seg with
  | frame f =>
    simp only [Segment.diagnosis, Segment.frame.injEq, exists_eq_left']
    by_cases hb : Blank f
    · simp [hb]
    · simp [hb]
  | _ => simp [Segment.diagnosis]

/-- **A stream of marked payloads comes out frame by frame exactly when its cuts are harmless.** -/
theorem framing_exact_iff (env : CallbackEnv) (hu : env.cfg.notifQueueSize < 0) (q : NotifQueue) (ps : List Bytes)
    (hps : ∀ p ∈ ps, Payload env.xml p) (reads : Reads) (hs : reads.stream = ps.flatMap (· ++ eom)) :
    FramedExactly env q ps reads ↔ CutsHarmless ps reads.chunks := by
  obtain ⟨hitems, hevents, hbytes, htimer⟩ := readAll_eq hu q reads
  have hcuts : CutsHarmless ps reads.chunks ↔
      ∀ pre r post, reads.chunks = pre ++ r :: post → Quiet (bufferAt pre r) := by
    unfold CutsHarmless
    refine forall_congr' fun pre => forall_congr' fun r => forall_congr' fun post => forall_congr' fun h => ?_
    refine (quiet_iff hps (x := post.flatten) ?_).symm
    rw [← hs, Reads.stream, h, List.flatten_append, List.flatten_cons]
  rw [hcuts, ← feed_frames_iff]
  constructor
  · rintro ⟨-, hnone, -, -⟩ seg hseg
    rw [hnone, List.map_nil, eq_comm, List.filterMap_eq_nil_iff] at hevents
    obtain ⟨f, rfl, -, -⟩ := (report_eq_none_iff env.xml seg).1 (hevents seg hseg)
    rfl
  · intro hframes
    have hfeed := feed_of_quiet reads.chunks ((feed_frames_iff reads.chunks).1 hframes)
    have hsplit : splitOn eom reads.chunks.flatten = (ps, []) := by
      have := Search.splitOn_flatMap eom_ne_nil ps [] (fun p hp => (hps p hp).closed)
      rw [List.append_nil, ← hs, Search.splitOn_of_none (l := []) rfl, List.append_nil] at this
      exact this
    rw [hsplit] at hfeed
    rw [hfeed] at hitems hevents hbytes
    refine ⟨?_, ?_, hbytes, ?_⟩
    · rw [hitems, List.filterMap_map, ← List.filterMap_eq_map]
      refine List.filterMap_congr fun p hp => ?_
      simp only [Function.comp_apply, Segment.offer, if_neg (not_blank_of_valid (hps p hp).valid)]
    · rw [← List.map_eq_nil_iff, hevents, List.filterMap_map, List.filterMap_eq_nil_iff]
      intro p hp
      exact (report_eq_none_iff env.xml _).2 ⟨p, rfl, not_blank_of_valid (hps p hp).valid, (hps p hp).valid⟩
    · rw [htimer, hbytes]
      rfl

/-- A client with every default, whose XML parser knows the documents `docs`. -/
def defaultEnv (docs : List (Bytes × List XmlNode)) : CallbackEnv where
  cfg := defaultClient
  xml := fun b => (docs.find? (fun d => d.1 = b)).map Prod.snd
  fd := 5

/-- A notification with an element whose name goes on behind `notification`. -/
def idPayload : Bytes := ascii "<notification><notificationId/></notification>"

def idEnv : CallbackEnv :=
  defaultEnv [(idPayload, [.element notificationName [.element (ascii "notificationId") []]])]

theorem idPayload_payload : Payload idEnv.xml idPayload where
  valid := by decide +kernel
  closed := by decide +kernel
  tag := ⟨0, by decide +kernel, by decide +kernel, by decide +kernel⟩

/-- Two notifications in four reads: cut in a close tag, in a marker, and behind a start tag's name. -/
def twoReads : Reads :=
  [(ascii "<notification><notificationId/></notif", 0), (ascii "ication>]]>", 1), (ascii "]]><notification", 2),
    (ascii "><notificationId/></notification>]]>]]>", 3)]

theorem framing_exact_iff_pieces : FramedExactly idEnv {} [idPayload, idPayload] twoReads ∧
    CutsHarmless [idPayload, idPayload] twoReads.chunks := by
  have hps : ∀ p ∈ [idPayload, idPayload], Payload idEnv.xml p := by
    intro p hp
    rw [show p = idPayload by simpa using hp]
    exact idPayload_payload
  have hiff := framing_exact_iff idEnv (by decide) {} [idPayload, idPayload] hps twoReads (by decide +kernel)
  have hexact : FramedExactly idEnv {} [idPayload, idPayload] twoReads := by
    unfold FramedExactly
    exact ⟨by decide +kernel, by decide +kernel, by decide +kernel, by decide +kernel⟩
  exact ⟨hexact, hiff.1 hexact⟩

/-- The stream of one notification, cut behind the `<notification` of its `<notificationId`. -/
def idReads : Reads := [(ascii "<notification><notification", 0), (ascii "Id/></notification>]]>]]>", 1)]

/-- **A cut inside a longer tag name breaks the framing**: the notification comes out as an abandoned partial and a
malformed frame. -/
theorem framing_not_exact : Payload idEnv.xml idPayload ∧ idReads.stream = [idPayload].flatMap (· ++ eom) ∧
    ¬ FramedExactly idEnv {} [idPayload] idReads ∧
    (readAll idEnv {} idReads).sink.queue.items =
      [ascii "<notification>", ascii "<notificationId/></notification>]]>]]>"] ∧
    (readAll idEnv {} idReads).sink.eventsToEmit.map (·.type) = [.incompleteNotification, .malformedNotification] := by
  have hitems : (readAll idEnv {} idReads).sink.queue.items =
      [ascii "<notification>", ascii "<notificationId/></notification>]]>]]>"] := by decide +kernel
  refine ⟨idPayload_payload, by decide +kernel, fun h => ?_, hitems, by decide +kernel⟩
  have hone := congrArg List.length h.1
  rw [hitems] at hone
  exact absurd hone (by decide)

end PyNetX
