import PyNetX.Framing
/-!
# WhiteSpace — white space between the frames of a stream

Behind a marker a device may send white space.  The parser leaves it in the receive buffer, where it is the benign front
of the next notification; but it starts the partial timer, and a guard that fires takes it for an incomplete
notification.  `spaces_delivered_iff` says when the notifications come out, each once and nothing else.
-/
namespace PyNetX

open Search (find splitOn)
open Drain (drain)
open Run (run Along)

/-- A notification by itself: a valid document whose own marker closes it, with one start tag, at its front. -/
structure Notification (xml : XmlParser) (n : Bytes) : Prop where
  valid : isValidNotificationDocument xml n = true
  closed : find eom (n ++ eom) = some n.length
  front : findNotificationStartTag n 0 = some 0
  single : findNotificationStartTag n 1 = none
  ended : chGt ∈ n

/-- The stream: notifications, each with its marker and the white space behind that. -/
def spaced (fs : List (Bytes × Bytes)) : Bytes := fs.flatMap (fun f => f.1 ++ eom ++ f.2)

/-- The notifications, each behind the white space in front of it; `lead` is in front of the first. -/
def withLead (lead : Bytes) : List (Bytes × Bytes) → List Bytes
  | [] => []
  | (n, ws) :: fs => (lead ++ n) :: withLead ws fs

/-- The white space behind the last marker. -/
def lastSpace (lead : Bytes) : List (Bytes × Bytes) → Bytes
  | [] => lead
  | (_, ws) :: fs => lastSpace ws fs

/-- An event of a malformed or an incomplete notification has been made. -/
def Sink.Faulty (s : Sink) : Prop :=
  ∃ e ∈ s.eventsToEmit, e.type = .malformedNotification ∨ e.type = .incompleteNotification

/-- The queue was given one entry for each notification, in order, which is the notification with its marker up to white
space in front, and nothing else; and no event was made of a malformed or an incomplete notification. -/
def DeliveredOnce (env : CallbackEnv) (q : NotifQueue) (fs : List (Bytes × Bytes)) (c : Callback) : Prop :=
  c.sink = (withLead [] fs).foldl (fun s n => enqueueOrDropLocked env.cfg env.fd (n ++ eom) 0 s) (Sink.fresh q) ∧
  ¬ c.sink.Faulty

/-- Behind the bytes `w`, a section leaves white space alone: what a read leaves behind the last marker shows at most one
start tag, and a guard fires only when nothing is left there. -/
def RxOp.LeavesSpace (w : Bytes) : RxOp → Prop
  | .read bytes _ => SeesOneTag (splitOn eom (w ++ bytes)).2
  | .guard _ => (splitOn eom w).2 = []
  | .between _ => True

/-- Every section of the run does. -/
def Undisturbed (ops : List RxOp) : Prop := Along (fun w op => w ++ op.received) RxOp.LeavesSpace [] ops

/-! ## White space in front of a notification -/

variable {xml : XmlParser} {env : CallbackEnv} {ws n : Bytes}

theorem not_mem_of_blank {c : UInt8} (hws : Blank ws) (hc : isSpace c = false) : c ∉ ws := fun hmem => by
  rw [hws c hmem] at hc
  cases hc

theorem trimCopy_blank_append (hws : Blank ws) (n : Bytes) : trimCopy (ws ++ n) = trimCopy n := by
  rw [trimCopy, trimCopy, List.dropWhile_append_of_pos hws]

theorem find_blank_append (hws : Blank ws) (n : Bytes) : find eom (ws ++ n) = (find eom n).map (· + ws.length) := by
  refine Search.find_append_foreign eom_ne_nil n fun c hc hmem => ?_
  rcases mem_eom.1 hmem with rfl | rfl
  · exact not_mem_of_blank hws (by decide) hc
  · exact not_mem_of_blank hws (by decide) hc

theorem scan_blank_append (hws : Blank ws) (n : Bytes) : scan (ws ++ n) = (scan n).map (· + ws.length) :=
  scan_append_of_not_mem (not_mem_of_blank hws (by decide)) n

/-- **White space in front of a notification is a payload's benign front.** -/
theorem Notification.payload (h : Notification xml n) (hws : Blank ws) : Payload xml (ws ++ n) where
  valid := by
    have hvalid := h.valid
    unfold isValidNotificationDocument at hvalid ⊢
    rwa [trimCopy_blank_append hws]
  closed := by
    rw [List.append_assoc, find_blank_append hws, h.closed, List.length_append, Nat.add_comm]
    rfl
  tag := by
    have hfront := h.front
    rw [findNotificationStartTag_zero] at hfront
    refine ⟨ws.length, ?_, ?_, ?_⟩
    · rw [findNotificationStartTag_zero, scan_blank_append hws, hfront, Option.map_some, Nat.zero_add]
    · rw [List.take_left, benignNotificationPrefix_iff]
      exact Or.inl hws
    · rw [findNotificationStartTag_shift, h.single]
      rfl

/-- **Behind white space the notification's own tag is the first that is seen**, wherever the buffer ends. -/
theorem Notification.seesOwnTag (h : Notification xml n) (hws : Blank ws) {b y : Bytes} (hb : b <+: ws ++ n ++ y) :
    SeesOwnTag (ws ++ n) b := by
  have hfront := h.front
  rw [findNotificationStartTag_zero] at hfront
  unfold SeesOwnTag
  rw [findNotificationStartTag_zero, findNotificationStartTag_zero, scan_blank_append hws, hfront]
  rw [List.append_assoc] at hb
  rcases Nat.le_total b.length ws.length with hle | hle
  · -- the buffer ends in the white space
    have hbws := List.prefix_of_prefix_length_le hb (List.prefix_append ws _) hle
    have hnone := scan_append_of_not_mem (fun hmem => not_mem_of_blank hws (by decide) (hbws.subset hmem)) (b := b) []
    rw [List.append_nil] at hnone
    exact Or.inl hnone
  · obtain ⟨v, rfl⟩ := List.prefix_of_prefix_length_le (List.prefix_append ws _) hb hle
    rw [List.prefix_append_right_inj] at hb
    rw [scan_blank_append hws]
    obtain ⟨rest, hn, hname, hlocal⟩ := scan_eq_some hfront
    rw [List.drop_zero] at hn
    -- the name of the tag ends inside the notification
    have hgt : chGt ∈ rest := (List.mem_cons.1 (hn ▸ h.ended)).resolve_left (by decide)
    obtain ⟨hall, -⟩ | ⟨d, r, hd, hr⟩ := tagName_split hname
    · exact absurd (hall chGt hgt) (by decide)
    · have hsame : tagName (rest ++ y) = tagName rest := by
        rw [hr, List.append_assoc, List.cons_append, tagName_append hd, tagName_append hd]
      rw [hn, List.cons_append] at hb
      have hscan := scan_of_front (hsame ▸ hname) (hsame ▸ hlocal) (fun he => ?_) hb
      · exact hscan.imp (fun hs => by rw [hs]; rfl) (fun hs => by rw [hs])
      · rw [hsame] at he
        have hlong := congrArg List.length he
        have hshort := congrArg List.length hr
        simp only [List.length_append, List.length_cons] at hlong hshort
        omega

/-! ## The stream as payloads -/

theorem mem_withLead {p : Bytes} : ∀ {fs : List (Bytes × Bytes)} {lead : Bytes}, Blank lead →
    (∀ f ∈ fs, Notification xml f.1 ∧ Blank f.2) → p ∈ withLead lead fs →
      ∃ ws n, Blank ws ∧ Notification xml n ∧ p = ws ++ n
  | [], _, _, _, hp => by cases hp
  | f :: fs, lead, hlead, hfs, hp => by
    obtain ⟨hn, hws⟩ := hfs f List.mem_cons_self
    rcases List.mem_cons.1 hp with rfl | hp
    · exact ⟨lead, f.1, hlead, hn, rfl⟩
    · exact mem_withLead hws (fun g hg => hfs g (List.mem_cons_of_mem f hg)) hp

theorem lead_append_spaced : ∀ (fs : List (Bytes × Bytes)) (lead : Bytes),
    lead ++ spaced fs = (withLead lead fs).flatMap (· ++ eom) ++ lastSpace lead fs
  | [], lead => by simp [spaced, withLead, lastSpace]
  | (n, ws) :: fs, lead => by
    have ih := lead_append_spaced fs ws
    have hcons : spaced ((n, ws) :: fs) = n ++ eom ++ (ws ++ spaced fs) := by simp [spaced]
    rw [hcons, ih, withLead, List.flatMap_cons, lastSpace]
    simp only [List.append_assoc]

theorem blank_lastSpace : ∀ {fs : List (Bytes × Bytes)} {lead : Bytes}, Blank lead → (∀ f ∈ fs, Blank f.2) →
    Blank (lastSpace lead fs)
  | [], _, hlead, _ => hlead
  | (n, ws) :: fs, _, _, hfs => by
    rw [lastSpace]
    exact blank_lastSpace (hfs (n, ws) List.mem_cons_self) (fun g hg => hfs g (List.mem_cons_of_mem _ hg))

/-- The frames of the whole stream. -/
theorem splitOn_spaced {fs : List (Bytes × Bytes)} (hfs : ∀ f ∈ fs, Notification xml f.1 ∧ Blank f.2) :
    splitOn eom (spaced fs) = (withLead [] fs, lastSpace [] fs) := by
  have hnil : Blank [] := fun c hc => by cases hc
  have hlast := blank_lastSpace hnil (fun f hf => (hfs f hf).2)
  have hnone : find eom (lastSpace [] fs) = none := by
    have := find_blank_append hlast []
    rwa [List.append_nil, Search.find_nil_of_ne_nil eom_ne_nil] at this
  rw [← List.nil_append (spaced fs), lead_append_spaced, Search.splitOn_flatMap eom_ne_nil, Search.splitOn_of_none hnone,
    List.append_nil]
  intro p hp
  obtain ⟨ws, n, hws, hn, rfl⟩ := mem_withLead hnil hfs hp
  exact (hn.payload hws).closed

/-- The stream goes on as one of payloads. -/
theorem exists_payloads {fs : List (Bytes × Bytes)} (hfs : ∀ f ∈ fs, Notification xml f.1 ∧ Blank f.2) :
    ∃ (ps : List Bytes) (x : Bytes), (∀ p ∈ ps, ∃ ws n, Blank ws ∧ Notification xml n ∧ p = ws ++ n) ∧
      spaced fs ++ x = ps.flatMap (· ++ eom) := by
  have hnil : Blank [] := fun c hc => by cases hc
  cases fs with
  | nil => exact ⟨[], [], nofun, rfl⟩
  | cons f fs =>
    have hlast := blank_lastSpace hnil (fun f hf => (hfs f hf).2)
    have hn := (hfs f List.mem_cons_self).1
    refine ⟨withLead [] (f :: fs) ++ [lastSpace [] (f :: fs) ++ f.1], f.1 ++ eom, fun p hp => ?_, ?_⟩
    · rcases List.mem_append.1 hp with hp | hp
      · exact mem_withLead hnil hfs hp
      · exact ⟨_, f.1, hlast, hn, List.mem_singleton.1 hp⟩
    · rw [List.flatMap_append, List.flatMap_singleton, ← List.nil_append (spaced _), lead_append_spaced]
      simp only [List.append_assoc]

/-- **A read of the stream is quiet exactly when it leaves no second start tag** behind the last marker. -/
theorem quiet_spaced_iff {fs : List (Bytes × Bytes)} (hfs : ∀ f ∈ fs, Notification xml f.1 ∧ Blank f.2)
    {pre : List Bytes} {r y : Bytes} (hs : pre.flatten ++ (r ++ y) = spaced fs) :
    Quiet (bufferAt pre r) ↔ SeesOneTag (splitOn eom (pre.flatten ++ r)).2 := by
  obtain ⟨ps, x, hps, hx⟩ := exists_payloads hfs
  have hpayload : ∀ p ∈ ps, Payload xml p := fun p hp => by
    obtain ⟨ws, n, hws, hn, rfl⟩ := hps p hp
    exact hn.payload hws
  have hclosed : ∀ p ∈ ps, find eom (p ++ eom) = some p.length := fun p hp => (hpayload p hp).closed
  have hown : ∀ {w z b p : Bytes}, w ++ z = ps.flatMap (· ++ eom) → ps[(splitOn eom w).1.length]? = some p →
      b <+: (splitOn eom w).2 ++ z → SeesOwnTag p b := by
    intro w z b p hw hp hb
    obtain ⟨hnone, -⟩ | ⟨p', tail, hp', htail⟩ := rest_cases hclosed hw
    · rw [hnone] at hp
      cases hp
    · obtain rfl := Option.some.inj (hp'.symm.trans hp)
      obtain ⟨ws, n, hws, hn, rfl⟩ := hps _ (List.mem_of_getElem? hp)
      exact hn.seesOwnTag hws (y := eom ++ tail) (by rwa [htail, List.append_assoc] at hb)
  rw [← hs, List.append_assoc, List.append_assoc] at hx
  rw [quiet_iff hpayload hx]
  have hx' : pre.flatten ++ r ++ (y ++ x) = ps.flatMap (· ++ eom) := by rw [List.append_assoc, hx]
  constructor
  · rintro ⟨-, hback⟩
    obtain ⟨-, hnil⟩ | ⟨p, -, hp, -⟩ := rest_cases hclosed hx'
    · rw [(List.append_eq_nil_iff.1 hnil).1]
      exact fun s hs => by cases hs
    · exact (hback p hp).2
  · intro hone
    refine ⟨fun p hp => hown hx hp ?_, fun p hp => ⟨hown hx' hp (List.prefix_append _ _), hone⟩⟩
    rw [← List.append_assoc]
    exact List.prefix_append _ _

/-! ## Events -/

variable {s : Sink} {seg : Segment}

theorem enqueueOrDropLocked_faulty_iff (cfg : ClientConfig) (fd : Int) (n : Bytes) (d : Int) :
    (enqueueOrDropLocked cfg fd n d s).Faulty ↔ s.Faulty := by
  unfold enqueueOrDropLocked
  split
  · rfl
  split
  · simp only
    split
    · -- the event is one of a full queue
      simp only [Sink.Faulty, List.mem_append, List.mem_singleton, or_and_right, exists_or, exists_eq_left,
        makeNotificationHealthEventLocked]
      refine or_iff_left fun htype => ?_
      split at htype <;> simp at htype
    · rfl
  · rfl

theorem Segment.diagnosis_type {d : HealthEventType × String × Bool} (h : seg.diagnosis xml = some d) :
    d.1 = .malformedNotification ∨ d.1 = .incompleteNotification := by
  cases seg with
  | frame b =>
    simp only [Segment.diagnosis] at h
    split at h
    · obtain rfl := Option.some.inj h
      exact Or.inl rfl
    · split at h
      · cases h
      · obtain rfl := Option.some.inj h
        exact Or.inl rfl
  | orphan b | recovered b =>
    obtain rfl := Option.some.inj h
    exact Or.inl rfl
  | abandoned b | finalized g b =>
    obtain rfl := Option.some.inj h
    exact Or.inr rfl

/-- **A segment that is reported is reported as a fault.** -/
theorem Segment.effect_faulty_iff (env : CallbackEnv) (s : Sink) (seg : Segment) :
    (seg.effect env s).Faulty ↔ s.Faulty ∨ (seg.diagnosis env.xml).isSome := by
  have hnote : (seg.note env s).Faulty ↔ s.Faulty ∨ (seg.diagnosis env.xml).isSome := by
    unfold Segment.note
    cases hd : seg.diagnosis env.xml with
    | none => simp
    | some d =>
      obtain ⟨type, message, incomplete⟩ := d
      have htype := Segment.diagnosis_type hd
      refine iff_of_true ⟨_, List.mem_append_right _ List.mem_cons_self, htype⟩ (Or.inr rfl)
  unfold Segment.effect
  split
  · exact hnote
  · rw [enqueueOrDropLocked_faulty_iff, hnote]

theorem foldl_effect_faulty_iff (env : CallbackEnv) : ∀ (segs : List Segment) (s : Sink),
    (segs.foldl (Segment.effect env) s).Faulty ↔ s.Faulty ∨ ∃ seg ∈ segs, (seg.diagnosis env.xml).isSome
  | [], s => by simp
  | seg :: segs, s => by
    rw [List.foldl_cons, foldl_effect_faulty_iff env segs, Segment.effect_faulty_iff, or_assoc]
    simp

/-! ## Runs -/

/-- Behind the bytes `w`, a section takes nothing from the buffer but frames. -/
def RxOp.QuietAt (w : Bytes) : RxOp → Prop
  | .read bytes _ => Quiet ((splitOn eom w).2 ++ bytes)
  | .guard _ => (splitOn eom w).2 = []
  | .between _ => False

/-- Of the bytes `w` the frames have been taken, and nothing else. -/
def FramesTaken (env : CallbackEnv) (q : NotifQueue) (w : Bytes) (c : Callback) : Prop :=
  c.rx.bytes = (splitOn eom w).2 ∧ c.sink = ((splitOn eom w).1.map .frame).foldl (Segment.effect env) (Sink.fresh q)

variable {q : NotifQueue} {w : Bytes} {c : Callback} {op : RxOp} {ops : List RxOp}

theorem FramesTaken.step (h : FramesTaken env q w c) (hq : op.QuietAt w) :
    FramesTaken env q (w ++ op.received) (op.step env c) := by
  obtain ⟨hbytes, hsink⟩ := h
  cases op with
  | read bytes now =>
    have hdrain := Quiet.drain_eq hq
    simp only [FramesTaken, RxOp.step, RxOp.received, processRxBufferLocked_eq, Callback.append, hbytes, hdrain,
      Search.splitOn_append eom_ne_nil w bytes, List.map_append, List.foldl_append, hsink, and_self]
  | guard g =>
    have hnil : c.rx.bytes = [] := hbytes.trans hq
    simp only [FramesTaken, RxOp.step, RxOp.received, finalizeIncompleteLocked, if_pos hnil, List.append_nil]
    exact ⟨hbytes, hsink⟩
  | between f => exact hq.elim

theorem RxOp.step_faulty (hown : op.between? = none) (h : c.sink.Faulty) : (op.step env c).sink.Faulty := by
  cases op with
  | read bytes now =>
    rw [RxOp.step, processRxBufferLocked_eq]
    exact (foldl_effect_faulty_iff env _ _).2 (Or.inl h)
  | guard g =>
    simp only [RxOp.step, finalizeIncompleteLocked]
    split
    · exact h
    · rw [enqueueOrDropLocked_faulty_iff]
      obtain ⟨e, he, htype⟩ := h
      exact ⟨e, List.mem_append_left _ he, htype⟩
  | between f => cases hown

/-- **A section that takes something else is reported.** -/
theorem RxOp.faulty_of_not_quietAt (hbytes : c.rx.bytes = (splitOn eom w).2) (hown : op.between? = none)
    (hq : ¬ op.QuietAt w) : (op.step env c).sink.Faulty := by
  cases op with
  | read bytes now =>
    rw [RxOp.step, processRxBufferLocked_eq]
    refine (foldl_effect_faulty_iff env _ _).2 (Or.inr ?_)
    by_contra hnone
    refine hq (quiet_of_drain_frames fun seg hseg => ?_)
    have hseg' : seg ∈ (drain rxPass (c.append bytes).rx.bytes).1 := by rwa [Callback.append, hbytes]
    have hquiet : seg.diagnosis env.xml = none :=
      Option.not_isSome_iff_eq_none.1 fun hsome => hnone ⟨seg, hseg', hsome⟩
    cases seg with
    | frame b => rfl
    | _ => cases hquiet
  | guard g =>
    have hne : c.rx.bytes ≠ [] := by rwa [hbytes]
    simp only [RxOp.step, finalizeIncompleteLocked, if_neg hne, enqueueOrDropLocked_faulty_iff]
    exact ⟨_, List.mem_append_right _ List.mem_cons_self, Or.inr rfl⟩
  | between f => cases hown

theorem run_received (ops : List RxOp) :
    run (fun (w : Bytes) op => w ++ op.received) [] ops = ops.flatMap RxOp.received := by
  induction ops using List.reverseRecOn with
  | nil => rfl
  | append_singleton ops op ih =>
    rw [Run.run_concat, ih]
    simp

theorem runRx_concat (c : Callback) (ops : List RxOp) (op : RxOp) :
    runRx env c (ops ++ [op]) = op.step env (runRx env c ops) := by
  rw [runRx, List.foldl_append]
  rfl

/-- **A quiet run takes the frames of what it has received.** -/
theorem framesTaken_run (ops : List RxOp) (h : Along (fun w op => w ++ op.received) RxOp.QuietAt [] ops) :
    FramesTaken env q (ops.flatMap RxOp.received) (runRx env { sink := Sink.fresh q } ops) := by
  induction ops using List.reverseRecOn with
  | nil => exact ⟨rfl, rfl⟩
  | append_singleton ops op ih =>
    obtain ⟨hops, hop⟩ := Run.along_concat.1 h
    rw [run_received] at hop
    rw [runRx_concat, List.flatMap_append, List.flatMap_singleton]
    exact (ih hops).step hop

/-- **A run without a fault is quiet.** -/
theorem quiet_of_not_faulty (ops : List RxOp) (hown : ∀ op ∈ ops, op.between? = none)
    (h : ¬ (runRx env { sink := Sink.fresh q } ops).sink.Faulty) :
    Along (fun w op => w ++ op.received) RxOp.QuietAt [] ops := by
  induction ops using List.reverseRecOn with
  | nil => exact Run.along_nil
  | append_singleton ops op ih =>
    have hop := hown op (by simp)
    rw [runRx_concat] at h
    have hops := ih (fun op' hop' => hown op' (List.mem_append_left _ hop')) (fun hf => h (RxOp.step_faulty hop hf))
    refine Run.along_concat.2 ⟨hops, ?_⟩
    rw [run_received]
    by_contra hq
    exact h (RxOp.faulty_of_not_quietAt (framesTaken_run (q := q) ops hops).1 hop hq)

/-! ## Each notification once -/

theorem withLead_effect {fs : List (Bytes × Bytes)} (hfs : ∀ f ∈ fs, Notification env.xml f.1 ∧ Blank f.2) (s : Sink) :
    ((withLead [] fs).map .frame).foldl (Segment.effect env) s =
      (withLead [] fs).foldl (fun s n => enqueueOrDropLocked env.cfg env.fd (n ++ eom) 0 s) s := by
  rw [List.foldl_map]
  refine List.foldl_ext _ _ _ fun s p hp => ?_
  obtain ⟨ws, n, hws, hn, rfl⟩ := mem_withLead (fun c hc => by cases hc) hfs hp
  have hvalid := (hn.payload hws).valid
  simp only [Segment.effect, Segment.note, Segment.offer, Segment.diagnosis, if_neg (not_blank_of_valid hvalid), hvalid]
  rfl

/-- **The notifications come out each once, and nothing else does**, exactly when no guard fires while white space is left
behind the last marker and no read ends in a tag's name where that is cut down to `notification`. -/
theorem spaces_delivered_iff (env : CallbackEnv) (q : NotifQueue) (fs : List (Bytes × Bytes))
    (hfs : ∀ f ∈ fs, Notification env.xml f.1 ∧ Blank f.2) (ops : List RxOp) (hown : ∀ op ∈ ops, op.between? = none)
    (hs : ops.flatMap RxOp.received = spaced fs) :
    DeliveredOnce env q fs (runRx env { sink := Sink.fresh q } ops) ↔ Undisturbed ops := by
  have hquiet : Along (fun w op => w ++ op.received) RxOp.QuietAt [] ops ↔ Undisturbed ops := by
    refine forall_congr' fun pre => forall_congr' fun op => forall_congr' fun post => forall_congr' fun hops => ?_
    rw [run_received]
    cases op with
    | read bytes now =>
      have hcut : (pre.map RxOp.received).flatten ++ (bytes ++ post.flatMap RxOp.received) = spaced fs := by
        rw [← hs, hops, List.flatMap_append, List.flatMap_cons]
        rfl
      exact quiet_spaced_iff hfs hcut
    | guard g => exact Iff.rfl
    | between f =>
      have hbetween := hown (.between f) (by rw [hops]; simp)
      cases hbetween
  rw [← hquiet]
  constructor
  · rintro ⟨-, hsound⟩
    exact quiet_of_not_faulty ops hown hsound
  · intro h
    have hframes : FramesTaken env q (ops.flatMap RxOp.received) (runRx env { sink := Sink.fresh q } ops) :=
      framesTaken_run ops h
    have hsink := hframes.2
    rw [hs, splitOn_spaced hfs] at hsink
    refine ⟨by rw [hsink, withLead_effect hfs], ?_⟩
    rw [hsink, foldl_effect_faulty_iff]
    rintro (⟨e, he, -⟩ | ⟨seg, hseg, hsome⟩)
    · cases he
    · obtain ⟨p, hp, rfl⟩ := List.mem_map.1 hseg
      obtain ⟨ws, n, hws, hn, rfl⟩ := mem_withLead (fun c hc => by cases hc) hfs hp
      have hvalid := (hn.payload hws).valid
      simp [Segment.diagnosis, not_blank_of_valid hvalid, hvalid] at hsome

/-- A notification, and a client that knows it. -/
def barePayload : Bytes := ascii "<notification></notification>"

def bareEnv : CallbackEnv := defaultEnv [(barePayload, [.element notificationName []])]

theorem barePayload_notification : Notification bareEnv.xml barePayload where
  valid := by decide +kernel
  closed := by decide +kernel
  front := by decide +kernel
  single := by decide +kernel
  ended := by decide +kernel

/-- The notification, its marker and a newline; a guard fires in front of the newline, which changes nothing. -/
theorem guardInFront_delivered : DeliveredOnce bareEnv {} [(barePayload, ascii "\n")]
    (runRx bareEnv { sink := Sink.fresh {} }
      [.read (barePayload ++ eom) 0, .guard .timeout, .read (ascii "\n") 9000000000]) := by
  refine (spaces_delivered_iff bareEnv {} _ (fun f hf => ?_) _ (by simp [RxOp.between?]) (by decide +kernel)).2 ?_
  · rw [List.mem_singleton.1 hf]
    exact ⟨barePayload_notification, by decide⟩
  · have hframe : (splitOn eom (barePayload ++ eom)).2 = [] := by decide +kernel
    have hline : (splitOn eom (barePayload ++ eom ++ ascii "\n")).2 = ascii "\n" := by decide +kernel
    have hnone : findNotificationStartTag (ascii "\n") 0 = none := by decide
    refine Run.along_cons.2 ⟨?_, Run.along_cons.2 ⟨?_, Run.along_cons.2 ⟨?_, Run.along_nil⟩⟩⟩
    · intro s hs
      rw [List.nil_append, hframe] at hs
      cases hs
    · exact hframe
    · intro s hs
      simp only [RxOp.received, List.nil_append, List.append_nil, hline, hnone] at hs
      cases hs

/-- The same bytes in one read, and the guard behind it. -/
def newlineOps : List RxOp := [.read (barePayload ++ eom ++ ascii "\n") 0, .guard .timeout]

/-- **A newline behind the marker comes out as a notification**, and as an incomplete one, when the timeout's guard finds
it: here after five seconds, the default. -/
theorem newline_not_delivered : Notification bareEnv.xml barePayload ∧
    newlineOps.flatMap RxOp.received = spaced [(barePayload, ascii "\n")] ∧
    (runRx bareEnv { sink := Sink.fresh {} } (newlineOps.take 1)).rx.bytes = ascii "\n" ∧ Blank (ascii "\n") ∧
    partialTimeoutReachedLocked bareEnv.cfg 5000000000
      (runRx bareEnv { sink := Sink.fresh {} } (newlineOps.take 1)).rx = true ∧
    (runRx bareEnv { sink := Sink.fresh {} } newlineOps).sink.queue.items = [barePayload ++ eom, ascii "\n"] ∧
    ¬ DeliveredOnce bareEnv {} [(barePayload, ascii "\n")] (runRx bareEnv { sink := Sink.fresh {} } newlineOps) := by
  have htypes : (runRx bareEnv { sink := Sink.fresh {} } newlineOps).sink.eventsToEmit.map (·.type) =
      [.incompleteNotification] := by decide +kernel
  refine ⟨barePayload_notification, by decide +kernel, by decide +kernel, by decide, by decide +kernel,
    by decide +kernel, fun h => h.2 ?_⟩
  obtain ⟨e, he, htype⟩ := List.mem_map.1 (htypes ▸ List.mem_cons_self)
  exact ⟨e, he, Or.inr htype⟩

/-- The other fault: a read that ends behind the prefix of an inner tag's name. -/
example : (runRx bareEnv { sink := Sink.fresh {} } [.read (ascii "<notification><notification") 0,
    .read (ascii ":data/></notification>]]>]]>") 1]).sink.queue.items.head? = some (ascii "<notification>") := by
  decide +kernel

end PyNetX
