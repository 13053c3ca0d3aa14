import PyNetX.Lib.Drain
import PyNetX.Parser
/-!
# Segments — the parser as a segmentation of the stream

A `Segment` is what the parser takes off the front of the receive buffer in one place of its code, `rxPass` is one
look at the buffer, and `Segment.effect` is what a segment does to the queue and to the events.
`processRxBufferLocked_eq` says that the loops of the source are `rxPass` drained, the effects following in order; the
bounds on the loops are never reached.
-/
namespace PyNetX

open Search (find splitOn)
open Drain (Pass drain feed)

/-- The two guards on a partial notification. -/
inductive IncompleteGuard where
  | size | timeout
  deriving DecidableEq, Repr

def IncompleteGuard.message : IncompleteGuard → String
  | .size => sizeGuardMessage
  | .timeout => timeoutGuardMessage

/-- What is taken off the front of the receive buffer: a frame a marker ended, an orphan prefix, a recovered
notification, an abandoned partial, or what a guard finalized. -/
inductive Segment where
  | frame (bytes : Bytes)
  | orphan (bytes : Bytes)
  | recovered (bytes : Bytes)
  | abandoned (bytes : Bytes)
  | finalized (guard : IncompleteGuard) (bytes : Bytes)
  deriving DecidableEq, Repr

namespace Segment

/-- The segment without a marker. -/
def bytes : Segment → Bytes
  | .frame b | .orphan b | .recovered b | .abandoned b | .finalized _ b => b

/-- The bytes of the stream a segment stands for. -/
def span : Segment → Bytes
  | .frame b => b ++ eom
  | .orphan b | .recovered b | .abandoned b | .finalized _ b => b

@[simp] theorem span_frame (b : Bytes) : (frame b).span = b ++ eom := rfl

/-- The diagnostic event a segment is reported with: its type, its message, and whether it counts as incomplete. -/
def diagnosis (xml : XmlParser) : Segment → Option (HealthEventType × String × Bool)
  | .frame b =>
    if Blank b then some (.malformedNotification, emptyFrameMessage, false)
    else if isValidNotificationDocument xml b then none
    else some (.malformedNotification, malformedFrameMessage, false)
  | .orphan _ => some (.malformedNotification, orphanMessage, false)
  | .recovered _ => some (.malformedNotification, recoveredMessage, false)
  | .abandoned _ => some (.incompleteNotification, abandonedMessage, true)
  | .finalized g _ => some (.incompleteNotification, g.message, true)

/-- What of a segment is offered to the queue. -/
def offer : Segment → Option Bytes
  | .frame b => if Blank b then none else some (b ++ eom)
  | .orphan _ => none
  | .recovered b | .abandoned b | .finalized _ b => some b

/-- The event of a segment, with its length as `partial_bytes`. -/
def note (env : CallbackEnv) (s : Sink) (seg : Segment) : Sink :=
  match seg.diagnosis env.xml with
  | none => s
  | some (type, message, incomplete) =>
    addDiagnosticEventLocked env.cfg env.fd type message seg.bytes.length incomplete s

/-- What a segment does: its event, and then its offer. -/
def effect (env : CallbackEnv) (s : Sink) (seg : Segment) : Sink :=
  match seg.offer with
  | none => seg.note env s
  | some n => enqueueOrDropLocked env.cfg env.fd n (if (seg.diagnosis env.xml).isSome then seg.bytes.length else 0)
      (seg.note env s)

theorem effect_frame (env : CallbackEnv) (s : Sink) (b : Bytes) :
    effect env s (.frame b) = processEomFrameLocked env b s := by
  unfold processEomFrameLocked
  simp only [trimCopy_eq_nil_iff, effect, note, diagnosis, offer, bytes]
  by_cases hb : Blank b
  · simp only [if_pos hb]
  · simp only [if_neg hb]
    cases isValidNotificationDocument env.xml b <;> rfl

end Segment

/-- The orphan prefix, by its length. -/
def orphanPrefix (b : Bytes) : Option Nat :=
  match findNotificationStartTag b 0 with
  | some k => if 0 < k ∧ ¬ benignNotificationPrefix (b.take k) then some k else none
  | none => none

/-- The look-ahead for a next start tag in a buffer without a marker. -/
def lookahead (b : Bytes) : Option (Segment × Bytes) :=
  match findNotificationStartTag b 0 with
  | none => none
  | some s =>
    match notificationEndAfterStart b s with
    | some e => (findNotificationStartTag b e).map (fun _ => (.recovered (b.take e), b.drop e))
    | none => (findNotificationStartTag b (s + 1)).map (fun t => (.abandoned (b.take t), b.drop t))

/-- One look at the buffer: an orphan prefix; or else every frame a marker ended, and the look-ahead behind them. -/
def rxTurn (b : Bytes) : Option (List Segment × Bytes) :=
  match orphanPrefix b with
  | some k => some ([.orphan (b.take k)], b.drop k)
  | none =>
    match lookahead (splitOn eom b).2 with
    | some (seg, r) => some ((splitOn eom b).1.map .frame ++ [seg], r)
    | none => if (splitOn eom b).1 = [] then none else some ((splitOn eom b).1.map .frame, (splitOn eom b).2)

theorem orphanPrefix_eq_some {b : Bytes} {k : Nat} (h : orphanPrefix b = some k) :
    findNotificationStartTag b 0 = some k ∧ 0 < k ∧ benignNotificationPrefix (b.take k) = false := by
  unfold orphanPrefix at h
  split at h
  · split at h
    · rename_i k' hk hc
      cases h
      exact ⟨hk, hc.1, by simpa using hc.2⟩
    · cases h
  · cases h

theorem findNotificationStartTag_lt {b : Bytes} {start k : Nat} (h : findNotificationStartTag b start = some k) :
    k < b.length := by
  obtain ⟨next, rest, hd, -⟩ := (findNotificationStartTag_eq_some h).2.bytes
  by_contra hn
  rw [List.drop_eq_nil_of_le (by omega)] at hd
  cases hd

/-- **What the look-ahead takes**: a recovered notification up to its close tag, or an abandoned partial up to the
next start tag. -/
theorem lookahead_eq_some {b r : Bytes} {seg : Segment} (h : lookahead b = some (seg, r)) :
    ∃ s, findNotificationStartTag b 0 = some s ∧
      ((∃ e t, notificationEndAfterStart b s = some e ∧ findNotificationStartTag b e = some t ∧
          seg = .recovered (b.take e) ∧ r = b.drop e) ∨
        ∃ t, notificationEndAfterStart b s = none ∧ findNotificationStartTag b (s + 1) = some t ∧
          seg = .abandoned (b.take t) ∧ r = b.drop t) := by
  unfold lookahead at h
  split at h
  · cases h
  rename_i s hs
  refine ⟨s, hs, ?_⟩
  split at h
  · rename_i e he
    obtain ⟨t, ht, heq⟩ := Option.map_eq_some_iff.1 h
    cases heq
    exact Or.inl ⟨e, t, he, ht, rfl, rfl⟩
  · rename_i he
    obtain ⟨t, ht, heq⟩ := Option.map_eq_some_iff.1 h
    cases heq
    exact Or.inr ⟨t, he, ht, rfl, rfl⟩

theorem lookahead_cut {b r : Bytes} {seg : Segment} (h : lookahead b = some (seg, r)) :
    b = seg.span ++ r ∧ r.length < b.length := by
  obtain ⟨s, hs, ⟨e, t, he, ht, rfl, rfl⟩ | ⟨t, -, ht, rfl, rfl⟩⟩ := lookahead_eq_some h
  · obtain ⟨a, c, -, hlen, -⟩ := notificationEndAfterStart_eq_some he
    have hlt := findNotificationStartTag_lt ht
    refine ⟨(List.take_append_drop e b).symm, ?_⟩
    rw [List.length_drop]
    omega
  · have hle := (findNotificationStartTag_eq_some ht).1
    have hlt := findNotificationStartTag_lt ht
    refine ⟨(List.take_append_drop t b).symm, ?_⟩
    rw [List.length_drop]
    omega

theorem flatMap_span_frames (fs : List Bytes) : (fs.map Segment.frame).flatMap Segment.span = fs.flatMap (· ++ eom) := by
  rw [List.flatMap_map]
  rfl

theorem splitOn_rest_length (b : Bytes) (h : (splitOn eom b).1 ≠ []) : (splitOn eom b).2.length < b.length := by
  have hc := congrArg List.length (Search.splitOn_conserves eom_ne_nil b)
  obtain ⟨f, fs, hf⟩ := List.exists_cons_of_ne_nil h
  rw [hf, List.flatMap_cons] at hc
  simp only [List.length_append, eom_length, eomLen] at hc
  omega

/-- One turn of the parser, as a pass over a buffer. -/
def rxPass : Pass UInt8 Segment where
  run := rxTurn
  span := Segment.span
  conserves := by
    intro b ts b' h
    unfold rxTurn at h
    split at h
    · rename_i k hk
      cases h
      simp [Segment.span]
    · have hsplit := Search.splitOn_conserves eom_ne_nil b
      split at h
      · rename_i seg r hl
        cases h
        rw [List.flatMap_append, flatMap_span_frames, List.append_assoc, List.flatMap_singleton,
          ← (lookahead_cut hl).1, hsplit]
      · split at h
        · cases h
        · cases h
          rw [flatMap_span_frames, hsplit]
  shrinks := by
    intro b ts b' h
    unfold rxTurn at h
    split at h
    · rename_i k hk
      cases h
      obtain ⟨hf, hpos, -⟩ := orphanPrefix_eq_some hk
      have := findNotificationStartTag_lt hf
      rw [List.length_drop]
      omega
    · have hsplit := congrArg List.length (Search.splitOn_conserves eom_ne_nil b)
      rw [List.length_append] at hsplit
      split at h
      · rename_i seg r hl
        cases h
        have := (lookahead_cut hl).2
        omega
      · split at h
        · cases h
        · rename_i hne
          cases h
          exact splitOn_rest_length b hne

/-! ## The loops of the source are the pass, drained -/

/-- The state once `segs` were taken and `rest` is left: the effects in order, the timer stopped by any progress. -/
def Callback.took (env : CallbackEnv) (c : Callback) (segs : List Segment) (rest : Bytes) : Callback where
  rx := { c.rx with bytes := rest, partialTimerActive := c.rx.partialTimerActive && segs.isEmpty }
  sink := segs.foldl (Segment.effect env) c.sink

@[simp] theorem Callback.took_nil (env : CallbackEnv) (c : Callback) : c.took env [] c.rx.bytes = c := by
  simp [Callback.took]

@[simp] theorem Callback.took_bytes (env : CallbackEnv) (c : Callback) (segs : List Segment) (r : Bytes) :
    (c.took env segs r).rx.bytes = r := rfl

@[simp] theorem Callback.took_took (env : CallbackEnv) (c : Callback) (segs segs' : List Segment) (r r' : Bytes) :
    (c.took env segs r).took env segs' r' = c.took env (segs ++ segs') r' := by
  cases segs <;> simp [Callback.took, List.foldl_append]

theorem processEomFramesLocked_eq (env : CallbackEnv) : ∀ (n : Nat) (c : Callback) (progressed : Bool),
    c.rx.bytes.length < n → processEomFramesLocked env n c progressed =
      (c.took env ((splitOn eom c.rx.bytes).1.map .frame) (splitOn eom c.rx.bytes).2,
        progressed || !(splitOn eom c.rx.bytes).1.isEmpty)
  | 0, c, _, h => absurd h (Nat.not_lt_zero _)
  | n + 1, c, progressed, h => by
    unfold processEomFramesLocked
    cases hk : find eom c.rx.bytes with
    | none => simp [Search.splitOn_of_none hk]
    | some k =>
      have hle := Search.find_le hk
      rw [eom_length, eomLen] at hle
      have hframe : ({ rx := { c.rx with bytes := c.rx.bytes.drop (k + eomLen), partialTimerActive := false }
                       sink := processEomFrameLocked env (c.rx.bytes.take k) c.sink } : Callback) =
          c.took env [.frame (c.rx.bytes.take k)] (c.rx.bytes.drop (k + eomLen)) := by
        simp [Callback.took, Segment.effect_frame]
      simp only
      rw [hframe, processEomFramesLocked_eq env n _ true (by
        rw [Callback.took_bytes, List.length_drop, eomLen]
        omega)]
      simp [Search.splitOn_of_some eom_ne_nil hk]

/-- **The look-ahead of the source is `lookahead`.** -/
theorem processLookaheadLocked_eq (env : CallbackEnv) (c : Callback) (progressed : Bool) :
    processLookaheadLocked env c progressed =
      match lookahead c.rx.bytes with
      | some (seg, r) => (c.took env [seg] r, true)
      | none => (c, progressed) := by
  unfold processLookaheadLocked lookahead
  cases findNotificationStartTag c.rx.bytes 0 with
  | none => rfl
  | some s =>
    simp only
    cases notificationEndAfterStart c.rx.bytes s with
    | some e =>
      simp only
      cases findNotificationStartTag c.rx.bytes e with
      | none => rfl
      | some t => simp [Callback.took, Segment.effect, Segment.note, Segment.diagnosis, Segment.offer, Segment.bytes,
          processRecoveredMissingEomLocked]
    | none =>
      simp only
      cases findNotificationStartTag c.rx.bytes (s + 1) with
      | none => rfl
      | some t => simp [Callback.took, Segment.effect, Segment.note, Segment.diagnosis, Segment.offer, Segment.bytes]

theorem rxTurn_nil : rxTurn [] = none := rfl

theorem lookahead_nil : lookahead [] = none := rfl

/-- The timer, stopped when nothing is left. -/
def Callback.settle (c : Callback) : Callback :=
  if c.rx.bytes = [] then { c with rx := { c.rx with partialTimerActive := false } } else c

theorem Callback.settle_took_of_ne_nil {env : CallbackEnv} {c : Callback} {segs : List Segment} {r : Bytes}
    (h : segs ≠ []) : (c.took env segs r).settle = c.took env segs r := by
  have hs : segs.isEmpty = false := by simpa using h
  unfold Callback.settle
  split
  · simp [Callback.took, hs]
  · rfl

theorem processRxTurnLocked_none {env : CallbackEnv} {c : Callback} (h : rxTurn c.rx.bytes = none) :
    processRxTurnLocked env c = (c.settle, false) := by
  unfold processRxTurnLocked Callback.settle
  by_cases hb : c.rx.bytes = []
  · rw [if_pos hb, if_pos hb]
  rw [if_neg hb, if_neg hb]
  unfold rxTurn at h
  split at h
  · cases h
  rename_i ho
  split at h
  · cases h
  rename_i hl
  split at h
  swap
  · cases h
  rename_i hfs
  have hrest : (splitOn eom c.rx.bytes).2 = c.rx.bytes := by
    have := Search.splitOn_conserves eom_ne_nil c.rx.bytes
    rwa [hfs] at this
  simp only
  change (match orphanPrefix c.rx.bytes with | some _ => _ | none => _) = _
  rw [ho]
  simp only
  rw [processEomFramesLocked_eq env _ c false (Nat.lt_succ_self _), hfs, hrest, List.map_nil, Callback.took_nil]
  simp only [if_neg hb]
  rw [processLookaheadLocked_eq, ← hrest, hl]
  rfl

/-- **A turn that takes something takes what `rxTurn` takes**, and unless nothing is left, there is another one. -/
theorem processRxTurnLocked_some (env : CallbackEnv) {c : Callback} {segs : List Segment} {r : Bytes}
    (h : rxTurn c.rx.bytes = some (segs, r)) :
    processRxTurnLocked env c = (c.took env segs r, true) ∨
      r = [] ∧ segs ≠ [] ∧ processRxTurnLocked env c = (c.took env segs r, false) := by
  have hb : c.rx.bytes ≠ [] := by
    intro hb
    rw [hb, rxTurn_nil] at h
    cases h
  unfold processRxTurnLocked
  rw [if_neg hb]
  simp only
  change (match orphanPrefix c.rx.bytes with | some _ => _ | none => _) = _ ∨ _ ∧ _ ∧
    (match orphanPrefix c.rx.bytes with | some _ => _ | none => _) = _
  unfold rxTurn at h
  cases ho : orphanPrefix c.rx.bytes with
  | some k =>
    rw [ho] at h
    cases h
    exact Or.inl (by simp [Callback.took, Segment.effect, Segment.note, Segment.diagnosis, Segment.offer, Segment.bytes])
  | none =>
    rw [ho] at h
    simp only at h ⊢
    rw [processEomFramesLocked_eq env _ c false (Nat.lt_succ_self _)]
    simp only [Callback.took_bytes, processLookaheadLocked_eq]
    cases hl : lookahead (splitOn eom c.rx.bytes).2 with
    | some p =>
      rw [hl] at h
      cases h
      have hr : (splitOn eom c.rx.bytes).2 ≠ [] := by
        intro hr
        rw [hr, lookahead_nil] at hl
        cases hl
      rw [if_neg hr]
      exact Or.inl (by simp)
    | none =>
      rw [hl] at h
      simp only at h ⊢
      split at h
      · cases h
      rename_i hfs
      cases h
      have hne : (splitOn eom c.rx.bytes).1.map Segment.frame ≠ [] := by simpa using hfs
      by_cases hr : (splitOn eom c.rx.bytes).2 = []
      · rw [if_pos hr]
        refine Or.inr ⟨hr, hne, ?_⟩
        have hsettle := @Callback.settle_took_of_ne_nil env c _ [] hne
        simpa [Callback.settle, hr] using hsettle
      · rw [if_neg hr]
        have hf : (!(splitOn eom c.rx.bytes).1.isEmpty) = true := by simpa using hfs
        exact Or.inl (by rw [Bool.false_or, hf])

/-- **The outer loop is the pass, drained**; its bound is not reached. -/
theorem processRxLoopLocked_eq (env : CallbackEnv) : ∀ (n : Nat) (c : Callback), c.rx.bytes.length < n →
    processRxLoopLocked env n c =
      (c.took env (drain rxPass c.rx.bytes).1 (drain rxPass c.rx.bytes).2).settle
  | 0, c, h => absurd h (Nat.not_lt_zero _)
  | n + 1, c, h => by
    unfold processRxLoopLocked
    cases ht : rxTurn c.rx.bytes with
    | none =>
      rw [processRxTurnLocked_none ht, Drain.drain_none rxPass ht]
      simp only [Callback.took_nil]
    | some p =>
      obtain ⟨segs, r⟩ := p
      rw [Drain.drain_some rxPass ht]
      have hlt : r.length < c.rx.bytes.length := rxPass.shrinks ht
      obtain hgo | ⟨rfl, hne, hstop⟩ := processRxTurnLocked_some env ht
      · rw [hgo]
        simp only
        rw [processRxLoopLocked_eq env n _ (by rw [Callback.took_bytes]; omega)]
        simp
      · rw [hstop, Drain.drain_none rxPass (b := []) rxTurn_nil]
        simp only [List.append_nil, Callback.settle_took_of_ne_nil hne]

/-- **The parser is its segmentation**: it takes the segments the buffer drains into, does their effects in order, and
leaves the timer running exactly while bytes are left. -/
theorem processRxBufferLocked_eq (env : CallbackEnv) (now : Nat) (c : Callback) :
    processRxBufferLocked env now c =
      { rx :=
          { bytes := (drain rxPass c.rx.bytes).2
            partialTimerActive := decide ((drain rxPass c.rx.bytes).2 ≠ [])
            partialStartedAt :=
              if (drain rxPass c.rx.bytes).2 ≠ [] ∧
                  ((drain rxPass c.rx.bytes).1 ≠ [] ∨ c.rx.partialTimerActive = false)
                then now else c.rx.partialStartedAt }
        sink := (drain rxPass c.rx.bytes).1.foldl (Segment.effect env) c.sink } := by
  unfold processRxBufferLocked
  rw [processRxLoopLocked_eq env _ c (Nat.lt_succ_self _)]
  generalize drain rxPass c.rx.bytes = d
  obtain ⟨segs, rest⟩ := d
  by_cases hr : rest = []
  · simp [hr, Callback.settle, Callback.took]
  · simp only [Callback.settle, Callback.took_bytes]
    cases segs with
    | nil => cases ha : c.rx.partialTimerActive <;> simp [Callback.took, hr, ha]
    | cons seg segs => simp [Callback.took, hr]

end PyNetX
