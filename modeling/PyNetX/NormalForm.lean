import PyNetX.Lib.While
import PyNetX.Accounting
import PyNetX.Reads
/-!
# NormalForm — the parser ends, and has nothing left to do

The loops of `process_rx_buffer_locked` without the bounds the model puts on them: `while (progressed)`, the one over
the marked frames, and `find_notification_start_tag`'s.  Each ends (`rxLoop_ends`, `eomFrames_ends`,
`startTag_ends`), and the buffer that is left is in a `NormalForm`, which is why a second call changes nothing.
-/
namespace PyNetX

open Search (find)
open While (Turn Ends)

/-! ## The loops -/

/-- A turn of `while (progressed)`. -/
def rxLoopTurn (env : CallbackEnv) (c : Callback) : Turn Callback Callback :=
  match processRxTurnLocked env c with
  | (c, true) => .next c
  | (c, false) => .done c

/-- A turn of the loop over the frames that a marker ends. -/
def eomFramesTurn (env : CallbackEnv) (s : Callback × Bool) : Turn (Callback × Bool) (Callback × Bool) :=
  match find eom s.1.rx.bytes with
  | none => .done s
  | some eomPos => .next
      ({ rx := { s.1.rx with bytes := s.1.rx.bytes.drop (eomPos + eomLen), partialTimerActive := false }
         sink := processEomFrameLocked env (s.1.rx.bytes.take eomPos) s.1.sink }, true)

/-- A turn of `find_notification_start_tag`'s loop, at `pos`. -/
def startTagTurn (data : Bytes) (pos : Nat) : Turn Nat (Option Nat) :=
  match find [chLt] (data.drop pos) with
  | none => .done none
  | some k =>
    let pos := pos + k
    match data.drop (pos + 1) with
    | [] => .done none
    | next :: rest =>
      if next == chSlash || next == chBang || next == chQuestion then .next (pos + 1)
      else
        let qname := (next :: rest).takeWhile isNameByte
        if qname = [] then .next (pos + 1)
        else if xmlLocalName qname = notificationName then .done (some pos)
        else .next (pos + 1 + qname.length)

theorem processRxTurnLocked_shrinks {env : CallbackEnv} {c c' : Callback} (h : processRxTurnLocked env c = (c', true)) :
    c'.rx.bytes.length < c.rx.bytes.length := by
  cases ht : rxTurn c.rx.bytes with
  | none =>
    rw [processRxTurnLocked_none ht] at h
    cases h
  | some p =>
    obtain ⟨segs, r⟩ := p
    obtain hgo | ⟨-, -, hstop⟩ := processRxTurnLocked_some env ht
    · cases hgo.symm.trans h
      exact rxPass.shrinks ht
    · cases hstop.symm.trans h

/-- **`while (progressed)` ends.** -/
theorem rxLoop_ends (env : CallbackEnv) (c : Callback) :
    Ends (rxLoopTurn env) c (processRxLoopLocked env (c.rx.bytes.length + 1) c) := by
  apply While.ends_of_bounded (f := processRxLoopLocked env) (m := fun c => c.rx.bytes.length) _ _ _ c (Nat.lt_succ_self _)
  · intro n s b hs
    rw [processRxLoopLocked]
    cases hturn : processRxTurnLocked env s with
    | mk s' progressed =>
      rw [rxLoopTurn, hturn] at hs
      cases progressed <;> cases hs
      rfl
  · intro n s s' hs
    rw [processRxLoopLocked]
    cases hturn : processRxTurnLocked env s with
    | mk s'' progressed =>
      rw [rxLoopTurn, hturn] at hs
      cases progressed <;> cases hs
      exact ⟨processRxTurnLocked_shrinks hturn, rfl⟩

/-- **The loop over the marked frames ends.** -/
theorem eomFrames_ends (env : CallbackEnv) (c : Callback) (progressed : Bool) :
    Ends (eomFramesTurn env) (c, progressed) (processEomFramesLocked env (c.rx.bytes.length + 1) c progressed) := by
  apply While.ends_of_bounded (f := fun n s => processEomFramesLocked env n s.1 s.2) (m := fun s => s.1.rx.bytes.length)
    _ _ _ (c, progressed) (Nat.lt_succ_self _)
  · intro n s b hs
    simp only [processEomFramesLocked]
    cases hfind : find eom s.1.rx.bytes with
    | none =>
      rw [eomFramesTurn, hfind] at hs
      cases hs
      rfl
    | some eomPos =>
      rw [eomFramesTurn, hfind] at hs
      cases hs
  · intro n s s' hs
    simp only [processEomFramesLocked]
    cases hfind : find eom s.1.rx.bytes with
    | none =>
      rw [eomFramesTurn, hfind] at hs
      cases hs
    | some eomPos =>
      have hle := Search.find_le hfind
      rw [eomFramesTurn, hfind] at hs
      cases hs
      rw [eom_length, eomLen] at hle
      refine ⟨?_, rfl⟩
      rw [List.length_drop, eomLen]
      omega

/-! ## The start-tag scanner -/

theorem map_add_add {o : Option Nat} {a b c : Nat} (h : a + b = c) : (o.map (· + a)).map (· + b) = o.map (· + c) := by
  subst h
  cases o <;> simp [Nat.add_assoc]

/-- Bytes without a `<` are skipped. -/
theorem scan_append_skip : ∀ {a : Bytes} (s : Bytes), chLt ∉ a → scan (a ++ s) = (scan s).map (· + a.length)
  | [], s, _ => by simp
  | c :: a, s, h => by
    have hc : c ≠ chLt := fun hc => h (by simp [hc])
    have ha : chLt ∉ a := fun ha => h (List.mem_cons_of_mem c ha)
    rw [List.cons_append, scan_skip hc, scan_append_skip s ha, map_add_add rfl, List.length_cons]

theorem find_lt_split {s : Bytes} {k : Nat} (h : find [chLt] s = some k) :
    s = s.take k ++ chLt :: s.drop (k + 1) ∧ chLt ∉ s.take k ∧ k < s.length := by
  have hsplit := Search.find_split h
  have hle := Search.find_le h
  simp only [List.append_assoc, List.singleton_append, List.length_singleton] at hsplit hle
  refine ⟨hsplit, fun hmem => ?_, hle⟩
  obtain ⟨a, b, hab⟩ := List.append_of_mem hmem
  have hk := (Search.find_eq_some_iff.1 h).2 a (b ++ chLt :: s.drop (k + 1))
    (hsplit.trans (by rw [hab]; simp))
  have hlen := congrArg List.length hab
  rw [List.length_append, List.length_cons, List.length_take_of_le (Nat.le_of_lt hle)] at hlen
  omega

theorem startTagTurn_eq {data : Bytes} {pos k : Nat} (h : find [chLt] (data.drop pos) = some k) :
    startTagTurn data pos =
      if data.drop (pos + k + 1) = [] then .done none
      else if tagName (data.drop (pos + k + 1)) = [] then .next (pos + k + 1)
      else if xmlLocalName (tagName (data.drop (pos + k + 1))) = notificationName then .done (some (pos + k))
      else .next (pos + k + 1 + (tagName (data.drop (pos + k + 1))).length) := by
  unfold startTagTurn
  simp only [h]
  cases data.drop (pos + k + 1) with
  | nil => rfl
  | cons next rest =>
    simp only [tagName]
    by_cases hm : (next == chSlash || next == chBang || next == chQuestion) = true
    · simp [hm]
    · simp [hm]

/-- Up to the next `<` the scanner skips. -/
theorem findNotificationStartTag_lt_eq {data : Bytes} {pos k : Nat} (h : find [chLt] (data.drop pos) = some k) :
    findNotificationStartTag data pos = (scan (chLt :: data.drop (pos + k + 1))).map (· + (pos + k)) := by
  obtain ⟨hsplit, hskip, hlt⟩ := find_lt_split h
  have hlen : ((data.drop pos).take k).length = k := List.length_take_of_le (Nat.le_of_lt hlt)
  rw [findNotificationStartTag, hsplit, scan_append_skip _ hskip, hlen, List.drop_drop, map_add_add (Nat.add_comm k pos)]
  rfl

/-- **`find_notification_start_tag` ends**, with what the scanner of the model finds. -/
theorem startTag_ends (data : Bytes) (start : Nat) :
    Ends (startTagTurn data) start (findNotificationStartTag data start) := by
  apply While.ends_of_bounded (f := fun _ pos => findNotificationStartTag data pos) (m := fun pos => data.length - pos)
    _ _ _ start (Nat.lt_succ_self _)
  · intro n pos b hturn
    cases h : find [chLt] (data.drop pos) with
    | none =>
      have hskip : chLt ∉ data.drop pos := fun hmem => by
        obtain ⟨x, y, hxy⟩ := List.append_of_mem hmem
        exact Search.find_eq_none_iff.1 h ⟨x, y, by rw [hxy]; simp⟩
      have hscan : scan (data.drop pos) = none := by
        have hskipped := scan_append_skip [] hskip
        rwa [List.append_nil] at hskipped
      rw [startTagTurn, h] at hturn
      cases hturn
      rw [findNotificationStartTag, hscan]
      rfl
    | some k =>
      rw [startTagTurn_eq h] at hturn
      rw [findNotificationStartTag_lt_eq h]
      split at hturn
      · rename_i hnil
        cases hturn
        rw [hnil]
        rfl
      split at hturn
      · cases hturn
      rename_i htag
      split at hturn
      · rename_i hname
        cases hturn
        rw [scan_tag htag hname]
        simp
      · cases hturn
  · intro n pos pos' hturn
    cases h : find [chLt] (data.drop pos) with
    | none =>
      rw [startTagTurn, h] at hturn
      cases hturn
    | some k =>
      have hlt := (find_lt_split h).2.2
      rw [List.length_drop] at hlt
      rw [startTagTurn_eq h] at hturn
      rw [findNotificationStartTag_lt_eq h]
      split at hturn
      · cases hturn
      split at hturn
      · rename_i hbare
        cases hturn
        rw [scan_bare hbare, findNotificationStartTag, map_add_add (Nat.add_comm 1 (pos + k))]
        exact ⟨by omega, rfl⟩
      rename_i htag
      split at hturn
      · cases hturn
      · rename_i hname
        cases hturn
        rw [scan_other htag hname, findNotificationStartTag, List.drop_drop,
          map_add_add (c := pos + k + 1 + (tagName (data.drop (pos + k + 1))).length) (by omega)]
        exact ⟨by omega, rfl⟩

/-! ## The normal form -/

/-- There is nothing in the buffer that the parser takes. -/
structure NormalForm (b : Bytes) : Prop where
  unmarked : find eom b = none
  benign : ∀ k, findNotificationStartTag b 0 = some k → benignNotificationPrefix (b.take k) = true
  closed : ∀ k e, findNotificationStartTag b 0 = some k → notificationEndAfterStart b k = some e →
    findNotificationStartTag b e = none
  unclosed : ∀ k, findNotificationStartTag b 0 = some k → notificationEndAfterStart b k = none →
    findNotificationStartTag b (k + 1) = none

theorem orphanPrefix_eq_none {b : Bytes} (h : orphanPrefix b = none) {k : Nat}
    (hk : findNotificationStartTag b 0 = some k) : benignNotificationPrefix (b.take k) = true := by
  unfold orphanPrefix at h
  simp only [hk] at h
  rcases Nat.eq_zero_or_pos k with rfl | hpos
  · rfl
  · by_contra hbenign
    rw [if_pos ⟨hpos, hbenign⟩] at h
    cases h

theorem normalForm_of_rxTurn_none {b : Bytes} (h : rxTurn b = none) : NormalForm b := by
  have hunmarked := find_eom_of_rxTurn_none h
  obtain ⟨horphan, hlook⟩ := (rxTurn_eq_none_iff hunmarked).1 h
  refine ⟨hunmarked, fun k hk => orphanPrefix_eq_none horphan hk, fun k e hk he => ?_, fun k hk he => ?_⟩
  · simpa [lookahead, hk, he] using hlook
  · simpa [lookahead, hk, he] using hlook

/-- A buffer that nothing is taken from is left as it is, by a call at any later time. -/
theorem processRxBufferLocked_eq_self {env : CallbackEnv} {c : Callback} (h : rxTurn c.rx.bytes = none)
    (htimer : c.rx.partialTimerActive = decide (c.rx.bytes ≠ [])) (now : Nat) : processRxBufferLocked env now c = c := by
  have hdrain : Drain.drain rxPass c.rx.bytes = ([], c.rx.bytes) := Drain.drain_none rxPass h
  rw [processRxBufferLocked_eq, hdrain]
  have hkept : ¬ (c.rx.bytes ≠ [] ∧ (([] : List Segment) ≠ [] ∨ c.rx.partialTimerActive = false)) := by
    rintro ⟨hb, hsegs | hoff⟩
    · exact hsegs rfl
    · rw [htimer, decide_eq_false_iff_not] at hoff
      exact hoff hb
  simp only
  rw [if_neg hkept, ← htimer]
  rfl

/-- **`process_rx_buffer_locked` ends in a stable normal form**: all its loops end, a second call, whenever it comes,
changes nothing, and the buffer is a normal form. -/
theorem processRxBufferLocked_normalForm (env : CallbackEnv) (now : Nat) (c : Callback) :
    (Ends (rxLoopTurn env) c (processRxLoopLocked env (c.rx.bytes.length + 1) c) ∧
      (∀ d progressed, Ends (eomFramesTurn env) (d, progressed)
        (processEomFramesLocked env (d.rx.bytes.length + 1) d progressed)) ∧
      ∀ data start, Ends (startTagTurn data) start (findNotificationStartTag data start)) ∧
    (∀ now', processRxBufferLocked env now' (processRxBufferLocked env now c) = processRxBufferLocked env now c) ∧
    NormalForm (processRxBufferLocked env now c).rx.bytes := by
  have hstable : rxTurn (processRxBufferLocked env now c).rx.bytes = none := by
    rw [processRxBufferLocked_eq]
    exact Drain.drain_stable rxPass c.rx.bytes
  have htimer : (processRxBufferLocked env now c).rx.partialTimerActive =
      decide ((processRxBufferLocked env now c).rx.bytes ≠ []) := by
    rw [processRxBufferLocked_eq]
  exact ⟨⟨rxLoop_ends env c, eomFrames_ends env, startTag_ends⟩,
    fun now' => processRxBufferLocked_eq_self hstable htimer now', normalForm_of_rxTurn_none hstable⟩

end PyNetX
