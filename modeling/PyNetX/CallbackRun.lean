import PyNetX.Lib.Outbox
import PyNetX.Accounting
import PyNetX.Callbacks
/-!
# CallbackRun — what every release, every exit and every event of a callback keeps

A section leaves the receive buffer `Guarded`, and its timer's start alone when it takes nothing from a partial; it
ends with a guard's finalization, which empties the buffer, or else no guard had a reason to fire.  Its events are
flushed before the callback reads or polls again, so that no exception finds one waiting (`callbacks_guarded`).
-/
namespace PyNetX

open Outbox (Prompt)

variable {cfg : ClientConfig} {env : CallbackEnv}

/-! ## The sections -/

/-- The partial timer runs exactly while bytes wait, and with the size guard there are too few of them for it. -/
structure RxBuffer.Guarded (cfg : ClientConfig) (rx : RxBuffer) : Prop where
  timer : rx.partialTimerActive = true ↔ rx.bytes ≠ []
  size : 0 < cfg.notifIncompleteMaxKb → rx.bytes.length < cfg.notifIncompleteMaxKb.toNat * 1024

/-- What a section does to the receive buffer: it leaves it guarded, and its timer's start alone if it found a partial
and removed nothing. -/
structure RxBuffer.Keeps (cfg : ClientConfig) (entered left : RxBuffer) (appended : Bytes) : Prop where
  guarded : left.Guarded cfg
  start : entered.bytes ≠ [] → left.bytes = entered.bytes ++ appended → left.partialStartedAt = entered.partialStartedAt

theorem RxBuffer.guarded_of_empty {rx : RxBuffer} (hbytes : rx.bytes = []) (htimer : rx.partialTimerActive = false) :
    rx.Guarded cfg where
  timer := by simp [hbytes, htimer]
  size h := by
    rw [hbytes, List.length_nil]
    omega

theorem finalizeIncompleteLocked_rx (env : CallbackEnv) (reason : String) (c : Callback) :
    (finalizeIncompleteLocked env reason c).rx.bytes = [] ∧
      (finalizeIncompleteLocked env reason c).rx.partialTimerActive = false := by
  unfold finalizeIncompleteLocked
  split
  · rename_i hb
    exact ⟨hb, rfl⟩
  · exact ⟨rfl, rfl⟩

/-- **A section that finalizes keeps everything**, whatever it did before. -/
theorem RxBuffer.keeps_finalized (reason : String) (c : Callback) (entered : RxBuffer) (appended : Bytes) :
    entered.Keeps cfg (finalizeIncompleteLocked env reason c).rx appended := by
  obtain ⟨hbytes, htimer⟩ := finalizeIncompleteLocked_rx env reason c
  refine ⟨RxBuffer.guarded_of_empty hbytes htimer, fun hne heq => ?_⟩
  rw [hbytes] at heq
  exact absurd (List.append_eq_nil_iff.1 heq.symm).1 hne

theorem drain_eq_nil_of_rest {b : Bytes} (h : (Drain.drain rxPass b).2 = b) : (Drain.drain rxPass b).1 = [] := by
  have hconserves := Drain.drain_conserves rxPass b
  rw [h] at hconserves
  have hspans := List.flatMap_eq_nil_iff.1 (List.append_left_eq_self.1 hconserves)
  by_contra hne
  obtain ⟨seg, segs, hsegs⟩ := List.exists_cons_of_ne_nil hne
  have hmem : seg ∈ (Drain.drain rxPass b).1 := by
    rw [hsegs]
    exact List.mem_cons_self
  exact (Drain.drain_forall rxPass rxTurn_wellFormed b seg hmem).span_ne_nil (hspans seg hmem)

/-- The parser sets the timer by the bytes it leaves, and its start when it takes something or finds it stopped. -/
theorem processRxBufferLocked_timer (env : CallbackEnv) (now : Nat) (c : Callback) :
    ((processRxBufferLocked env now c).rx.partialTimerActive = true ↔ (processRxBufferLocked env now c).rx.bytes ≠ []) ∧
    (c.rx.partialTimerActive = true → (processRxBufferLocked env now c).rx.bytes = c.rx.bytes →
      (processRxBufferLocked env now c).rx.partialStartedAt = c.rx.partialStartedAt) := by
  rw [processRxBufferLocked_eq]
  refine ⟨decide_eq_true_iff, fun hactive hrest => if_neg ?_⟩
  rintro ⟨-, htook | hoff⟩
  · exact htook (drain_eq_nil_of_rest hrest)
  · exact absurd (hactive.symm.trans hoff) nofun

/-- **The parser behind an append**, when the size guard has no reason to fire. -/
theorem processRxBufferLocked_keeps {now : Nat} {c₀ c : Callback} {appended : Bytes} (hc : c₀.rx.Guarded env.cfg)
    (hrx : c.rx = { c₀.rx with bytes := c₀.rx.bytes ++ appended })
    (hsize : partialSizeLimitReachedLocked env.cfg (processRxBufferLocked env now c).rx = false) :
    c₀.rx.Keeps env.cfg (processRxBufferLocked env now c).rx appended := by
  obtain ⟨hruns, hkept⟩ := processRxBufferLocked_timer env now c
  rw [hrx] at hkept
  refine ⟨⟨hruns, fun hguard => ?_⟩, fun hne heq => hkept (hc.timer.2 hne) heq⟩
  unfold partialSizeLimitReachedLocked at hsize
  split at hsize
  · rename_i hoff
    rw [hoff.resolve_left (by omega), List.length_nil]
    omega
  · simpa using hsize

theorem parseLocked_keeps {c : Callback} (hc : c.rx.Guarded env.cfg) (now : Nat) (bytes : Bytes) :
    c.rx.Keeps env.cfg (parseLocked env now bytes c).rx bytes := by
  have hrx : (if bytes ≠ [] then c.append bytes else c).rx = { c.rx with bytes := c.rx.bytes ++ bytes } := by
    by_cases hb : bytes = []
    · simp [hb]
    · simp [hb, Callback.append]
  unfold parseLocked
  generalize (if bytes ≠ [] then c.append bytes else c) = appended at hrx
  simp only
  split
  · exact RxBuffer.keeps_finalized sizeGuardMessage _ c.rx bytes
  · rename_i hsize
    exact processRxBufferLocked_keeps hc hrx (Bool.eq_false_iff.2 hsize)

theorem guardsLocked_keeps {c : Callback} (hc : c.rx.Guarded env.cfg) (parsedAt checkedAt : Nat) :
    c.rx.Keeps env.cfg (guardsLocked env checkedAt (processRxBufferLocked env parsedAt c)).rx [] := by
  unfold guardsLocked
  split
  · exact RxBuffer.keeps_finalized sizeGuardMessage _ c.rx []
  rename_i hsize
  split
  · exact RxBuffer.keeps_finalized timeoutGuardMessage _ c.rx []
  · exact processRxBufferLocked_keeps hc (by rw [List.append_nil]) (Bool.eq_false_iff.2 hsize)

/-- **The section at the top of the loop**; with the time guard, it leaves nothing where it does not wait. -/
theorem checkLocked_keeps {c : Callback} (hc : c.rx.Guarded env.cfg) (t : CallbackTurn) :
    c.rx.Keeps env.cfg (checkLocked env t c).1.rx [] ∧
      ((checkLocked env t c).2 = none → 0 < env.cfg.notifIncompleteTimeout → (checkLocked env t c).1.rx.bytes = []) := by
  have hguards := guardsLocked_keeps hc t.parsedAt t.checkedAt
  unfold checkLocked
  generalize guardsLocked env t.checkedAt (processRxBufferLocked env t.parsedAt c) = left at hguards
  simp only
  split
  · split
    · exact ⟨RxBuffer.keeps_finalized timeoutGuardMessage left c.rx [],
        fun _ _ => (finalizeIncompleteLocked_rx env timeoutGuardMessage left).1⟩
    · exact ⟨hguards, nofun⟩
  · rename_i hwait
    exact ⟨hguards, fun _ htime => not_not.1 fun hne => hwait ⟨hne, htime⟩⟩

theorem idleLocked_keeps {c : Callback} (hc : c.rx.Guarded env.cfg) (now : Nat) :
    c.rx.Keeps env.cfg (idleLocked env now c).rx [] := by
  unfold idleLocked
  split
  · exact RxBuffer.keeps_finalized timeoutGuardMessage c c.rx []
  · exact ⟨hc, fun _ _ => rfl⟩

/-! ## The acts of a call -/

namespace CallbackAct

def Released (cfg : ClientConfig) : CallbackAct → Prop
  | .released entered left appended _ => entered.Keeps cfg left appended
  | _ => True

def created : CallbackAct → List NotificationHealthEvent
  | .released _ _ _ created => created
  | _ => []

def sent : CallbackAct → List NotificationHealthEvent
  | .emitted event => [event]
  | _ => []

/-- A read of the channel or a poll, which may throw. -/
def Calls : CallbackAct → Prop
  | .read | .poll _ => True
  | _ => False

end CallbackAct

/-- What a piece of a call keeps: its releases, and its events, which are emitted in time. -/
structure Kept (cfg : ClientConfig) (acts : List CallbackAct) : Prop where
  released : ∀ act ∈ acts, act.Released cfg
  events : Prompt CallbackAct.created CallbackAct.sent CallbackAct.Calls acts

theorem Kept.append {acts acts' : List CallbackAct} (h : Kept cfg acts) (h' : Kept cfg acts') :
    Kept cfg (acts ++ acts') :=
  ⟨List.forall_mem_append.2 ⟨h.released, h'.released⟩, h.events.append h'.events⟩

theorem kept_nil : Kept cfg [] := ⟨fun _ h => absurd h List.not_mem_nil, Outbox.prompt_nil⟩

theorem kept_call {act : CallbackAct} (hact : act.Released cfg) (h : act.created = [] ∧ act.sent = []) :
    Kept cfg [act] := by
  refine ⟨fun a ha => ?_, Outbox.prompt_of_silent fun a ha => ?_⟩
  · rwa [List.mem_singleton.1 ha]
  · rwa [List.mem_singleton.1 ha]

theorem Kept.read {acts : List CallbackAct} (h : Kept cfg acts) : Kept cfg (.read :: acts) := by
  have hread : Kept cfg [.read] := kept_call trivial ⟨rfl, rfl⟩
  exact hread.append h

theorem Kept.poll {acts : List CallbackAct} (h : Kept cfg acts) (waitMs : Nat) : Kept cfg (.poll waitMs :: acts) := by
  have hpoll : Kept cfg [.poll waitMs] := kept_call trivial ⟨rfl, rfl⟩
  exact hpoll.append h

/-- Between two sections: the receive buffer is guarded, and no event waits. -/
structure Callback.Between (cfg : ClientConfig) (c : Callback) : Prop where
  guarded : c.rx.Guarded cfg
  flushed : c.sink.eventsToEmit = []

theorem Meanwhile.between {c : Callback} (h : c.Between cfg) (m : Meanwhile) : (m.apply c).Between cfg := by
  refine ⟨?_, h.flushed⟩
  unfold Meanwhile.apply
  simp only
  split
  · exact RxBuffer.guarded_of_empty rfl rfl
  · exact h.guarded

theorem flushActs_sent (s : Sink) : (flushActs s).flatMap CallbackAct.sent = s.eventsToEmit := by
  unfold flushActs
  rw [List.flatMap_append, List.flatMap_map]
  split <;> simp [CallbackAct.sent, List.flatMap_singleton']

theorem mem_flushActs {s : Sink} {act : CallbackAct} (h : act ∈ flushActs s) :
    act.Released cfg ∧ act.created = [] ∧ ¬ act.Calls := by
  unfold flushActs at h
  rcases List.mem_append.1 h with h | h
  · obtain ⟨event, -, rfl⟩ := List.mem_map.1 h
    exact ⟨trivial, rfl, id⟩
  · split at h
    · rw [List.mem_singleton.1 h]
      exact ⟨trivial, rfl, id⟩
    · cases h

/-- **A section and its flush**: what the section created is emitted at once. -/
theorem release_kept {entered left : Callback} {appended : Bytes} (h : entered.Between cfg)
    (hkeeps : entered.rx.Keeps cfg left.rx appended) :
    Kept cfg (release entered left appended).acts ∧ (release entered left appended).left.Between cfg := by
  refine ⟨⟨?_, ?_⟩, hkeeps.guarded, rfl⟩
  · exact List.forall_mem_cons.2 ⟨hkeeps, fun act hact => (mem_flushActs hact).1⟩
  · refine Outbox.prompt_flush ⟨rfl, id⟩ (fun act hact => (@mem_flushActs cfg _ _ hact).2) ?_
    rw [flushActs_sent, CallbackAct.created, h.flushed]
    rfl

/-! ## Whole calls -/

/-- What a call keeps, however it ends: what its acts keep, between two sections it stopped, and with the time guard it
does not return normally before the buffer is empty. -/
structure CallbackEnd.Sound (cfg : ClientConfig) (r : CallbackEnd) : Prop where
  kept : Kept cfg r.acts
  between : r.left.Between cfg
  empty : r.outcome = some (.ok ()) → 0 < cfg.notifIncompleteTimeout → r.left.rx.bytes = []

theorem CallbackEnd.Sound.after {r : CallbackEnd} {acts : List CallbackAct} (h : r.Sound cfg) (hacts : Kept cfg acts) :
    (r.after acts).Sound cfg :=
  ⟨hacts.append h.kept, h.between, h.empty⟩

theorem CallbackEnd.Sound.stopped {acts : List CallbackAct} {c : Callback} {o : Outcome Unit} (hacts : Kept cfg acts)
    (hc : c.Between cfg) (ho : o ≠ some (.ok ())) : CallbackEnd.Sound cfg ⟨acts, c, o⟩ :=
  ⟨hacts, hc, fun h => absurd h ho⟩

theorem parse_kept {c : Callback} (hc : c.Between env.cfg) (r : Reception) (bytes : Bytes) :
    Kept env.cfg (parse env r bytes c).acts ∧ (parse env r bytes c).left.Between env.cfg :=
  release_kept (r.behind.between hc) (parseLocked_keeps (r.behind.between hc).guarded r.now bytes)

theorem callbackLoop_sound : ∀ (turns : List CallbackTurn) (c : Callback), c.Between env.cfg →
    (callbackLoop env c turns).Sound env.cfg
  | [], _, hc => .stopped kept_nil hc nofun
  | t :: turns, c, hc => by
    have hbefore := t.before.between hc
    obtain ⟨hkeeps, hempty⟩ := checkLocked_keeps hbefore.guarded t
    obtain ⟨hchecked, hleft⟩ := release_kept hbefore hkeeps
    rw [callbackLoop]
    generalize checkLocked env t (t.before.apply c) = check at hempty hchecked hleft
    simp only
    split
    · rename_i hwait
      exact ⟨hchecked, hleft, fun _ htime => hempty hwait htime⟩
    rename_i waitMs _
    split
    · exact .stopped (hchecked.append (kept_nil.poll waitMs)) hleft nofun
    · exact .stopped (hchecked.append (kept_nil.poll waitMs)) hleft nofun
    · have hidle := t.idle.between hleft
      obtain ⟨hflushed, hnext⟩ := release_kept hidle (idleLocked_keeps hidle.guarded t.idleAt)
      exact (callbackLoop_sound turns _ hnext).after (hchecked.append (hflushed.poll waitMs))
    · split
      · exact .stopped (hchecked.append (kept_nil.read.poll waitMs)) hleft nofun
      · exact .stopped (hchecked.append (kept_nil.read.poll waitMs)) hleft nofun
      · rename_i more _
        obtain ⟨hparsed, hnext⟩ := parse_kept hleft t.reception more
        exact (callbackLoop_sound turns _ hnext).after (hchecked.append (hparsed.read.poll waitMs))

theorem onNotificationReady_sound {m : NotifMembers} (hm : m.rx.Guarded cfg) (xml : XmlParser) (call : CallbackCall) :
    (onNotificationReady cfg xml m call).Sound cfg := by
  have hstart : Callback.Between cfg { rx := m.rx, sink := { queue := m.queue } } := ⟨hm, rfl⟩
  have hcall : ∀ r : CallbackEnd, r.Sound cfg →
      CallbackEnd.Sound cfg { r with outcome := rethrow "Unable to read from channel: " r.outcome } :=
    fun r h => ⟨h.kept, h.between, fun ho => h.empty (rethrow_eq_ok.1 ho)⟩
  apply hcall
  split
  · exact .stopped kept_nil.read hstart nofun
  · exact .stopped kept_nil.read hstart nofun
  · rename_i bytes _
    obtain ⟨hparsed, hnext⟩ := @parse_kept ⟨cfg, xml, call.fd⟩ _ hstart call.reception bytes
    exact (callbackLoop_sound call.turns _ hnext).after hparsed.read

theorem runCallbacks_sound (xml : XmlParser) : ∀ (calls : List CallbackCall) {m : NotifMembers}, m.rx.Guarded cfg →
    ∀ r ∈ runCallbacks cfg xml m calls, r.Sound cfg
  | [], _, _, _, h => by cases h
  | call :: calls, m, hm, r, h => by
    have hcall := onNotificationReady_sound hm xml call
    rw [runCallbacks] at h
    rcases List.mem_cons.1 h with rfl | h
    · exact hcall
    · split at h
      · cases h
      · exact runCallbacks_sound xml calls hcall.between.guarded r h

/-- **Whole callbacks keep the receive buffer and the events.**  In every sequence of calls on a client, whatever the
reads, the polls, the clock and other threads do: at every release of `_notif_queue_mtx` the timer runs exactly while
bytes wait, the size guard's bound holds, and a section that found a partial and removed nothing has left the timer's
start alone; what is created is emitted, once and in order, in front of the next read or poll, and when the call ends,
normally or not; and a call that returns normally with the time guard leaves an empty buffer. -/
theorem callbacks_guarded (cfg : ClientConfig) (xml : XmlParser) (calls : List CallbackCall) :
    ∀ r ∈ runCallbacks cfg xml {} calls,
      (∀ entered left appended created, .released entered left appended created ∈ r.acts →
        (left.partialTimerActive = true ↔ left.bytes ≠ []) ∧
        (0 < cfg.notifIncompleteMaxKb → left.bytes.length < cfg.notifIncompleteMaxKb.toNat * 1024) ∧
        (entered.bytes ≠ [] → left.bytes = entered.bytes ++ appended →
          left.partialStartedAt = entered.partialStartedAt)) ∧
      Prompt CallbackAct.created CallbackAct.sent CallbackAct.Calls r.acts ∧
      (r.outcome = some (.ok ()) → 0 < cfg.notifIncompleteTimeout → r.left.rx.bytes = []) := by
  intro r hr
  have hsound := runCallbacks_sound xml calls (RxBuffer.guarded_of_empty rfl rfl) r hr
  refine ⟨fun entered left appended created hact => ?_, hsound.kept.events, hsound.empty⟩
  have hkeeps : entered.Keeps cfg left appended := hsound.kept.released _ hact
  exact ⟨hkeeps.guarded.timer, hkeeps.guarded.size, hkeeps.start⟩

/-- A notification that comes in two reads, the second behind a poll. -/
def splitCall : CallbackCall where
  fd := 7
  reception := { handles := { socket := 7 }, reads := [{ read := .bytes (ascii "<notification>") }, { read := .eagain }] }
  turns := [
    { polls := [.interrupted, .ready]
      reception := { handles := { socket := 7 }, reads := [{ read := .bytes (ascii "</notification>]]>]]>") }] } },
    { reception := { handles := { socket := 7 }, reads := [] } }]

theorem splitCall_guarded : (onNotificationReady defaultClient (fun _ => none) {} splitCall).left.rx.bytes = [] :=
  (callbacks_guarded defaultClient (fun _ => none) [splitCall] _ List.mem_cons_self).2.2 (by decide) (by decide)

/-! ## A call is a run of its sections -/

/-- Sections lead from one state to the other and append these bytes. -/
def SectionsTo (env : CallbackEnv) (c c' : Callback) (appended : Bytes) : Prop :=
  ∃ ops : List RxOp, c' = runRx env c ops ∧ ops.flatMap RxOp.received = appended

theorem SectionsTo.refl (env : CallbackEnv) (c : Callback) : SectionsTo env c c [] := ⟨[], rfl, rfl⟩

theorem SectionsTo.trans {c c' c'' : Callback} {b b' : Bytes} (h : SectionsTo env c c' b)
    (h' : SectionsTo env c' c'' b') : SectionsTo env c c'' (b ++ b') := by
  obtain ⟨ops, rfl, rfl⟩ := h
  obtain ⟨ops', rfl, rfl⟩ := h'
  exact ⟨ops ++ ops', by rw [runRx, runRx, runRx, List.foldl_append], List.flatMap_append⟩

theorem SectionsTo.step (env : CallbackEnv) (c : Callback) (op : RxOp) : SectionsTo env c (op.step env c) op.received :=
  ⟨[op], rfl, List.flatMap_singleton _ _⟩

theorem SectionsTo.then {c c' : Callback} {b : Bytes} (h : SectionsTo env c c' b) (op : RxOp)
    (hop : op.received = []) : SectionsTo env c (op.step env c') b := by
  have hstep := h.trans (SectionsTo.step env c' op)
  rwa [hop, List.append_nil] at hstep

theorem parseLocked_sections (env : CallbackEnv) (now : Nat) (bytes : Bytes) (c : Callback) :
    SectionsTo env c (parseLocked env now bytes c) bytes := by
  have happend : (if bytes ≠ [] then c.append bytes else c) = c.append bytes := by
    by_cases hb : bytes = []
    · simp [hb, Callback.append]
    · simp [hb]
  unfold parseLocked
  rw [happend]
  have hread : SectionsTo env c (processRxBufferLocked env now (c.append bytes)) bytes :=
    SectionsTo.step env c (.read bytes now)
  simp only
  split
  · exact hread.then (.guard .size) rfl
  · exact hread

theorem idleLocked_sections (env : CallbackEnv) (now : Nat) (c : Callback) :
    SectionsTo env c (idleLocked env now c) [] := by
  unfold idleLocked
  split
  · exact (SectionsTo.refl env c).then (.guard .timeout) rfl
  · exact SectionsTo.refl env c

theorem guardsLocked_sections (env : CallbackEnv) (now : Nat) (c : Callback) :
    SectionsTo env c (guardsLocked env now c) [] := by
  unfold guardsLocked
  split
  · exact (SectionsTo.refl env c).then (.guard .size) rfl
  · exact idleLocked_sections env now c

theorem checkLocked_sections (env : CallbackEnv) (t : CallbackTurn) (c : Callback) :
    SectionsTo env c (checkLocked env t c).1 [] := by
  have hparsed : SectionsTo env c (processRxBufferLocked env t.parsedAt c) [] := by
    have hread := SectionsTo.step env c (.read [] t.parsedAt)
    rwa [RxOp.step, Callback.append, List.append_nil] at hread
  have hguards := hparsed.trans (guardsLocked_sections env t.checkedAt _)
  unfold checkLocked
  simp only
  split
  · split
    · exact hguards.then (.guard .timeout) rfl
    · exact hguards
  · exact hguards

def CallbackAct.appended : CallbackAct → Bytes
  | .released _ _ appended _ => appended
  | _ => []

theorem flushActs_appended (s : Sink) : (flushActs s).flatMap CallbackAct.appended = [] := by
  rw [List.flatMap_eq_nil_iff]
  intro act hact
  unfold flushActs at hact
  rcases List.mem_append.1 hact with hact | hact
  · obtain ⟨event, -, rfl⟩ := List.mem_map.1 hact
    rfl
  · split at hact
    · rw [List.mem_singleton.1 hact]
      rfl
    · cases hact

theorem release_sections {c entered left : Callback} {b b' : Bytes} (h : SectionsTo env c entered b)
    (hleft : SectionsTo env entered left b') : SectionsTo env c (release entered left b').left
      (b ++ (release entered left b').acts.flatMap CallbackAct.appended) := by
  have hflush := (h.trans hleft).then (.between fun s => { s with eventsToEmit := [], queuedNotifications := 0 }) rfl
  rw [release, List.flatMap_cons, flushActs_appended, List.append_nil]
  exact hflush

def Meanwhile.Quiet (m : Meanwhile) : Prop := m.clears = false

theorem Meanwhile.sections {m : Meanwhile} (h : m.Quiet) (c : Callback) : SectionsTo env c (m.apply c) [] := by
  have hbetween := (SectionsTo.refl env c).then (.between fun s => { s with queue := m.queue s.queue }) rfl
  unfold Meanwhile.apply
  rw [h]
  exact hbetween

structure CallbackTurn.Quiet (t : CallbackTurn) : Prop where
  before : t.before.Quiet
  idle : t.idle.Quiet
  reception : t.reception.behind.Quiet

theorem parse_sections (env : CallbackEnv) {r : Reception} (hr : r.behind.Quiet) (bytes : Bytes) (c : Callback) :
    SectionsTo env c (parse env r bytes c).left ((parse env r bytes c).acts.flatMap CallbackAct.appended) :=
  release_sections (Meanwhile.sections hr c) (parseLocked_sections env r.now bytes _)

/-- **The loop is a run of sections**, as long as the buffer is not cleared meanwhile. -/
theorem callbackLoop_sections : ∀ (turns : List CallbackTurn) (c : Callback), (∀ t ∈ turns, t.Quiet) →
    SectionsTo env c (callbackLoop env c turns).left ((callbackLoop env c turns).acts.flatMap CallbackAct.appended)
  | [], c, _ => SectionsTo.refl env c
  | t :: turns, c, h => by
    obtain ⟨ht, hturns⟩ := List.forall_mem_cons.1 h
    have hchecked := release_sections (Meanwhile.sections ht.before c) (checkLocked_sections env t (t.before.apply c))
    rw [callbackLoop]
    generalize checkLocked env t (t.before.apply c) = check at hchecked
    rw [List.nil_append] at hchecked
    simp only
    split
    · exact hchecked
    split
    · simpa [CallbackAct.appended] using hchecked
    · simpa [CallbackAct.appended] using hchecked
    · have hidle := release_sections (Meanwhile.sections ht.idle (release (t.before.apply c) check.1 []).left)
        (idleLocked_sections env t.idleAt _)
      have hrest := (hchecked.trans hidle).trans (callbackLoop_sections turns _ hturns)
      simpa [CallbackEnd.after, CallbackAct.appended] using hrest
    · split
      · simpa [CallbackAct.appended] using hchecked
      · simpa [CallbackAct.appended] using hchecked
      · rename_i more _
        have hparsed := parse_sections env ht.reception more (release (t.before.apply c) check.1 []).left
        have hrest := (hchecked.trans hparsed).trans (callbackLoop_sections turns _ hturns)
        simpa [CallbackEnd.after, CallbackAct.appended] using hrest

/-- **A call is a run of its sections**, as long as nothing else clears the buffer. -/
theorem onNotificationReady_sections {m : NotifMembers} {call : CallbackCall} (hcall : call.reception.behind.Quiet)
    (hturns : ∀ t ∈ call.turns, t.Quiet) {xml : XmlParser} :
    SectionsTo ⟨cfg, xml, call.fd⟩ { rx := m.rx, sink := { queue := m.queue } } (onNotificationReady cfg xml m call).left
      ((onNotificationReady cfg xml m call).acts.flatMap CallbackAct.appended) := by
  unfold onNotificationReady
  simp only
  split
  · exact SectionsTo.refl _ _
  · exact SectionsTo.refl _ _
  · rename_i bytes _
    have hparsed := parse_sections ⟨cfg, xml, call.fd⟩ hcall bytes { rx := m.rx, sink := { queue := m.queue } }
    have hrest := hparsed.trans (callbackLoop_sections call.turns _ hturns)
    simpa [CallbackEnd.after, CallbackAct.appended] using hrest

/-- **Every byte a call appends is accounted for**: on a cleared buffer, the bytes are those of the segments taken, in
order, and of the buffer it leaves. -/
theorem onNotificationReady_accounted {call : CallbackCall} (hcall : call.reception.behind.Quiet)
    (hturns : ∀ t ∈ call.turns, t.Quiet) (xml : XmlParser) (q : NotifQueue) :
    ∃ segs : List Segment, (∀ seg ∈ segs, seg.span ≠ [] ∧ seg.WellFormed) ∧
      (onNotificationReady cfg xml { queue := q } call).acts.flatMap CallbackAct.appended =
        segs.flatMap Segment.span ++ (onNotificationReady cfg xml { queue := q } call).left.rx.bytes := by
  obtain ⟨ops, hleft, hbytes⟩ := @onNotificationReady_sections cfg { queue := q } call hcall hturns xml
  obtain ⟨acts, hsegs, haccounted, -⟩ := runRx_accounted ⟨cfg, xml, call.fd⟩ ops { sink := { queue := q } } rxTurn_nil
  refine ⟨segmentsOf acts, fun seg h => ⟨(hsegs seg h).span_ne_nil, hsegs seg h⟩, ?_⟩
  rw [← hbytes, hleft]
  exact haccounted

end PyNetX
