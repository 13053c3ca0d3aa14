import PyNetX.Client
/-!
# Transport — the writers and readers of a NETCONF channel

`libssh2`, `poll` and the steady clock are scripts: what each call on the channel comes to, in the order of the calls,
with the clock readings taken around it.  A script that ends while a call still needs it leaves that call running.
What a reader returns is what it took from the channel, and it stops at the first read that completes a marker
(`readLoop_spec`).
-/
namespace PyNetX

open Search (find)

/-- How a call ended: with a value, or with an exception and its `what()`; `none` while it is still inside. -/
abbrev Outcome (α : Type) := Option (Except Bytes α)

/-- `catch (const std::exception& e)` that throws `text + e.what()`. -/
def rethrow {α : Type} (text : String) (o : Outcome α) : Outcome α := o.map (Except.mapError (ascii text ++ ·))

@[simp] theorem rethrow_eq_ok {α : Type} {text : String} {o : Outcome α} {a : α} :
    rethrow text o = some (.ok a) ↔ o = some (.ok a) := by
  unfold rethrow
  rcases o with _ | _ | _ <;> simp [Except.mapError]

@[simp] theorem rethrow_eq_none {α : Type} {text : String} {o : Outcome α} : rethrow text o = none ↔ o = none :=
  Option.map_eq_none_iff

/-- `libssh2_session_last_error`'s text, or what stands for a null one. -/
def lastError (errMsg : Option Bytes) : Bytes := errMsg.getD (ascii "Unknown error")

/-! ## Writing -/

/-- What one `libssh2_channel_write` comes to; after `LIBSSH2_ERROR_EAGAIN` the non-blocking senders poll. -/
inductive ChannelWrite where
  | eagain (pollError errMsg : Option Bytes)
  | failed (errMsg : Option Bytes)
  | accepted (n : Nat)
  deriving DecidableEq

/-- The bytes the channel accepted, and how writing ended. -/
structure Written where
  accepted : Bytes
  outcome : Outcome Unit
  deriving DecidableEq

/-- `while (total_written < data_length)` of the non-blocking senders, which differ in their two texts; the channel
accepts no more than it is offered. -/
def writeLoop (pollText failText : String) : Bytes → List ChannelWrite → Written
  | [], _ => ⟨[], some (.ok ())⟩
  | _ :: _, [] => ⟨[], none⟩
  | b :: data, .eagain none _ :: writes => writeLoop pollText failText (b :: data) writes
  | _ :: _, .eagain (some e) _ :: _ => ⟨[], some (.error (ascii pollText ++ e))⟩
  | _ :: _, .failed e :: _ => ⟨[], some (.error (ascii failText ++ lastError e))⟩
  | b :: data, .accepted n :: writes =>
    let w := writeLoop pollText failText ((b :: data).drop n) writes
    ⟨(b :: data).take n ++ w.accepted, w.outcome⟩

/-- The one `libssh2_channel_write` of the blocking senders: every negative result throws, and what it accepted of the
data is not looked at. -/
def writeOnce (failText : String) (data : Bytes) : List ChannelWrite → Written
  | [] => ⟨[], none⟩
  | .eagain _ e :: _ | .failed e :: _ => ⟨[], some (.error (ascii failText ++ lastError e))⟩
  | .accepted n :: _ => ⟨data.take n, some (.ok ())⟩

/-! ## Waiting -/

/-- What one `poll` of `wait_for_libssh2_socket` comes to. -/
inductive PollResult where
  | interrupted | failed (strerror : Bytes) | timeout | invalid | closed | ready
  deriving DecidableEq

/-- A `poll`, and the clock in front of it. -/
structure Poll where
  now : Nat
  result : PollResult
  deriving DecidableEq

def deviceSilent (readTimeout : Int) : Bytes :=
  ascii "Device failed to send data within " ++ ascii (toString readTimeout) ++ ascii "s, try increasing read_timeout"

def maxEagainPollSliceMs : Nat := 1000

def remainingPollTimeoutMs (deadline : Nat) (infiniteWait : Bool) (now : Nat) : Nat :=
  if infiniteWait then maxEagainPollSliceMs
  else if deadline ≤ now then 0
  else min ((deadline - now) / 1000000) maxEagainPollSliceMs

def waitForLibssh2Socket (socFd : Int) (deadline : Nat) (infiniteWait : Bool) (readTimeout : Int) (polls : List Poll) :
    Outcome Unit :=
  if socFd < 0 then some (.error (ascii "Invalid socket while waiting for channel readiness")) else go polls
where
  go : List Poll → Outcome Unit
    | [] => none
    | p :: polls =>
      if ¬ infiniteWait ∧ remainingPollTimeoutMs deadline infiniteWait p.now = 0 then
        some (.error (deviceSilent readTimeout))
      else
        match p.result with
        | .interrupted => go polls
        | .failed e => some (.error (ascii "Poll error while waiting for channel readiness: " ++ e))
        | .timeout => some (.ok ())
        | .invalid => some (.error (ascii "Invalid socket while waiting for channel readiness"))
        | .closed => some (.error (ascii "Socket closed or errored while waiting for channel readiness"))
        | .ready => some (.ok ())

/-! ## Reading -/

/-- What one read of the channel comes to: `LIBSSH2_ERROR_EAGAIN`, another negative result, or bytes, none of them for
a result of zero. -/
inductive ChannelRead where
  | eagain
  | failed (errMsg : Option Bytes)
  | bytes (b : Bytes)
  deriving DecidableEq

/-- One turn of a reader's loop: the clock at its top, the read, the polls should it wait, and the clock when
`first_data_time` and `last_data_time` are set. -/
structure ReadTurn where
  now : Nat := 0
  read : ChannelRead
  polls : List Poll := []
  firstStamp : Nat := 0
  lastStamp : Nat := 0
  deriving DecidableEq

/-- The bytes a turn brings, if it brings any. -/
def ReadTurn.data? (t : ReadTurn) : Option Bytes :=
  match t.read with
  | .bytes (b :: bs) => some (b :: bs)
  | _ => none

/-- The pieces a channel gives, in order. -/
def pieces (tape : List ReadTurn) : List Bytes := tape.filterMap ReadTurn.data?

/-- What a reader took from the channel, how it ended, and what it left of the script. -/
structure ReadEnd where
  reads : List Bytes
  outcome : Outcome Bytes
  unread : List ReadTurn
  deriving DecidableEq

/-- The parameters of a read: what it reads from, and its limits. -/
structure ReadParams where
  chan : Bool := true
  sess : Bool := true
  socFd : Int
  readTimeout : Int
  notifIncompleteMaxKb : Int := -1
  notifIncompleteTimeout : Int := -1

/-- The locals of `read_until_eom_non_blocking`. -/
structure ReadState where
  response : Bytes := []
  lastDataTime : Nat
  firstDataTime : Nat
  gotAnyData : Bool := false

namespace ReadParams

def infiniteWait (p : ReadParams) : Bool := p.readTimeout < 0

def incompleteSizeLimitEnabled (p : ReadParams) : Bool := p.infiniteWait && 0 < p.notifIncompleteMaxKb

def incompleteTimeLimitEnabled (p : ReadParams) : Bool := p.infiniteWait && 0 < p.notifIncompleteTimeout

/-- `response.size() >= incomplete_max_bytes`, where that limit is enabled. -/
def sizeReached (p : ReadParams) (response : Bytes) : Bool :=
  p.incompleteSizeLimitEnabled && p.notifIncompleteMaxKb.toNat * 1024 ≤ response.length

/-- The guard at the top of a turn: the partial response is returned. -/
def guardFires (p : ReadParams) (st : ReadState) (now : Nat) : Bool :=
  st.gotAnyData && ((p.incompleteTimeLimitEnabled && seconds p.notifIncompleteTimeout ≤ now - st.firstDataTime) ||
    p.sizeReached st.response)

/-- `last_data_time + timeout`. -/
def deadline (p : ReadParams) (st : ReadState) : Nat := st.lastDataTime + seconds p.readTimeout

end ReadParams

/-- A non-empty read is appended. -/
def ReadState.append (st : ReadState) (t : ReadTurn) (b : Bytes) : ReadState where
  response := st.response ++ b
  lastDataTime := t.lastStamp
  firstDataTime := if st.gotAnyData then st.firstDataTime else t.firstStamp
  gotAnyData := true

/-- What a read without data comes to, `LIBSSH2_ERROR_EAGAIN` and a result of zero alike: the call ends, or goes on. -/
def waitOrStop (p : ReadParams) (st : ReadState) (t : ReadTurn) : Option (Outcome Bytes) :=
  if p.infiniteWait ∧ ¬ st.gotAnyData then some (some (.ok st.response))
  else
    match waitForLibssh2Socket p.socFd (p.deadline st) p.infiniteWait p.readTimeout t.polls with
    | none => some none
    | some (.error e) => some (some (.error e))
    | some (.ok ()) => none

/-- `while (true)` of `read_until_eom_non_blocking`, behind its check for a missing channel or session. -/
def readLoop (p : ReadParams) (st : ReadState) : List ReadTurn → ReadEnd
  | [] => ⟨[], none, []⟩
  | t :: tape =>
    if p.guardFires st t.now then ⟨[], some (.ok st.response), t :: tape⟩
    else if ¬ p.infiniteWait ∧ p.deadline st ≤ t.now then ⟨[], some (.error (deviceSilent p.readTimeout)), t :: tape⟩
    else
      match t.read with
      | .failed e => ⟨[], some (.error (ascii "Error reading from channel: " ++ lastError e)), tape⟩
      | .eagain | .bytes [] =>
        match waitOrStop p st t with
        | some o => ⟨[], o, tape⟩
        | none => readLoop p st tape
      | .bytes (b :: bs) =>
        let st := st.append t (b :: bs)
        if (find eom st.response).isSome ∨ p.sizeReached st.response then ⟨[b :: bs], some (.ok st.response), tape⟩
        else
          let r := readLoop p st tape
          ⟨(b :: bs) :: r.reads, r.outcome, r.unread⟩

def operationCancelled : Bytes := ascii "Operation cancelled: connection object is missing"

/-- `read_until_eom_non_blocking`; `startedAt` is the clock when it is entered. -/
def readUntilEomNonBlocking (p : ReadParams) (startedAt : Nat) (tape : List ReadTurn) : ReadEnd :=
  let r := if ¬ (p.chan ∧ p.sess) then ⟨[], some (.error operationCancelled), tape⟩
    else readLoop p { lastDataTime := startedAt, firstDataTime := startedAt } tape
  { r with outcome := rethrow "Error occured while reading from channel: " r.outcome }

/-- `while (true)` of `read_until_eom_blocking`: the marker is looked for in the last seven bytes of the response with
the new data behind them. -/
def readLoopBlocking (readTimeout : Int) (response : Bytes) (lastDataTime : Nat) : List ReadTurn → ReadEnd
  | [] => ⟨[], none, []⟩
  | t :: tape =>
    if 0 ≤ readTimeout ∧ seconds readTimeout < t.now - lastDataTime then
      ⟨[], some (.error (deviceSilent readTimeout)), t :: tape⟩
    else
      match t.read with
      | .eagain => readLoopBlocking readTimeout response lastDataTime tape
      | .failed e => ⟨[], some (.error (ascii "Error reading from channel: " ++ lastError e)), tape⟩
      | .bytes b =>
        let response := response ++ b
        let tail := response.drop (response.length - 7)
        let reads := if b = [] then [] else [b]
        if (find eom (tail ++ b)).isSome then ⟨reads, some (.ok response), tape⟩
        else
          let r := readLoopBlocking readTimeout response t.lastStamp tape
          ⟨reads ++ r.reads, r.outcome, r.unread⟩

def readUntilEomBlocking (chan : Bool) (readTimeout : Int) (startedAt : Nat) (tape : List ReadTurn) : ReadEnd :=
  let r := if ¬ chan then ⟨[], some (.error operationCancelled), tape⟩
    else readLoopBlocking readTimeout [] startedAt tape
  { r with outcome := rethrow "Error occured while reading from channel: " r.outcome }

/-! ## What they come to -/

/-- **A write that ends normally has put everything on the channel.** -/
theorem writeLoop_ok {pollText failText : String} : ∀ (data : Bytes) (writes : List ChannelWrite),
    (writeLoop pollText failText data writes).outcome = some (.ok ()) →
      (writeLoop pollText failText data writes).accepted = data
  | [], _, _ => by rw [writeLoop]
  | _ :: _, [], h => by rw [writeLoop] at h; cases h
  | b :: data, .eagain none e :: writes, h => by
    rw [writeLoop] at h ⊢
    exact writeLoop_ok (b :: data) writes h
  | _ :: _, .eagain (some e) _ :: _, h => by rw [writeLoop] at h; cases h
  | _ :: _, .failed e :: _, h => by rw [writeLoop] at h; cases h
  | b :: data, .accepted n :: writes, h => by
    rw [writeLoop] at h ⊢
    simp only at h ⊢
    rw [writeLoop_ok _ writes h, List.take_append_drop]

theorem pieces_cons (t : ReadTurn) (tape : List ReadTurn) : pieces (t :: tape) = t.data?.toList ++ pieces tape := by
  unfold pieces
  rw [List.filterMap_cons]
  cases t.data? <;> rfl

/-- What a turn of `read_until_eom_non_blocking` does: it ends the call without a piece, with a last piece, or it goes
on with or without one. -/
inductive TurnOutcome (p : ReadParams) (st : ReadState) (t : ReadTurn) (tape : List ReadTurn) : ReadEnd → Prop
  | stop {o : Outcome Bytes} {unread : List ReadTurn} (hunread : unread = t :: tape ∨ unread = tape ∧ t.data? = none)
      (ho : p.infiniteWait = false → ∀ reply, o ≠ some (.ok reply)) (hok : ∀ reply, o = some (.ok reply) →
        reply = st.response) : TurnOutcome p st t tape ⟨[], o, unread⟩
  | idle (ht : t.data? = none) : TurnOutcome p st t tape (readLoop p st tape)
  | last {b : Bytes} (ht : t.data? = some b)
      (hend : (find eom (st.append t b).response).isSome ∨ p.sizeReached (st.append t b).response) :
      TurnOutcome p st t tape ⟨[b], some (.ok (st.append t b).response), tape⟩
  | more {b : Bytes} (ht : t.data? = some b) (hfind : find eom (st.append t b).response = none) :
      TurnOutcome p st t tape ⟨b :: (readLoop p (st.append t b) tape).reads, (readLoop p (st.append t b) tape).outcome,
        (readLoop p (st.append t b) tape).unread⟩

theorem waitOrStop_some {p : ReadParams} {st : ReadState} {t : ReadTurn} {o : Outcome Bytes}
    (h : waitOrStop p st t = some o) :
    (p.infiniteWait = false → ∀ reply, o ≠ some (.ok reply)) ∧ ∀ reply, o = some (.ok reply) → reply = st.response := by
  unfold waitOrStop at h
  split at h
  · rename_i hw
    cases h
    exact ⟨fun hi => absurd hw.1 (by simp [hi]), fun reply h => by cases h; rfl⟩
  · split at h <;> cases h
    · exact ⟨fun _ _ => nofun, nofun⟩
    · exact ⟨fun _ _ => nofun, nofun⟩

theorem readLoop_cons (p : ReadParams) (st : ReadState) (t : ReadTurn) (tape : List ReadTurn) :
    TurnOutcome p st t tape (readLoop p st (t :: tape)) := by
  have hwait (ht : t.data? = none) : TurnOutcome p st t tape
      (match waitOrStop p st t with
      | some o => ⟨[], o, tape⟩
      | none => readLoop p st tape) := by
    split
    · rename_i o ho
      exact .stop (Or.inr ⟨rfl, ht⟩) (waitOrStop_some ho).1 (waitOrStop_some ho).2
    · exact .idle ht
  rw [readLoop]
  split
  · rename_i hg
    refine .stop (Or.inl rfl) (fun hi => ?_) (fun reply h => by cases h; rfl)
    simp [ReadParams.guardFires, ReadParams.sizeReached, ReadParams.incompleteSizeLimitEnabled,
      ReadParams.incompleteTimeLimitEnabled, hi] at hg
  split
  · exact .stop (Or.inl rfl) (fun _ _ => nofun) nofun
  split
  · rename_i e h
    exact .stop (Or.inr ⟨rfl, by rw [ReadTurn.data?, h]⟩) (fun _ _ => nofun) nofun
  · rename_i h
    exact hwait (by rw [ReadTurn.data?, h])
  · rename_i h
    exact hwait (by rw [ReadTurn.data?, h])
  · rename_i b bs h
    have ht : t.data? = some (b :: bs) := by rw [ReadTurn.data?, h]
    simp only
    split
    · rename_i hend
      exact .last ht hend
    · rename_i hend
      exact .more ht (Option.not_isSome_iff_eq_none.1 (fun hf => hend (Or.inl hf)))

/-- **The pieces are taken in order**: what a reader took and what it left are the script's. -/
theorem readLoop_pieces (p : ReadParams) : ∀ (tape : List ReadTurn) (st : ReadState),
    (readLoop p st tape).reads ++ pieces (readLoop p st tape).unread = pieces tape ∧
    (readLoop p st tape).unread <:+ tape
  | [], _ => by rw [readLoop]; exact ⟨rfl, List.suffix_rfl⟩
  | t :: tape, st => by
    have hsuffix {unread : List ReadTurn} (h : unread <:+ tape) : unread <:+ t :: tape :=
      h.trans (List.suffix_cons t tape)
    have hturn := readLoop_cons p st t tape
    generalize readLoop p st (t :: tape) = r at hturn
    cases hturn with
    | stop hunread =>
      rcases hunread with rfl | ⟨rfl, ht⟩
      · exact ⟨rfl, List.suffix_rfl⟩
      · exact ⟨by rw [pieces_cons, ht]; rfl, hsuffix List.suffix_rfl⟩
    | idle ht =>
      obtain ⟨hpieces, hunread⟩ := readLoop_pieces p tape st
      exact ⟨by rw [hpieces, pieces_cons, ht]; rfl, hsuffix hunread⟩
    | last ht => exact ⟨by rw [pieces_cons, ht]; rfl, hsuffix List.suffix_rfl⟩
    | more ht =>
      obtain ⟨hpieces, hunread⟩ := readLoop_pieces p tape (st.append t _)
      exact ⟨by rw [List.cons_append, hpieces, pieces_cons, ht]; rfl, hsuffix hunread⟩

/-- With `before` in hand and no marker in it: a reader that returned has taken pieces up to the first that completes
a marker, and returns them all; one that did not return has seen none. -/
def ReadEnd.StopsAtMarker (before : Bytes) (r : ReadEnd) : Prop :=
  match r.outcome with
  | some (.ok reply) => reply = before ++ r.reads.flatten ∧ find eom reply ≠ none ∧
      ∃ front last, r.reads = front ++ [last] ∧ find eom (before ++ front.flatten) = none
  | _ => find eom (before ++ r.reads.flatten) = none

/-- **A reader with a time limit stops at the marker.** -/
theorem readLoop_stopsAtMarker {p : ReadParams} (hp : p.infiniteWait = false) : ∀ (tape : List ReadTurn)
    (st : ReadState), find eom st.response = none → (readLoop p st tape).StopsAtMarker st.response
  | [], st, h => by
    rw [readLoop, ReadEnd.StopsAtMarker]
    simpa using h
  | t :: tape, st, h => by
    have hturn := readLoop_cons p st t tape
    generalize readLoop p st (t :: tape) = r at hturn
    cases hturn with
    | stop _ ho _ =>
      unfold ReadEnd.StopsAtMarker
      split
      · rename_i reply hr
        exact absurd hr (ho hp reply)
      · simpa using h
    | idle _ => exact readLoop_stopsAtMarker hp tape st h
    | last _ hend =>
      have hfind : (find eom (st.append t _).response).isSome := hend.resolve_right (by
        simp [ReadParams.sizeReached, ReadParams.incompleteSizeLimitEnabled, hp])
      refine ⟨by simp [ReadState.append], Option.isSome_iff_ne_none.1 hfind, [], _, rfl, by simpa using h⟩
    | more _ hfind =>
      have ih := readLoop_stopsAtMarker hp tape (st.append t _) hfind
      unfold ReadEnd.StopsAtMarker at ih ⊢
      simp only [ReadState.append, List.flatten_cons, List.append_assoc] at ih ⊢
      split
      · rename_i reply hr
        rw [hr] at ih
        obtain ⟨hreply, hmark, front, last, hreads, hfront⟩ := ih
        exact ⟨hreply, hmark, _ :: front, last, by rw [hreads]; rfl, by simpa using hfront⟩
      · rename_i hr
        split at ih
        · rename_i reply hr'
          exact absurd hr' (hr reply)
        · exact ih

theorem ReadEnd.stopsAtMarker_rethrow {before : Bytes} {r : ReadEnd} (h : r.StopsAtMarker before) (text : String) :
    ReadEnd.StopsAtMarker before { r with outcome := rethrow text r.outcome } := by
  unfold ReadEnd.StopsAtMarker at h ⊢
  obtain ⟨reads, o, unread⟩ := r
  rcases o with _ | _ | _ <;> exact h

/-- **The non-blocking reader stops at the marker**, from the first byte on. -/
theorem readUntilEomNonBlocking_stopsAtMarker {p : ReadParams} (hp : p.infiniteWait = false) (startedAt : Nat)
    (tape : List ReadTurn) : (readUntilEomNonBlocking p startedAt tape).StopsAtMarker [] := by
  unfold readUntilEomNonBlocking
  refine ReadEnd.stopsAtMarker_rethrow ?_ _
  have hnil : find eom ([] : Bytes) = none := Search.find_nil_of_ne_nil eom_ne_nil
  split
  · exact hnil
  · exact readLoop_stopsAtMarker hp tape _ hnil

theorem readUntilEomNonBlocking_pieces (p : ReadParams) (startedAt : Nat) (tape : List ReadTurn) :
    (readUntilEomNonBlocking p startedAt tape).reads ++ pieces (readUntilEomNonBlocking p startedAt tape).unread =
      pieces tape ∧ (readUntilEomNonBlocking p startedAt tape).unread <:+ tape := by
  unfold readUntilEomNonBlocking
  split
  · exact ⟨rfl, List.suffix_rfl⟩
  · exact readLoop_pieces p tape _

end PyNetX
