import PyNetX.BlockingReader
import PyNetX.Lib.Run
import PyNetX.Rpc
/-!
# BlockingReceive — notifications, one call at a time

On a client connected synchronously nothing waits in a queue: `receive_notification_sync` reads the notification channel
itself, until its reader sees a marker.  Calls one after the other lose no byte while they return, and each is given one
notification exactly if the reads fall into groups, one for each call, in time and with the marker where the reader sees
it (`receives_each_iff`).
-/
namespace PyNetX

open Search (find)
open Run (run Along)

/-- `receive_notification_blocking`. -/
def receiveNotificationBlocking (h : Handles) (readTimeout : Int) (startedAt : Nat) (tape : List ReadTurn) : ReadEnd :=
  let r := if ¬ h.channel then ⟨[], some (.error (ascii "Notification channel not open.")), tape⟩
    else if ¬ h.session then ⟨[], some (.error (ascii "Notification session not open.")), tape⟩
    else readUntilEomBlocking h.channel readTimeout startedAt tape
  { r with outcome := rethrow "Unable to connect to device: " r.outcome }

/-- `receive_notification_sync`'s task on a worker: its checks, `session_mutex_`, which another call may hold, and the
call. -/
def receiveNotificationSync (isConnected isBlocking held : Bool) (h : Handles) (readTimeout : Int) (startedAt : Nat)
    (tape : List ReadTurn) : ReadEnd :=
  if ¬ isConnected then ⟨[], some (.error (ascii "Client should be connected first")), tape⟩
  else if ¬ isBlocking then
    ⟨[], some (.error (ascii "Client is connected asynchronously, call asynchronous methods")), tape⟩
  else if held then ⟨[], none, tape⟩
  else receiveNotificationBlocking h readTimeout startedAt tape

/-- A call, with what it finds when it runs. -/
structure ReceiveCall where
  isConnected : Bool := true
  isBlocking : Bool := true
  handles : Handles
  startedAt : Nat := 0

/-- The notification channel of a client: what it still brings, whether a call is inside, and what calls returned. -/
structure Receiver where
  unread : List ReadTurn
  held : Bool := false
  given : List Bytes := []

variable (readTimeout : Int)

def ReceiveCall.on (s : Receiver) (call : ReceiveCall) : ReadEnd :=
  receiveNotificationSync call.isConnected call.isBlocking s.held call.handles readTimeout call.startedAt s.unread

/-- What a call returns, if it returns. -/
def ReadEnd.texts (r : ReadEnd) : List Bytes :=
  match r.outcome with
  | some (.ok text) => [text]
  | _ => []

def Receiver.step (s : Receiver) (call : ReceiveCall) : Receiver where
  unread := (call.on readTimeout s).unread
  held := s.held || (call.on readTimeout s).outcome.isNone
  given := s.given ++ (call.on readTimeout s).texts

/-- Calls one after the other. -/
def runReceives (tape : List ReadTurn) (calls : List ReceiveCall) : Receiver :=
  run (Receiver.step readTimeout) { unread := tape } calls

/-- No check refuses the call. -/
structure ReceiveCall.Passes (call : ReceiveCall) : Prop where
  isConnected : call.isConnected = true
  isBlocking : call.isBlocking = true
  channel : call.handles.channel = true
  session : call.handles.session = true

/-- No read fails, and none comes too late; an empty one resets the clock, and does no more. -/
def InTime (readTimeout : Int) (lastDataTime : Nat) : List ReadTurn → Prop
  | [] => True
  | t :: own => ¬ (0 ≤ readTimeout ∧ seconds readTimeout < t.now - lastDataTime) ∧
    match t.read with
    | .eagain => InTime readTimeout lastDataTime own
    | .bytes _ => InTime readTimeout t.lastStamp own
    | .failed _ => False

/-- The last turn brings bytes. -/
def EndsWithBytes (own : List ReadTurn) : Prop := (own.getLast?.bind ReadTurn.data?).isSome

/-- The turns bring the call this text and no more: it passes its checks, their reads are in time and harmless to the
reader, and the last one completes the text. -/
structure ReceiveCall.Brought (call : ReceiveCall) (own : List ReadTurn) (text : Bytes) : Prop where
  passes : call.Passes
  inTime : InTime readTimeout call.startedAt own
  ends : EndsWithBytes own
  text : (pieces own).flatten = text
  harmless : Harmless [] (pieces own)

/-- The turns fall into groups, one for each call, that bring it its notification. -/
def OneEach : List Bytes → List ReceiveCall → List ReadTurn → Prop
  | p :: ps, call :: calls, tape => ∃ own later, tape = own ++ later ∧ call.Brought readTimeout own (p ++ eom) ∧
      OneEach ps calls later
  | _, _, _ => True

/-! ## What the reader takes -/

variable {readTimeout}

theorem pieces_append (own later : List ReadTurn) : pieces (own ++ later) = pieces own ++ pieces later :=
  List.filterMap_append

theorem endsWithBytes_cons {t : ReadTurn} {own : List ReadTurn} :
    EndsWithBytes (t :: own) ↔ own = [] ∧ t.data?.isSome ∨ EndsWithBytes own := by
  cases own with
  | nil => simp [EndsWithBytes]
  | cons t' own => simp [EndsWithBytes, List.getLast?_cons_cons]

theorem EndsWithBytes.pieces_ne_nil : ∀ {own : List ReadTurn}, EndsWithBytes own → (pieces own).flatten ≠ []
  | [], h => by cases h
  | t :: own, h => by
    rw [pieces_cons, List.flatten_append]
    rcases endsWithBytes_cons.1 h with ⟨_, hdata⟩ | hends
    · unfold ReadTurn.data? at hdata ⊢
      split at hdata
      · simp
      · cases hdata
    · exact List.append_ne_nil_of_right_ne_nil _ hends.pieces_ne_nil

/-- **What a reader that returns has taken**: turns in time, to the end of the text that it returns. -/
theorem readLoopBlocking_own : ∀ (tape : List ReadTurn) (response : Bytes) (last : Nat) {text : Bytes},
    find eom (response.drop (response.length - 7)) = none →
    (readLoopBlocking readTimeout response last tape).outcome = some (.ok text) →
    ∃ own, tape = own ++ (readLoopBlocking readTimeout response last tape).unread ∧ InTime readTimeout last own ∧
      EndsWithBytes own ∧ text = response ++ (pieces own).flatten
  | [], _, _, _, _, h => by cases h
  | t :: tape, response, last, text, hnone, h => by
    rw [readLoopBlocking] at h ⊢
    split at h
    · cases h
    rename_i htime
    rw [if_neg htime]
    -- the turns of a call that goes on behind this one
    have hmore : ∀ (b : Bytes) (last' : Nat), t.data?.toList.flatten = b →
        (∀ own, InTime readTimeout last' own → InTime readTimeout last (t :: own)) →
        (∃ own, tape = own ++ (readLoopBlocking readTimeout (response ++ b) last' tape).unread ∧
          InTime readTimeout last' own ∧ EndsWithBytes own ∧ text = response ++ b ++ (pieces own).flatten) →
        ∃ own, t :: tape = own ++ (readLoopBlocking readTimeout (response ++ b) last' tape).unread ∧
          InTime readTimeout last own ∧ EndsWithBytes own ∧ text = response ++ (pieces own).flatten := by
      rintro b last' hdata hin ⟨own, htape, htimes, hends, htext⟩
      refine ⟨t :: own, by rw [List.cons_append, ← htape], hin own htimes, endsWithBytes_cons.2 (Or.inr hends), ?_⟩
      rw [htext, pieces_cons, List.flatten_append, hdata, List.append_assoc]
    cases hread : t.read with
    | eagain =>
      simp only [hread] at h ⊢
      have ih := hmore [] last (by simp [ReadTurn.data?, hread]) (fun own hown => ⟨htime, by simpa [hread] using hown⟩)
      simp only [List.append_nil] at ih
      exact ih (readLoopBlocking_own tape response last hnone h)
    | failed e =>
      simp only [hread] at h
      cases h
    | bytes b =>
      simp only [hread] at h ⊢
      split at h
      · rename_i hmark
        rw [if_pos hmark]
        cases h
        have hb : b ≠ [] := by
          rintro rfl
          simp [hnone] at hmark
        obtain ⟨x, xs, rfl⟩ := List.exists_cons_of_ne_nil hb
        refine ⟨[t], rfl, ⟨htime, by simp [hread, InTime]⟩, ?_, ?_⟩
        · exact endsWithBytes_cons.2 (Or.inl ⟨rfl, by simp [ReadTurn.data?, hread]⟩)
        · simp [pieces, ReadTurn.data?, hread]
      · rename_i hmark
        rw [if_neg hmark]
        have htail := Search.find_none_of_append_left (Option.not_isSome_iff_eq_none.1 hmark)
        refine hmore b t.lastStamp ?_ (fun own hown => ⟨htime, by simpa [hread] using hown⟩)
          (readLoopBlocking_own tape (response ++ b) t.lastStamp htail h)
        cases b <;> simp [ReadTurn.data?, hread]

/-! ## One notification -/

/-- **A call returns just this notification**, when its reads are in time, exactly if they are harmless. -/
theorem receive_own_iff {p : Bytes} (hp : find eom (p ++ eom) = some p.length) (later : List ReadTurn) :
    ∀ (own : List ReadTurn) (response : Bytes) (last : Nat), find eom response = none → InTime readTimeout last own →
      EndsWithBytes own → response ++ (pieces own).flatten = p ++ eom →
      (Harmless response (pieces own) ↔
        (readLoopBlocking readTimeout response last (own ++ later)).outcome = some (.ok (p ++ eom)) ∧
          (readLoopBlocking readTimeout response last (own ++ later)).unread = later)
  | [], _, _, _, _, hends, _ => by cases hends
  | t :: own, response, last, hnone, hin, hends, htext => by
    obtain ⟨htime, hread⟩ := hin
    rw [List.cons_append, readLoopBlocking, if_neg htime]
    rw [pieces_cons] at htext ⊢
    split at hread
    · rename_i ht
      have hends' := (endsWithBytes_cons.1 hends).resolve_left (fun h => by simp [ReadTurn.data?, ht] at h)
      simp only [ht, ReadTurn.data?, Option.toList_none, List.nil_append] at htext ⊢
      exact receive_own_iff hp later own response last hnone hread hends' htext
    · rename_i b ht
      cases b with
      | nil =>
        -- nothing more is searched, so nothing is found
        have hends' := (endsWithBytes_cons.1 hends).resolve_left (fun h => by simp [ReadTurn.data?, ht] at h)
        have htail : find eom (response.drop (response.length - 7)) = none :=
          Search.find_none_of_append_right (r := response.take (response.length - 7)) (by rwa [List.take_append_drop])
        simp only [ht, ReadTurn.data?, Option.toList_none, List.nil_append, List.append_nil, htail] at htext ⊢
        exact receive_own_iff hp later own response t.lastStamp hnone hread hends' htext
      | cons b bs =>
        have hsearch := Option.isSome_iff_ne_none.trans (blocking_search_iff (b := b :: bs) hnone)
        simp only [ht, ReadTurn.data?, Option.toList_some, List.singleton_append, List.flatten_cons] at htext ⊢
        rw [← List.append_assoc] at htext
        rw [harmless_cons hnone]
        rcases endsWithBytes_cons.1 hends with ⟨rfl, _⟩ | hends'
        · -- the marker's end: the reader stops here if the read shows or forges one
          rw [show (pieces []).flatten = [] from rfl, List.append_nil] at htext
          have hmark : find eom (response ++ b :: bs) ≠ none := by rw [htext, hp]; exact Option.some_ne_none _
          rw [if_neg hmark]
          by_cases hstops : ShowsMarker response (b :: bs) ∨ ForgesMarker response (b :: bs)
          · rw [if_pos (hsearch.2 hstops)]
            exact ⟨fun _ => ⟨by rw [htext], rfl⟩, fun _ => ⟨hstops, harmless_of_marked hmark _⟩⟩
          · rw [if_neg (fun h => hstops (hsearch.1 h))]
            refine ⟨fun h => absurd h.1 hstops, fun h => ?_⟩
            obtain ⟨houtcome, hunread⟩ := h
            have htail := Search.find_none_of_append_left
              (Option.not_isSome_iff_eq_none.1 (fun h => hstops (hsearch.1 h)))
            obtain ⟨own, hlater, -, hown, -⟩ :=
              readLoopBlocking_own later (response ++ b :: bs) t.lastStamp htail houtcome
            rw [List.nil_append] at hunread
            rw [hunread] at hlater
            obtain rfl : own = [] := by simpa using hlater
            cases hown
        · -- a read in front of it: the reader goes on, unless it forges a marker
          have hlt : (response ++ b :: bs).length < (p ++ eom).length := by
            have hpos := List.length_pos_of_ne_nil hends'.pieces_ne_nil
            have hlength := congrArg List.length htext
            rw [List.length_append] at hlength
            omega
          have hmark : find eom (response ++ b :: bs) = none :=
            Search.find_none_of_short hp (z := []) ⟨(pieces own).flatten, by rw [htext, List.append_nil]⟩ hlt
          have hshows : ¬ ShowsMarker response (b :: bs) := fun h => h.find hmark
          rw [if_pos hmark]
          by_cases hforges : ForgesMarker response (b :: bs)
          · rw [if_pos (hsearch.2 (Or.inr hforges))]
            refine ⟨fun h => absurd hforges h.1, fun h => ?_⟩
            have hshort : response ++ b :: bs = p ++ eom := by simpa using h.1
            rw [hshort] at hlt
            exact absurd hlt (Nat.lt_irrefl _)
          · rw [if_neg (fun h => (hsearch.1 h).elim hshows hforges),
              receive_own_iff hp later own (response ++ b :: bs) t.lastStamp hmark hread hends' htext]
            exact ⟨fun h => h.2, fun h => ⟨hforges, h⟩⟩
    · exact hread.elim

/-! ## Calls one after the other -/

variable {s : Receiver} {call : ReceiveCall}

/-- A call that passes its checks is its reader. -/
theorem ReceiveCall.Passes.on (readTimeout : Int) (h : call.Passes) (hheld : s.held = false) :
    (∀ text, (call.on readTimeout s).outcome = some (.ok text) ↔
      (readLoopBlocking readTimeout [] call.startedAt s.unread).outcome = some (.ok text)) ∧
    (call.on readTimeout s).unread = (readLoopBlocking readTimeout [] call.startedAt s.unread).unread := by
  have hon : call.on readTimeout s =
      receiveNotificationBlocking call.handles readTimeout call.startedAt s.unread := by
    rw [ReceiveCall.on, receiveNotificationSync, if_neg (by simp [h.isConnected]), if_neg (by simp [h.isBlocking]),
      if_neg (by simp [hheld])]
  rw [hon, receiveNotificationBlocking, if_neg (by simp [h.channel]), if_neg (by simp [h.session]),
    readUntilEomBlocking, if_neg (by simp [h.channel])]
  exact ⟨fun text => by rw [rethrow_eq_ok, rethrow_eq_ok], rfl⟩

/-- A call that returns has passed them. -/
theorem ReceiveCall.passes_of_ok {text : Bytes} (h : (call.on readTimeout s).outcome = some (.ok text)) :
    call.Passes ∧ s.held = false := by
  unfold ReceiveCall.on receiveNotificationSync at h
  split at h
  · cases h
  rename_i hconnected
  split at h
  · cases h
  rename_i hblocking
  split at h
  · cases h
  rename_i hheld
  rw [receiveNotificationBlocking] at h
  split at h
  · cases h
  rename_i hchannel
  split at h
  · cases h
  rename_i hsession
  exact ⟨⟨not_not.1 hconnected, not_not.1 hblocking, not_not.1 hchannel, not_not.1 hsession⟩,
    by simpa using hheld⟩

/-- **What a call that returns has taken.** -/
theorem ReceiveCall.on_own {text : Bytes} (h : (call.on readTimeout s).outcome = some (.ok text)) :
    ∃ own, s.unread = own ++ (call.on readTimeout s).unread ∧ InTime readTimeout call.startedAt own ∧
      EndsWithBytes own ∧ (pieces own).flatten = text := by
  obtain ⟨hpasses, hheld⟩ := ReceiveCall.passes_of_ok h
  obtain ⟨hok, hunread⟩ := hpasses.on readTimeout hheld
  obtain ⟨own, htape, htimes, hends, htext⟩ :=
    readLoopBlocking_own s.unread [] call.startedAt (Search.find_nil_of_ne_nil eom_ne_nil) ((hok text).1 h)
  exact ⟨own, by rw [hunread]; exact htape, htimes, hends, htext.symm⟩

/-- **A call is brought its notification exactly if it returns it**, and has then taken what brought it. -/
theorem ReceiveCall.brought_iff (readTimeout : Int) (call : ReceiveCall) {p : Bytes}
    (hp : find eom (p ++ eom) = some p.length) (hheld : s.held = false) (later : List ReadTurn) :
    (∃ own, s.unread = own ++ later ∧ call.Brought readTimeout own (p ++ eom)) ↔
      (call.on readTimeout s).outcome = some (.ok (p ++ eom)) ∧ (call.on readTimeout s).unread = later := by
  have hnil : find eom ([] : Bytes) = none := Search.find_nil_of_ne_nil eom_ne_nil
  constructor
  · rintro ⟨own, htape, hbrought⟩
    obtain ⟨hok, hunread⟩ := hbrought.passes.on readTimeout hheld
    rw [hok, hunread, htape]
    exact (receive_own_iff hp later own [] call.startedAt hnil hbrought.inTime hbrought.ends hbrought.text).1
      hbrought.harmless
  · rintro ⟨houtcome, hlater⟩
    obtain ⟨own, htape, htimes, hends, htext⟩ := ReceiveCall.on_own houtcome
    obtain ⟨hpasses, -⟩ := ReceiveCall.passes_of_ok houtcome
    obtain ⟨hok, hunread⟩ := hpasses.on readTimeout hheld
    rw [hlater] at htape
    rw [hok] at houtcome
    rw [hunread] at hlater
    refine ⟨own, htape, hpasses, htimes, hends, htext, ?_⟩
    refine (receive_own_iff hp later own [] call.startedAt hnil htimes hends htext).2 ?_
    rw [← htape]
    exact ⟨houtcome, hlater⟩

theorem ReadEnd.texts_of_ok {r : ReadEnd} {text : Bytes} (h : r.outcome = some (.ok text)) : r.texts = [text] := by
  rw [ReadEnd.texts, h]

theorem ReadEnd.texts_cases (r : ReadEnd) :
    (∃ text, r.outcome = some (.ok text) ∧ r.texts = [text]) ∨
      (∀ text, r.outcome ≠ some (.ok text)) ∧ r.texts = [] := by
  rcases ho : r.outcome with _ | e | text
  · exact Or.inr ⟨fun text h => (by cases h), by rw [ReadEnd.texts, ho]⟩
  · exact Or.inr ⟨fun text h => (by cases h), by rw [ReadEnd.texts, ho]⟩
  · exact Or.inl ⟨text, rfl, ReadEnd.texts_of_ok ho⟩

/-- Each call returns one text, or none. -/
theorem given_run (readTimeout : Int) : ∀ (calls : List ReceiveCall) (s : Receiver), ∃ more,
    more.length ≤ calls.length ∧ (run (Receiver.step readTimeout) s calls).given = s.given ++ more
  | [], s => ⟨[], Nat.le_refl _, (List.append_nil _).symm⟩
  | call :: calls, s => by
    obtain ⟨more, hlength, hgiven⟩ := given_run readTimeout calls (s.step readTimeout call)
    refine ⟨(call.on readTimeout s).texts ++ more, ?_, ?_⟩
    · have hone : (call.on readTimeout s).texts.length ≤ 1 := by
        obtain ⟨text, -, htexts⟩ | ⟨-, htexts⟩ := (call.on readTimeout s).texts_cases <;> simp [htexts]
      rw [List.length_append, List.length_cons]
      omega
    · rw [Run.run_cons, hgiven, Receiver.step, List.append_assoc]

/-- **Calls that all return lose nothing.** -/
theorem kept_run : ∀ (calls : List ReceiveCall) (s : Receiver),
    (run (Receiver.step readTimeout) s calls).given.length = s.given.length + calls.length →
    (run (Receiver.step readTimeout) s calls).given.flatten ++
      (pieces (run (Receiver.step readTimeout) s calls).unread).flatten = s.given.flatten ++ (pieces s.unread).flatten
  | [], _, _ => rfl
  | call :: calls, s, h => by
    obtain ⟨more, hmore, hgiven⟩ := given_run readTimeout calls (s.step readTimeout call)
    have hstep : (s.step readTimeout call).given = s.given ++ (call.on readTimeout s).texts := rfl
    rw [Run.run_cons] at h ⊢
    obtain ⟨text, houtcome, htexts⟩ | ⟨-, htexts⟩ := (call.on readTimeout s).texts_cases
    · have ih := kept_run calls (s.step readTimeout call) (by
        rw [h, hstep, htexts, List.length_append, List.length_cons, List.length_singleton]
        omega)
      obtain ⟨own, htape, -, -, htext⟩ := ReceiveCall.on_own houtcome
      have hpieces : (pieces s.unread).flatten = text ++ (pieces (call.on readTimeout s).unread).flatten := by
        rw [← htext, ← List.flatten_append, ← pieces_append]
        exact congrArg (fun tape => (pieces tape).flatten) htape
      rw [ih, hstep, htexts, hpieces, List.flatten_append, List.flatten_singleton, List.append_assoc]
      rfl
    · rw [hgiven, hstep, htexts, List.append_nil, List.length_append, List.length_cons] at h
      omega

theorem each_run : ∀ (ps : List Bytes), (∀ p ∈ ps, find eom (p ++ eom) = some p.length) →
    ∀ (calls : List ReceiveCall) (s : Receiver), calls.length = ps.length → s.held = false →
      ((run (Receiver.step readTimeout) s calls).given = s.given ++ ps.map (· ++ eom) ↔
        OneEach readTimeout ps calls s.unread)
  | [], _, calls, s, hlength, _ => by
    rw [List.length_eq_zero_iff.1 hlength]
    exact ⟨fun _ => trivial, fun _ => (List.append_nil _).symm⟩
  | p :: ps, hps, [], s, hlength, _ => by cases hlength
  | p :: ps, hps, call :: calls, s, hlength, hheld => by
    have hbrought := ReceiveCall.brought_iff readTimeout call (hps p List.mem_cons_self) hheld
    have hlength' : calls.length = ps.length := Nat.succ.inj hlength
    by_cases hown : (call.on readTimeout s).outcome = some (.ok (p ++ eom))
    · -- the call returns its notification, and leaves the rest
      have hheld' : (s.step readTimeout call).held = false := by rw [Receiver.step, hheld, hown]; rfl
      have hgiven : (s.step readTimeout call).given = s.given ++ [p ++ eom] := by
        rw [Receiver.step, ReadEnd.texts_of_ok hown]
      have ih :=
        each_run ps (fun p hp => hps p (List.mem_cons_of_mem _ hp)) calls (s.step readTimeout call) hlength' hheld'
      rw [Run.run_cons, List.map_cons, ← List.singleton_append, ← List.append_assoc, ← hgiven, ih]
      constructor
      · intro h
        obtain ⟨own, htape, hcall⟩ := (hbrought (call.on readTimeout s).unread).2 ⟨hown, rfl⟩
        exact ⟨own, _, htape, hcall, h⟩
      · rintro ⟨own, later, htape, hcall, hlater⟩
        rw [Receiver.step, ((hbrought later).1 ⟨own, htape, hcall⟩).2]
        exact hlater
    · -- the call returns something else, or not
      refine ⟨fun h => ?_, ?_⟩
      · obtain ⟨more, hmore, hrun⟩ := given_run readTimeout calls (s.step readTimeout call)
        rw [Run.run_cons, hrun, Receiver.step, List.append_assoc] at h
        have htexts := List.append_cancel_left h
        obtain ⟨text, houtcome, hone⟩ | ⟨-, hnone⟩ := (call.on readTimeout s).texts_cases
        · rw [hone, List.singleton_append, List.map_cons, List.cons.injEq] at htexts
          exact absurd (htexts.1 ▸ houtcome) hown
        · rw [hnone, List.nil_append] at htexts
          rw [htexts, List.length_map, List.length_cons] at hmore
          omega
      · rintro ⟨own, later, htape, hcall, -⟩
        exact absurd ((hbrought later).1 ⟨own, htape, hcall⟩).1 hown

/-- **One notification for each call.**  While all calls return, the texts and what is unread are the bytes that came;
and as many calls as notifications are given one each, with its marker, exactly if the turns of the channel fall into
groups, one for each call, that bring it its notification. -/
theorem receives_each_iff (readTimeout : Int) (tape : List ReadTurn) (calls : List ReceiveCall) :
    let s := runReceives readTimeout tape calls
    (s.given.length = calls.length → s.given.flatten ++ (pieces s.unread).flatten = (pieces tape).flatten) ∧
      ∀ ps, (∀ p ∈ ps, find eom (p ++ eom) = some p.length) → calls.length = ps.length →
        (s.given = ps.map (· ++ eom) ↔ OneEach readTimeout ps calls tape) :=
  ⟨fun h => kept_run calls { unread := tape } (by rw [List.length_nil, Nat.zero_add]; exact h),
    fun ps hps hlength => each_run ps hps calls { unread := tape } hlength rfl⟩

/-- Two notifications, two minutes apart: the marker of the first comes in two reads, an empty read stands in front of
the second, and behind it a read fails. -/
def receivedTape : List ReadTurn :=
  [{ read := .bytes (ascii "<n1/>]]>") }, { read := .bytes (ascii "]]>") }, { now := seconds 120, read := .eagain },
    { now := seconds 120, read := .bytes [], lastStamp := seconds 121 },
    { now := seconds 121, read := .bytes (ascii "<n2/>]]>]]>") }, { now := seconds 122, read := .failed none }]

theorem receives_each_two : OneEach 60 [ascii "<n1/>", ascii "<n2/>"]
    [{ handles := { socket := 4 } }, { handles := { socket := 4 }, startedAt := seconds 120 }] receivedTape :=
  ((receives_each_iff 60 receivedTape [{ handles := { socket := 4 } },
    { handles := { socket := 4 }, startedAt := seconds 120 }]).2 [ascii "<n1/>", ascii "<n2/>"] (by decide) rfl).1
      (by decide +kernel)

end PyNetX
