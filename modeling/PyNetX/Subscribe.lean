import PyNetX.Pairing
import PyNetX.Reads
/-!
# Subscribe — the hand-over from the subscription's reply to the stream parser

`subscribe_non_blocking` reads its reply with the RPC reader, clears the receive buffer and registers the descriptor;
from then on `on_notification_ready` reads the same channel.  What the RPC reader took behind the marker in its last
read is in the reply and not in the buffer, so nothing is lost exactly when a read ends with the reply's marker
(`handed_over_iff`).
-/
namespace PyNetX

open Search (find)

/-- What `subscribe_non_blocking` writes of a client. -/
structure Subscriber where
  queue : NotifQueue := {}
  rx : RxBuffer := {}
  notifIsConnected : Bool := false
  notifIsBlocking : Bool := false

/-- A call of it: what `connect_notification_non_blocking` comes to and the handles it leaves, what the channel does,
and what `NotificationReactorManager::add` comes to. -/
structure SubscribeCall where
  connected : Except Bytes Bool := .ok true
  handles : Handles
  stream : Bytes
  filter : Bytes := []
  script : RpcScript
  registered : Except Bytes Unit := .ok ()

/-- How it ended, what it left of the channel's script, and the client. -/
structure SubscribeEnd where
  outcome : Outcome Bytes
  unread : List ReadTurn
  client : Subscriber

/-- The `catch`: `mark_notification_dead`, and the text in front of the exception's. -/
def subscribeFailed (c : Subscriber) (unread : List ReadTurn) (what : Bytes) : SubscribeEnd where
  outcome := some (.error (ascii "Unable to Subscribe to device: " ++ what))
  unread := unread
  client :=
    let (queue, rx) := markNotificationDead c.queue c.rx
    { queue := queue, rx := rx, notifIsConnected := false, notifIsBlocking := false }

def subscribeNonBlocking (cfg : ClientConfig) (xml : XmlParser) (call : SubscribeCall) (c : Subscriber) :
    SubscribeEnd :=
  let tape := call.script.tape
  match call.connected with
  | .error what => subscribeFailed c tape what
  | .ok connectionStatus =>
    if ¬ connectionStatus then subscribeFailed c tape (ascii "Unable to create notifications channel")
    else if ¬ call.handles.channel then subscribeFailed c tape (ascii "No notifications channel present")
    else if ¬ call.handles.session then subscribeFailed c tape (ascii "No notifications session present")
    else if call.handles.socket < 0 then subscribeFailed c tape (ascii "No notifications socket present")
    else
      let e := sendRpcNonBlockingFunc xml call.handles (createSubscriptionRpc call.stream call.filter) cfg.readTimeout
        call.script
      match e.outcome with
      | none => ⟨none, e.unread, c⟩
      | some (.error what) => subscribeFailed c e.unread what
      | some (.ok reply) =>
        let c := { c with rx := { c.rx with bytes := [], partialTimerActive := false } }
        match call.registered with
        | .error what => subscribeFailed c e.unread what
        | .ok () => ⟨some (.ok reply), e.unread, { c with notifIsConnected := true, notifIsBlocking := false }⟩

/-! ## The other reader -/

/-- `read_available_notification_bytes`, its channel and session being set; behind the script the channel has nothing
to give. -/
def readAvailableNotificationBytes : List ReadTurn → ReadEnd
  | [] => ⟨[], some (.ok []), []⟩
  | t :: tape =>
    match t.read with
    | .bytes (b :: bs) =>
      let r := readAvailableNotificationBytes tape
      ⟨(b :: bs) :: r.reads, r.outcome.map (Except.map ((b :: bs) ++ ·)), r.unread⟩
    | .eagain | .bytes [] => ⟨[], some (.ok []), tape⟩
    | .failed e => ⟨[], some (.error (ascii "Error reading from notification channel: " ++ lastError e)), tape⟩

/-- `read_currently_available` of `on_notification_ready(fd)`. -/
def readCurrentlyAvailable (h : Handles) (fd : Int) (tape : List ReadTurn) : ReadEnd :=
  if ¬ (h.channel ∧ h.session) then
    ⟨[], some (.error (ascii "Notification channel/session is not active")), tape⟩
  else if h.socket ≠ fd then
    ⟨[], some (.error (ascii "Notification FD does not match active subscription socket")), tape⟩
  else readAvailableNotificationBytes tape

/-- What `on_notification_ready` appends to `_notif_rx_buffer`, read after read; the session is dead when one throws. -/
def handedBytes (h : Handles) (fd : Int) : Nat → List ReadTurn → List Bytes
  | 0, _ => []
  | _ + 1, [] => []
  | n + 1, t :: tape =>
    let r := readCurrentlyAvailable h fd (t :: tape)
    match r.outcome with
    | some (.ok bytes) => bytes :: handedBytes h fd n r.unread
    | _ => []

/-- The channel's reads do not fail. -/
def NoFailedRead (tape : List ReadTurn) : Prop := ∀ t ∈ tape, ∀ e, t.read ≠ .failed e

theorem readAvailableNotificationBytes_eq : ∀ (tape : List ReadTurn), NoFailedRead tape →
    (readAvailableNotificationBytes tape).outcome =
        some (.ok (readAvailableNotificationBytes tape).reads.flatten) ∧
      (readAvailableNotificationBytes tape).reads ++ pieces (readAvailableNotificationBytes tape).unread = pieces tape ∧
      (readAvailableNotificationBytes tape).unread <:+ tape.tail
  | [], _ => ⟨rfl, rfl, List.suffix_rfl⟩
  | t :: tape, h => by
    have ht := h t List.mem_cons_self
    have hpieces : pieces (t :: tape) = t.data?.toList ++ pieces tape := pieces_cons t tape
    rw [hpieces, readAvailableNotificationBytes, ReadTurn.data?]
    cases hread : t.read with
    | eagain => exact ⟨rfl, rfl, List.suffix_rfl⟩
    | failed e => exact absurd hread (ht e)
    | bytes b =>
      cases b with
      | nil => exact ⟨rfl, rfl, List.suffix_rfl⟩
      | cons b bs =>
        obtain ⟨hout, hreads, hunread⟩ := readAvailableNotificationBytes_eq tape
          (fun t ht => h t (List.mem_cons_of_mem _ ht))
        refine ⟨by simp only [hout]; rfl, by simp [← hreads], hunread.trans (List.tail_suffix tape)⟩

/-- **Everything the channel gives is handed to the parser.** -/
theorem handedBytes_eq {h : Handles} (hh : h.channel = true ∧ h.session = true) : ∀ (n : Nat) (tape : List ReadTurn),
    tape.length ≤ n → NoFailedRead tape → (handedBytes h h.socket n tape).flatten = (pieces tape).flatten
  | 0, [], _, _ => rfl
  | _ + 1, [], _, _ => rfl
  | n + 1, t :: tape, hn, hok => by
    obtain ⟨hout, hreads, hunread⟩ := readAvailableNotificationBytes_eq (t :: tape) hok
    have hcur : readCurrentlyAvailable h h.socket (t :: tape) = readAvailableNotificationBytes (t :: tape) := by
      rw [readCurrentlyAvailable, if_neg (by simp [hh]), if_neg (by simp)]
    have hlen := hunread.length_le
    simp only [List.length_cons, List.tail_cons] at hn hlen
    have ih := handedBytes_eq hh n (readAvailableNotificationBytes (t :: tape)).unread (by omega)
      (fun t' ht' => hok t' (List.mem_cons_of_mem _ (hunread.subset ht')))
    rw [handedBytes, hcur]
    simp only [hout]
    rw [List.flatten_cons, ih, ← List.flatten_append, hreads]

/-! ## The hand-over -/

/-- What the parser is handed after a subscription, in all. -/
def SubscribeCall.handedOver (call : SubscribeCall) (e : SubscribeEnd) : Bytes :=
  (handedBytes call.handles call.handles.socket e.unread.length e.unread).flatten

theorem subscribeNonBlocking_returned {cfg : ClientConfig} {xml : XmlParser} {call : SubscribeCall} {c : Subscriber}
    {r : Bytes} (h : (subscribeNonBlocking cfg xml call c).outcome = some (.ok r)) :
    (call.handles.channel = true ∧ call.handles.session = true) ∧
    (sendRpcNonBlockingFunc xml call.handles (createSubscriptionRpc call.stream call.filter) cfg.readTimeout
      call.script).outcome = some (.ok r) ∧
    (subscribeNonBlocking cfg xml call c).unread = (sendRpcNonBlockingFunc xml call.handles
      (createSubscriptionRpc call.stream call.filter) cfg.readTimeout call.script).unread ∧
    (subscribeNonBlocking cfg xml call c).client.rx.bytes = [] := by
  unfold subscribeNonBlocking at h ⊢
  split
  · rename_i hc; rw [hc] at h; cases h
  rename_i status hc
  simp only [hc] at h
  by_cases h1 : ¬ status
  · rw [if_pos h1] at h; cases h
  by_cases h2 : ¬ call.handles.channel
  · rw [if_neg h1, if_pos h2] at h; cases h
  by_cases h3 : ¬ call.handles.session
  · rw [if_neg h1, if_neg h2, if_pos h3] at h; cases h
  by_cases h4 : call.handles.socket < 0
  · rw [if_neg h1, if_neg h2, if_neg h3, if_pos h4] at h; cases h
  rw [if_neg h1, if_neg h2, if_neg h3, if_neg h4] at h ⊢
  refine ⟨⟨Decidable.not_not.1 h2, Decidable.not_not.1 h3⟩, ?_⟩
  revert h
  generalize sendRpcNonBlockingFunc xml call.handles _ cfg.readTimeout call.script = e
  intro h
  rcases he : e.outcome with _ | what | reply
  · rw [he] at h; cases h
  · rw [he] at h; cases h
  · simp only [he] at h ⊢
    cases hreg : call.registered with
    | error what => rw [hreg] at h; cases h
    | ok u =>
      rw [hreg] at h
      cases h
      exact ⟨rfl, rfl, rfl⟩

/-- A read ends with the marker behind `reply`, and none before it has completed one. -/
def EndsAtMarker (chunks : List Bytes) (reply : Bytes) : Prop :=
  Boundary chunks (reply ++ eom) ∧ ∀ w, Boundary chunks w → w.length < (reply ++ eom).length → find eom w = none

/-- **What a reader takes that stops at the marker**, out of pieces that continue the reply. -/
theorem taken_eq_iff {chunks front unread : List Bytes} {last reply rest : Bytes}
    (hchunks : front ++ [last] ++ unread = chunks) (hflat : chunks.flatten = reply ++ eom ++ rest)
    (hfront : find eom front.flatten = none) (hmark : find eom (front ++ [last]).flatten ≠ none) :
    (front ++ [last]).flatten = reply ++ eom ↔ EndsAtMarker chunks reply := by
  have htaken : front ++ [last] <+: chunks := ⟨unread, hchunks⟩
  -- whatever was received before the last piece shows no marker
  have hbefore : ∀ pre, pre <+: chunks → pre.flatten.length < (front ++ [last]).flatten.length →
      find eom pre.flatten = none := by
    intro pre hpre hlt
    rcases List.prefix_or_prefix_of_prefix hpre htaken with h | h
    · rcases List.prefix_concat_iff.1 h with rfl | h
      · exact absurd hlt (Nat.lt_irrefl _)
      · exact Search.find_none_of_infix hfront h.flatten.isInfix
    · exact absurd h.flatten.length_le (Nat.not_le_of_lt hlt)
  constructor
  · intro h
    refine ⟨⟨_, htaken, h⟩, ?_⟩
    rintro w ⟨pre, hpre, rfl⟩ hlt
    exact hbefore pre hpre (h ▸ hlt)
  · rintro ⟨⟨pre, hpre, hpreflat⟩, hshort⟩
    have hle : (reply ++ eom).length ≤ (front ++ [last]).flatten.length := by
      by_contra hlt
      exact hmark (hshort _ ⟨_, htaken, rfl⟩ (by omega))
    have hge : (front ++ [last]).flatten.length ≤ (reply ++ eom).length := by
      by_contra hlt
      have hnone := hbefore pre hpre (by rw [hpreflat]; omega)
      rw [hpreflat] at hnone
      exact Search.find_eq_none_iff.1 hnone ⟨reply, [], by simp⟩
    have hboth : (front ++ [last]).flatten <+: reply ++ eom ++ rest := hflat ▸ htaken.flatten
    exact (List.prefix_of_prefix_length_le hboth ⟨rest, rfl⟩ hge).eq_of_length (Nat.le_antisymm hge hle)

/-- **Nothing is lost in the hand-over exactly when a read ends with the reply's marker.** -/
theorem handed_over_iff (cfg : ClientConfig) (xml : XmlParser) (call : SubscribeCall) (c : Subscriber)
    (reply rest r : Bytes) (hok : NoFailedRead call.script.tape)
    (hstream : (pieces call.script.tape).flatten = reply ++ eom ++ rest)
    (hreturn : (subscribeNonBlocking cfg xml call c).outcome = some (.ok r)) :
    call.handedOver (subscribeNonBlocking cfg xml call c) = rest ↔ EndsAtMarker (pieces call.script.tape) reply := by
  obtain ⟨hhandles, hout, hunread, -⟩ := subscribeNonBlocking_returned hreturn
  obtain ⟨hpieces, hsuffix⟩ := sendRpcNonBlockingFunc_pieces xml call.handles
    (createSubscriptionRpc call.stream call.filter) cfg.readTimeout call.script
  have hcases := sendRpcNonBlockingFunc_cases xml call.handles
    (createSubscriptionRpc call.stream call.filter) cfg.readTimeout_pos call.script
  rw [SubscribeCall.handedOver, hunread]
  generalize sendRpcNonBlockingFunc xml call.handles _ cfg.readTimeout call.script = e at hout hpieces hsuffix hcases
  obtain ⟨-, hmark, ⟨front, last, hreads, hfront⟩, -⟩ := hcases.resolve_left (fun hno => hno.2 r hout)
  rw [handedBytes_eq hhandles _ e.unread (Nat.le_refl _) (fun t ht => hok t (hsuffix.subset ht))]
  rw [hreads] at hpieces hmark
  rw [← taken_eq_iff hpieces hstream hfront hmark]
  -- what was taken and what is handed over make up the stream
  rw [← hpieces, List.flatten_append] at hstream
  constructor
  · intro h
    rw [h] at hstream
    exact List.append_cancel_right hstream
  · intro h
    rw [h] at hstream
    exact List.append_cancel_left hstream

/-- **The parser accounts for all it is handed**, from the buffer the subscription cleared. -/
theorem handed_over_accounted {cfg : ClientConfig} {xml : XmlParser} {call : SubscribeCall} {c : Subscriber} {r : Bytes}
    (hreturn : (subscribeNonBlocking cfg xml call c).outcome = some (.ok r)) (env : CallbackEnv) (s : Sink)
    (ops : List RxOp) (hops : ops.flatMap RxOp.received = call.handedOver (subscribeNonBlocking cfg xml call c)) :
    ∃ acts : List SinkAct, (∀ seg ∈ segmentsOf acts, seg.WellFormed) ∧
      call.handedOver (subscribeNonBlocking cfg xml call c) = (segmentsOf acts).flatMap Segment.span ++
        (runRx env ⟨(subscribeNonBlocking cfg xml call c).client.rx, s⟩ ops).rx.bytes := by
  obtain ⟨-, -, -, hbytes⟩ := subscribeNonBlocking_returned hreturn
  obtain ⟨acts, hwf, hspans, -⟩ := runRx_accounted env ops ⟨(subscribeNonBlocking cfg xml call c).client.rx, s⟩
    (by simp only [hbytes]; exact rxTurn_nil)
  refine ⟨acts, hwf, ?_⟩
  rw [← hspans, ← hops, hbytes, List.nil_append]

/-- A subscription whose reply and notifications come in these pieces. -/
def subscribeCall (texts : List String) : SubscribeCall where
  handles := { socket := 4 }
  stream := ascii "NETCONF"
  script := { writes := [.accepted 1000], tape := texts.map (fun text => { read := .bytes (ascii text) }) }

theorem subscribeCall_noFailedRead (texts : List String) : NoFailedRead (subscribeCall texts).script.tape := by
  intro t ht e h
  obtain ⟨text, -, rfl⟩ := List.mem_map.1 ht
  cases h

theorem handed_over_iff_apart :
    (subscribeCall ["<ok/>]]>", "]]>", "<n/>]]>]]>"]).handedOver
        (subscribeNonBlocking defaultClient rejectsAll (subscribeCall ["<ok/>]]>", "]]>", "<n/>]]>]]>"]) {}) =
      ascii "<n/>]]>]]>" ↔
    EndsAtMarker (pieces (subscribeCall ["<ok/>]]>", "]]>", "<n/>]]>]]>"]).script.tape) (ascii "<ok/>") :=
  handed_over_iff defaultClient rejectsAll (subscribeCall ["<ok/>]]>", "]]>", "<n/>]]>]]>"]) {} (ascii "<ok/>")
    (ascii "<n/>]]>]]>") (ascii "<ok/>]]>]]>") (subscribeCall_noFailedRead _) (by decide) (by decide +kernel)

/-- What a hand-over owes, for a client and a parser: the bytes behind the reply, all of them. -/
def HandsOver (cfg : ClientConfig) (xml : XmlParser) : Prop := ∀ (call : SubscribeCall) (c : Subscriber)
    (reply rest r : Bytes), find eom reply = none → NoFailedRead call.script.tape →
  (pieces call.script.tape).flatten = reply ++ eom ++ rest →
  (subscribeNonBlocking cfg xml call c).outcome = some (.ok r) →
  call.handedOver (subscribeNonBlocking cfg xml call c) = rest

/-- **What shares the last read with the marker is lost.** -/
theorem not_handed_over : ¬ HandsOver defaultClient rejectsAll := by
  intro h
  have hlost := h (subscribeCall ["<ok/>]]>]]><n/>]]>]]>"]) {} (ascii "<ok/>") (ascii "<n/>]]>]]>")
    (ascii "<ok/>]]>]]><n/>]]>]]>") (by decide) (subscribeCall_noFailedRead _) (by decide) (by decide +kernel)
  revert hlost
  decide +kernel

end PyNetX
