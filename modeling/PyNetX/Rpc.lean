import PyNetX.Transport
import PyNetX.Xml
/-!
# Rpc — one request and its reply

`checkForRpcError`, the two senders with the try block they share, the worker's checks in front of a call, and the
request texts.  A call either got no marker and no reply, or it got the marker behind its whole request
(`sendRpcNonBlockingFunc_cases`).
-/
namespace PyNetX

open Search (find)

/-- `c_str()`, as a C function reads it. -/
def cStr (s : Bytes) : Bytes := s.takeWhile (· != 0)

/-- The `rpc-error` that `check_for_rpc_error` finds in a parsed reply: its children. -/
def rpcErrorOf (doc : List XmlNode) : Option (List XmlNode) :=
  (firstChildElementNamed (ascii "rpc-reply") doc).bind (firstChildElementNamed (ascii "rpc-error"))

/-- `check_for_rpc_error`; a parse error is ignored. -/
def checkForRpcError (xml : XmlParser) (xmlReply : Bytes) : Except Bytes Unit :=
  match (xml (cStr xmlReply)).bind rpcErrorOf with
  | none => .ok ()
  | some rpcErr =>
    let errMsg := (firstChildElementNamed (ascii "error-message") rpcErr).bind getText
    .error (ascii "RPC error: " ++ errMsg.getD (ascii "RPC error (unknown error-message)"))

/-- `check_for_rpc_error(reply); return reply;`. -/
def checked (xml : XmlParser) (reply : Bytes) : Except Bytes Bytes := (checkForRpcError xml reply).map (fun _ => reply)

theorem checked_eq_ok {xml : XmlParser} {reply r : Bytes} (h : checked xml reply = .ok r) : r = reply := by
  unfold checked at h
  cases hc : checkForRpcError xml reply with
  | error e => rw [hc] at h; cases h
  | ok u => rw [hc] at h; cases h; rfl

def rpcWithEom (rpc : Bytes) : Bytes := rpc ++ chNewline :: (eom ++ [chNewline])

/-- `channel_`, `session_` and `socket_`, or the notification ones: the pointers are set, and the descriptor. -/
structure Handles where
  channel : Bool := true
  session : Bool := true
  socket : Int

/-- What the channel and the clock do during one call. -/
structure RpcScript where
  writes : List ChannelWrite
  startedAt : Nat := 0
  tape : List ReadTurn
  deriving DecidableEq

/-- What a call put on the channel and took from it, how it ended, and what it left of the script. -/
structure RpcEnd where
  written : Bytes
  reads : List Bytes
  outcome : Outcome Bytes
  unread : List ReadTurn
  deriving DecidableEq

/-- The try block of the two senders behind the check of the channel: write, read, check. -/
def exchange (xml : XmlParser) (w : Written) (r : ReadEnd) (tape : List ReadTurn) : RpcEnd :=
  match w.outcome with
  | none => ⟨w.accepted, [], none, tape⟩
  | some (.error e) => ⟨w.accepted, [], some (.error e), tape⟩
  | some (.ok ()) => ⟨w.accepted, r.reads, r.outcome.map (fun o => o.bind (checked xml)), r.unread⟩

/-- The write of `send_rpc_non_blocking_func`. -/
def nonBlockingWrite (rpc : Bytes) (s : RpcScript) : Written :=
  writeLoop "Poll error during write: " "Failed to send RPC: " (rpcWithEom rpc) s.writes

/-- The read of `send_rpc_non_blocking_func`. -/
def nonBlockingRead (h : Handles) (readTimeout : Int) (s : RpcScript) : ReadEnd :=
  readUntilEomNonBlocking { chan := h.channel, sess := h.session, socFd := h.socket, readTimeout := readTimeout }
    s.startedAt s.tape

/-- The write of `send_rpc_blocking_func`. -/
def blockingWrite (rpc : Bytes) (s : RpcScript) : Written := writeOnce "Failed to send RPC: " (rpcWithEom rpc) s.writes

/-- The read of `send_rpc_blocking_func`. -/
def blockingRead (h : Handles) (readTimeout : Int) (s : RpcScript) : ReadEnd :=
  readUntilEomBlocking h.channel readTimeout s.startedAt s.tape

/-- A sender: its check of the channel, its try block, and what it puts in front of an exception's text. -/
def sendRpcFunc (xml : XmlParser) (h : Handles) (w : Written) (r : ReadEnd) (s : RpcScript) : RpcEnd :=
  let e := if ¬ h.channel then ⟨[], [], some (.error (ascii "Channel not open.")), s.tape⟩
    else exchange xml w r s.tape
  { e with outcome := rethrow "Error occured while sending RPC: " e.outcome }

def sendRpcNonBlockingFunc (xml : XmlParser) (h : Handles) (rpc : Bytes) (readTimeout : Int) (s : RpcScript) : RpcEnd :=
  sendRpcFunc xml h (nonBlockingWrite rpc s) (nonBlockingRead h readTimeout s) s

def sendRpcBlockingFunc (xml : XmlParser) (h : Handles) (rpc : Bytes) (readTimeout : Int) (s : RpcScript) : RpcEnd :=
  sendRpcFunc xml h (blockingWrite rpc s) (blockingRead h readTimeout s) s

/-- `send_rpc_async`'s task on a worker: its checks, `session_mutex_`, which another call may hold, and the call. -/
def sendRpcAsync (xml : XmlParser) (isConnected isBlocking held : Bool) (h : Handles) (rpc : Bytes) (readTimeout : Int)
    (s : RpcScript) : RpcEnd :=
  if ¬ isConnected then ⟨[], [], some (.error (ascii "Client already not connected")), s.tape⟩
  else if isBlocking then
    ⟨[], [], some (.error (ascii "Client is connected synchronously, call synchronous methods")), s.tape⟩
  else if held then ⟨[], [], none, s.tape⟩
  else sendRpcNonBlockingFunc xml h rpc readTimeout s

/-! ## The request texts -/

/-- The `<rpc>` around an operation; every request has the same message-id. -/
def rpcText (operation : Bytes) : Bytes :=
  ascii "<?xml version=\"1.0\" encoding=\"UTF-8\"?>" ++
    ascii "<rpc xmlns=\"urn:ietf:params:xml:ns:netconf:base:1.0\" message-id=\"101\">" ++ operation ++ ascii "</rpc>"

/-- `<target><` … `/></target>`. -/
def targetText (target : Bytes) : Bytes := ascii "<target><" ++ target ++ ascii "/></target>"

/-- The text `lock_non_blocking` sends. -/
def lockRpc (target : Bytes) : Bytes := rpcText (ascii "<lock>" ++ targetText target ++ ascii "</lock>")

/-- The text `unlock_non_blocking` sends. -/
def unlockRpc (target : Bytes) : Bytes := rpcText (ascii "<unlock>" ++ targetText target ++ ascii "</unlock>")

/-- The text `commit_non_blocking` sends. -/
def commitRpc : Bytes := rpcText (ascii "<commit/>")

/-- The text `validate_non_blocking` sends. -/
def validateRpc (source : Bytes) : Bytes :=
  rpcText (ascii "<validate><source><" ++ source ++ ascii "/></source></validate>")

/-- The text `edit_config_non_blocking` sends. -/
def editConfigRpc (target config : Bytes) : Bytes :=
  rpcText (ascii "<edit-config>" ++ targetText target ++ ascii "<config>" ++ config ++ ascii "</config></edit-config>")

/-- The text `subscribe_non_blocking` sends. -/
def createSubscriptionRpc (stream filter : Bytes) : Bytes :=
  rpcText (ascii "<create-subscription xmlns=\"urn:ietf:params:xml:ns:netconf:notification:1.0\">" ++
    ascii "<stream>" ++ stream ++ ascii "</stream>" ++
    (if filter = [] then [] else ascii "<filter type=\"subtree\">" ++ filter ++ ascii "</filter>") ++
    ascii "</create-subscription>")

/-! ## What a call comes to -/

/-- What a sender's write and read come to: a reply, or what is thrown. -/
abbrev Response := Except Bytes Bytes

/-- A sender without its check of the reply. -/
def transported (h : Handles) (w : Written) (r : ReadEnd) : Outcome Bytes :=
  if ¬ h.channel then some (.error (ascii "Channel not open."))
  else
    match w.outcome with
    | none => none
    | some (.error e) => some (.error e)
    | some (.ok ()) => r.outcome

/-- What a sender makes of it. -/
def answered (xml : XmlParser) (r : Response) : Except Bytes Bytes :=
  (r.bind (checked xml)).mapError (ascii "Error occured while sending RPC: " ++ ·)

/-- **A sender is its transport, checked.** -/
theorem sendRpcFunc_outcome (xml : XmlParser) (h : Handles) (w : Written) (r : ReadEnd) (s : RpcScript) :
    (sendRpcFunc xml h w r s).outcome = (transported h w r).map (answered xml) := by
  unfold sendRpcFunc transported rethrow answered
  split
  · rfl
  unfold exchange
  split
  · rfl
  · rfl
  · simp only [Option.map_map]
    rfl

/-- A call got no marker and did not return. -/
def RpcEnd.NoReply (e : RpcEnd) : Prop := find eom e.reads.flatten = none ∧ ∀ reply, e.outcome ≠ some (.ok reply)

/-- A call got a marker, with the last piece it took, behind its whole request; it ended, and returned what it took if
it returned. -/
def RpcEnd.GotReply (rpc : Bytes) (e : RpcEnd) : Prop :=
  e.written = rpcWithEom rpc ∧ find eom e.reads.flatten ≠ none ∧
    (∃ front last, e.reads = front ++ [last] ∧ find eom front.flatten = none) ∧ e.outcome ≠ none ∧
    ∀ reply, e.outcome = some (.ok reply) → reply = e.reads.flatten

/-- **A call gets no reply, or a marker behind its whole request.** -/
theorem sendRpcNonBlockingFunc_cases (xml : XmlParser) (h : Handles) (rpc : Bytes) {readTimeout : Int}
    (ht : 0 < readTimeout) (s : RpcScript) :
    (sendRpcNonBlockingFunc xml h rpc readTimeout s).NoReply ∨
    (sendRpcNonBlockingFunc xml h rpc readTimeout s).GotReply rpc := by
  have hnil : find eom ([] : Bytes) = none := Search.find_nil_of_ne_nil eom_ne_nil
  have hstops : (nonBlockingRead h readTimeout s).StopsAtMarker [] :=
    readUntilEomNonBlocking_stopsAtMarker (by simp [ReadParams.infiniteWait]; omega) s.startedAt s.tape
  unfold sendRpcNonBlockingFunc sendRpcFunc
  split
  · exact Or.inl ⟨hnil, fun _ => by simp⟩
  unfold exchange
  split
  · exact Or.inl ⟨hnil, fun _ => by simp⟩
  · exact Or.inl ⟨hnil, fun _ => by simp⟩
  · rename_i hw
    unfold ReadEnd.StopsAtMarker at hstops
    split at hstops
    · rename_i reply hr
      obtain ⟨hreply, hmark, front, last, hreads, hfront⟩ := hstops
      rw [List.nil_append] at hreply hfront
      refine Or.inr ⟨writeLoop_ok _ _ hw, hreply ▸ hmark, ⟨front, last, hreads, hfront⟩, ?_, fun reply' h' => ?_⟩
      · rw [hr]; simp
      · rw [rethrow_eq_ok, hr, Option.map_some] at h'
        rw [checked_eq_ok (Option.some.inj h'), hreply]
    · rename_i hr
      refine Or.inl ⟨by simpa using hstops, fun reply => ?_⟩
      rw [Ne, rethrow_eq_ok]
      rcases ho : (nonBlockingRead h readTimeout s).outcome with _ | _ | reply'
      · simp
      · simp [Except.bind]
      · exact absurd ho (hr reply')

theorem sendRpcNonBlockingFunc_pieces (xml : XmlParser) (h : Handles) (rpc : Bytes) (readTimeout : Int) (s : RpcScript) :
    (sendRpcNonBlockingFunc xml h rpc readTimeout s).reads ++
      pieces (sendRpcNonBlockingFunc xml h rpc readTimeout s).unread = pieces s.tape ∧
    (sendRpcNonBlockingFunc xml h rpc readTimeout s).unread <:+ s.tape := by
  unfold sendRpcNonBlockingFunc sendRpcFunc
  split
  · exact ⟨rfl, List.suffix_rfl⟩
  unfold exchange
  split
  · exact ⟨rfl, List.suffix_rfl⟩
  · exact ⟨rfl, List.suffix_rfl⟩
  · exact readUntilEomNonBlocking_pieces _ _ _

end PyNetX
