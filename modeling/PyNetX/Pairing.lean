import PyNetX.Lib.Run
import PyNetX.Rpc
/-!
# Pairing — which request a returned reply answers

A run of calls on one client's RPC channel, one at a time under `session_mutex_`, and a server that answers every
complete request frame once, in order, whenever it likes.  A returned reply is the answer to the call's own request
as long as every earlier call that put bytes on the channel has read its reply (`replies_paired`); behind one that was
abandoned, the late answer is returned to the wrong call (`replies_not_paired`).
-/
namespace PyNetX

open Search (find splitOn)
open Run (run Along)

/-- **A server**: what it answers to each request frame, in the order of the frames. -/
structure Server where
  answer : Nat → Bytes
  terminated : ∀ i, find eom (answer i ++ eom) = some (answer i).length

/-- What the server sends in answer to `n` request frames. -/
def Server.stream (sv : Server) (n : Nat) : Bytes := (List.range n).flatMap (fun i => sv.answer i ++ eom)

theorem Server.stream_succ (sv : Server) (n : Nat) : sv.stream (n + 1) = sv.stream n ++ (sv.answer n ++ eom) := by
  simp [Server.stream, List.range_succ]

/-- The complete request frames among the bytes written. -/
def requests (wire : Bytes) : List Bytes := (splitOn eom wire).1

/-- A call, with what it finds when it runs. -/
structure RpcCall where
  isConnected : Bool := true
  isBlocking : Bool := false
  handles : Handles
  rpc : Bytes
  script : RpcScript

/-- The channel behind the exchange of hellos: the bytes written, the bytes read, and whether a call is inside. -/
structure RpcChannel where
  wire : Bytes := []
  taken : Bytes := []
  held : Bool := false

variable (cfg : ClientConfig) (xml : XmlParser) (sv : Server)

/-- What a call comes to on a channel. -/
def RpcCall.on (ch : RpcChannel) (call : RpcCall) : RpcEnd :=
  sendRpcAsync xml call.isConnected call.isBlocking ch.held call.handles call.rpc cfg.readTimeout call.script

def RpcCall.step (ch : RpcChannel) (call : RpcCall) : RpcChannel where
  wire := ch.wire ++ (call.on cfg xml ch).written
  taken := ch.taken ++ (call.on cfg xml ch).reads.flatten
  held := ch.held || (call.on cfg xml ch).outcome.isNone

/-- The channel after calls one after the other. -/
def runCalls (calls : List RpcCall) : RpcChannel := run (RpcCall.step cfg xml) {} calls

/-- What the call reads comes from the server: no byte that is not in its answers to what has been written. -/
def Server.Delivers (ch : RpcChannel) (call : RpcCall) : Prop :=
  ch.taken ++ (call.on cfg xml ch).reads.flatten <+:
    sv.stream (requests (ch.wire ++ (call.on cfg xml ch).written)).length

/-- `reply` is the server's answer to `rpc` itself: `rpc` is the only frame completed, with nothing but white space in
front of it, and `reply` is what the server sends for that frame, from its first byte. -/
def OwnAnswer (ch : RpcChannel) (rpc reply : Bytes) : Prop :=
  Blank (splitOn eom ch.wire).2 ∧
    requests (ch.wire ++ rpcWithEom rpc) = requests ch.wire ++ [(splitOn eom ch.wire).2 ++ rpc ++ [chNewline]] ∧
    ch.taken = sv.stream (requests ch.wire).length ∧ reply = sv.answer (requests ch.wire).length ++ eom

/-- Every reply returned in a run answers the request of the call that returned it. -/
def RepliesPaired : Prop := ∀ (calls : List RpcCall) (call : RpcCall) (reply : Bytes),
  Along (RpcCall.step cfg xml) (sv.Delivers cfg xml) {} (calls ++ [call]) →
  (call.on cfg xml (runCalls cfg xml calls)).outcome = some (.ok reply) →
  OwnAnswer sv (runCalls cfg xml calls) call.rpc reply

/-- The call puts nothing on the channel; or its text holds no marker, and it does not end before it has read one. -/
def RpcCall.Settles (ch : RpcChannel) (call : RpcCall) : Prop :=
  (call.on cfg xml ch).written = [] ∨
    find eom call.rpc = none ∧
      ((call.on cfg xml ch).outcome = none ∨ find eom (call.on cfg xml ch).reads.flatten ≠ none)

/-- Nothing is owed: only white space follows the last request, and every answer is read. -/
def Settled (ch : RpcChannel) : Prop :=
  Blank (splitOn eom ch.wire).2 ∧ ch.taken = sv.stream (requests ch.wire).length

/-! ## One call -/

theorem not_mem_eom_of_isSpace {c : UInt8} (h : isSpace c = true) : c ∉ eom := by
  intro hc
  rcases mem_eom.1 hc with rfl | rfl <;> cases h

/-- **A whole request behind white space is one frame.** -/
theorem splitOn_rpcWithEom {wire rpc : Bytes} (hrest : Blank (splitOn eom wire).2) (hrpc : find eom rpc = none) :
    splitOn eom (wire ++ rpcWithEom rpc) =
      (requests wire ++ [(splitOn eom wire).2 ++ rpc ++ [chNewline]], [chNewline]) := by
  have hlead : find eom ((splitOn eom wire).2 ++ rpc) = none := by
    rw [Search.find_append_foreign eom_ne_nil rpc (fun c hc => not_mem_eom_of_isSpace (hrest c hc)), hrpc]
    rfl
  have hframe : find eom ((splitOn eom wire).2 ++ rpc ++ [chNewline] ++ eom) =
      some ((splitOn eom wire).2 ++ rpc ++ [chNewline]).length := by
    have hself : find eom eom = some 0 := by decide
    have hcut := Search.find_append_cons (not_mem_eom_of_isSpace (show isSpace chNewline = true by decide))
      ((splitOn eom wire).2 ++ rpc) eom
    rw [hlead, Option.none_or, hself] at hcut
    rw [List.append_assoc _ [chNewline], List.singleton_append, hcut]
    simp [Nat.add_assoc]
  have hbytes : (splitOn eom wire).2 ++ rpcWithEom rpc =
      (splitOn eom wire).2 ++ rpc ++ [chNewline] ++ eom ++ [chNewline] := by simp [rpcWithEom]
  have hnl : splitOn eom [chNewline] = ([], [chNewline]) := by decide
  rw [Search.splitOn_append eom_ne_nil, hbytes, Search.splitOn_cons eom_ne_nil hframe, hnl]
  rfl

theorem requests_rpcWithEom {wire rpc : Bytes} (hrest : Blank (splitOn eom wire).2) (hrpc : find eom rpc = none) :
    requests (wire ++ rpcWithEom rpc) = requests wire ++ [(splitOn eom wire).2 ++ rpc ++ [chNewline]] :=
  congrArg Prod.fst (splitOn_rpcWithEom hrest hrpc)

theorem Server.eq_answer {sv : Server} {n : Nat} {reply : Bytes} (h : reply <+: sv.answer n ++ eom)
    (hmark : find eom reply ≠ none) : reply = sv.answer n ++ eom := by
  refine h.eq_of_length_le (Nat.le_of_not_lt (fun hlt => hmark ?_))
  exact Search.find_none_of_short (sv.terminated n) (z := []) (by simpa using h) hlt

variable {cfg xml sv} {ch : RpcChannel} {call : RpcCall}

theorem RpcCall.on_cases (cfg : ClientConfig) (xml : XmlParser) (ch : RpcChannel) (call : RpcCall) :
    ((call.on cfg xml ch).written = [] ∧ (call.on cfg xml ch).reads = [] ∧
      (∀ reply, (call.on cfg xml ch).outcome ≠ some (.ok reply)) ∧
      ((call.on cfg xml ch).outcome = none → ch.held = true)) ∨
    ch.held = false ∧ ((call.on cfg xml ch).NoReply ∨ (call.on cfg xml ch).GotReply call.rpc) := by
  unfold RpcCall.on sendRpcAsync
  split
  · exact Or.inl ⟨rfl, rfl, fun _ => nofun, nofun⟩
  split
  · exact Or.inl ⟨rfl, rfl, fun _ => nofun, nofun⟩
  split
  · rename_i hheld
    exact Or.inl ⟨rfl, rfl, fun _ => nofun, fun _ => hheld⟩
  · rename_i hheld
    exact Or.inr ⟨by simpa using hheld, sendRpcNonBlockingFunc_cases xml call.handles call.rpc cfg.readTimeout_pos call.script⟩

/-- **A call that gets a marker on a settled channel gets its own answer**, and all of it. -/
theorem gotReply_own (h : Settled sv ch) (hrpc : find eom call.rpc = none) (hdel : sv.Delivers cfg xml ch call)
    (hgot : (call.on cfg xml ch).GotReply call.rpc) :
    (call.on cfg xml ch).reads.flatten = sv.answer (requests ch.wire).length ++ eom := by
  obtain ⟨hwritten, hmark, -⟩ := hgot
  unfold Server.Delivers at hdel
  rw [hwritten, h.2, requests_rpcWithEom h.1 hrpc, List.length_append, List.length_singleton,
    Server.stream_succ] at hdel
  exact Server.eq_answer ((List.prefix_append_right_inj _).1 hdel) hmark

/-- **A returned reply is the call's own exactly on a settled channel**, for a request text without a marker. -/
theorem ownAnswer_iff {reply : Bytes} (hdel : sv.Delivers cfg xml ch call)
    (hreturn : (call.on cfg xml ch).outcome = some (.ok reply)) :
    OwnAnswer sv ch call.rpc reply ↔ Settled sv ch ∧ find eom call.rpc = none := by
  constructor
  · rintro ⟨hblank, hframe, htaken, -⟩
    refine ⟨⟨hblank, htaken⟩, ?_⟩
    have hclosed := Search.splitOn_closed eom_ne_nil (ch.wire ++ rpcWithEom call.rpc)
      ((splitOn eom ch.wire).2 ++ call.rpc ++ [chNewline]) (by
        rw [← requests, hframe]
        simp)
    have hframe := Search.find_none_of_closed eom_ne_nil hclosed
    exact Search.find_none_of_append_right (Search.find_none_of_append_left hframe)
  · rintro ⟨hset, hrpc⟩
    refine ⟨hset.1, requests_rpcWithEom hset.1 hrpc, hset.2, ?_⟩
    obtain ⟨-, -, hno, -⟩ | ⟨-, hno | hgot⟩ := call.on_cases cfg xml ch
    · exact absurd hreturn (hno reply)
    · exact absurd hreturn (hno.2 reply)
    · rw [hgot.2.2.2.2 reply hreturn]
      exact gotReply_own hset hrpc hdel hgot

/-- **A call that settles keeps the channel settled**, unless it never ends. -/
theorem RpcCall.step_settled (h : ch.held = true ∨ Settled sv ch) (hs : call.Settles cfg xml ch)
    (hdel : sv.Delivers cfg xml ch call) :
    (call.step cfg xml ch).held = true ∨ Settled sv (call.step cfg xml ch) := by
  unfold RpcCall.step Settled
  rcases h with hheld | hset
  · exact Or.inl (by simp [hheld])
  obtain ⟨hwritten, hreads, -⟩ | ⟨-, hno | hgot⟩ := call.on_cases cfg xml ch
  · exact Or.inr (by simpa [hwritten, hreads, Settled] using hset)
  · rcases hs with hwritten | ⟨-, hinside | hmark⟩
    · -- nothing is owed, so a call that wrote nothing has read nothing
      unfold Server.Delivers at hdel
      rw [hwritten, List.append_nil, ← hset.2] at hdel
      have hreads : (call.on cfg xml ch).reads.flatten = [] := by
        have hlen := hdel.length_le
        rw [List.length_append] at hlen
        exact List.eq_nil_of_length_eq_zero (by omega)
      exact Or.inr (by simpa [hwritten, hreads, Settled] using hset)
    · exact Or.inl (by simp [hinside])
    · exact absurd hno.1 hmark
  · have hrpc : find eom call.rpc = none := by
      rcases hs with hwritten | ⟨hrpc, -⟩
      · rw [hgot.1] at hwritten
        simp [rpcWithEom] at hwritten
      · exact hrpc
    have hown := gotReply_own hset hrpc hdel hgot
    have hrest := congrArg Prod.snd (splitOn_rpcWithEom hset.1 hrpc)
    refine Or.inr ⟨?_, ?_⟩
    · rw [hgot.1, hrest]
      exact (by decide : Blank [chNewline])
    · rw [hgot.1, hown, hset.2, requests_rpcWithEom hset.1 hrpc, List.length_append, List.length_singleton,
        Server.stream_succ]

/-- **After calls that all settle the channel is settled**, or the last of them never ended. -/
theorem runCalls_settled {calls : List RpcCall} (hs : Along (RpcCall.step cfg xml) (RpcCall.Settles cfg xml) {} calls)
    (hdel : Along (RpcCall.step cfg xml) (sv.Delivers cfg xml) {} calls) :
    (runCalls cfg xml calls).held = true ∨ Settled sv (runCalls cfg xml calls) :=
  Run.along_invariant (I := fun ch => ch.held = true ∨ Settled sv ch)
    (fun _ _ h hi => RpcCall.step_settled h hi.1 hi.2) (Or.inr ⟨by decide, rfl⟩) calls (hs.and hdel)

/-! ## Runs -/

/-- **Every returned reply answers its own request** in a run in which each earlier call that put bytes on the channel
read a marker before it ended, and no request text holds one. -/
theorem replies_paired (cfg : ClientConfig) (xml : XmlParser) (sv : Server) (calls : List RpcCall) (call : RpcCall)
    (reply : Bytes) (hs : Along (RpcCall.step cfg xml) (RpcCall.Settles cfg xml) {} calls)
    (hrpc : find eom call.rpc = none)
    (hdel : Along (RpcCall.step cfg xml) (sv.Delivers cfg xml) {} (calls ++ [call]))
    (hreturn : (call.on cfg xml (runCalls cfg xml calls)).outcome = some (.ok reply)) :
    OwnAnswer sv (runCalls cfg xml calls) call.rpc reply := by
  obtain ⟨hdelcalls, hdelcall⟩ := Run.along_concat.1 hdel
  have hheld : (runCalls cfg xml calls).held = false := by
    obtain ⟨-, -, hno, -⟩ | ⟨hheld, -⟩ := call.on_cases cfg xml (runCalls cfg xml calls)
    · exact absurd hreturn (hno reply)
    · exact hheld
  have hsettled := (runCalls_settled hs hdelcalls).resolve_left (by simp [hheld])
  exact (ownAnswer_iff hdelcall hreturn).2 ⟨hsettled, hrpc⟩

instance (ch : RpcChannel) (call : RpcCall) : Decidable (sv.Delivers cfg xml ch call) :=
  inferInstanceAs (Decidable (_ <+: _))

/-- A server whose first answer differs from every later one. -/
def twoAnswers : Server where
  answer i := if i = 0 then ascii "<a/>" else ascii "<b/>"
  terminated i := by split <;> decide

/-- A call of `<get/>` whose request the channel accepts whole, and what it finds to read. -/
def getCall (tape : List ReadTurn) : RpcCall where
  handles := { socket := 3 }
  rpc := ascii "<get/>"
  script := { writes := [.accepted 7, .eagain none none, .accepted 100], tape := tape }

/-- tinyxml2 on text that ends in a marker. -/
def rejectsAll : XmlParser := fun _ => none

def answerTurn (text : String) : ReadTurn where
  read := .bytes (ascii text)

theorem replies_paired_second : OwnAnswer twoAnswers
    (runCalls defaultClient rejectsAll [getCall [answerTurn "<a/>]]>", answerTurn "]]>"]])
    (ascii "<get/>") (ascii "<b/>]]>]]>") :=
  replies_paired defaultClient rejectsAll twoAnswers [getCall [answerTurn "<a/>]]>", answerTurn "]]>"]]
    (getCall [answerTurn "<b", answerTurn "/>]]>]]>"]) (ascii "<b/>]]>]]>")
    (Run.along_cons.2 ⟨Or.inr ⟨by decide, Or.inr (by decide)⟩, Run.along_nil⟩) (by decide)
    (Run.along_cons.2 ⟨by decide, Run.along_cons.2 ⟨by decide, Run.along_nil⟩⟩)
    (by decide)

/-- A call that reads nothing for sixty seconds. -/
def silentCall : RpcCall := getCall [{ now := 60000000000, read := .eagain }]

/-- **A late answer is returned to the next call.** -/
theorem replies_not_paired : ¬ RepliesPaired defaultClient rejectsAll twoAnswers := by
  intro h
  obtain ⟨-, -, -, hreply⟩ := h [silentCall] (getCall [answerTurn "<a/>]]>]]>"]) (ascii "<a/>]]>]]>")
    (Run.along_cons.2 ⟨by decide, Run.along_cons.2 ⟨by decide, Run.along_nil⟩⟩)
    (by decide)
  revert hreply
  decide

end PyNetX
