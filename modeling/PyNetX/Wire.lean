import Mathlib.Algebra.Order.Ring.Nat
import PyNetX.Pairing
/-!
# Wire — the requests on the channel

`send_rpc_non_blocking_func` writes its frame piece by piece, as the channel takes it.  Whatever the pieces are, calls
one after the other put their frames on the channel, and cutting the bytes at the marker gives the requests back, also
when a request begins or ends with a part of the marker (`rpc_round_trip`).  `send_rpc_blocking_func` writes once, and
reads the reply to what the channel took of the frame with that (`senders_deliver_iff`).
-/
namespace PyNetX

open Search (find splitOn)

/-- An `EAGAIN` with a `poll` that goes well, or a write that accepts something. -/
def ChannelWrite.Flows : ChannelWrite → Prop
  | .eagain none _ => True
  | .eagain (some _) _ | .failed _ => False
  | .accepted n => 1 ≤ n

/-- How much of what it is offered a write accepts at most. -/
def ChannelWrite.room : ChannelWrite → Nat
  | .accepted n => n
  | _ => 0

/-- A pattern of `EAGAIN`s and partial writes that takes the whole frame in the end. -/
def RpcCall.Flows (call : RpcCall) : Prop :=
  (∀ w ∈ call.script.writes, w.Flows) ∧ (rpcWithEom call.rpc).length ≤ (call.script.writes.map ChannelWrite.room).sum

/-- The call as `send_rpc_non_blocking_func` runs it. -/
def RpcCall.sent (xml : XmlParser) (readTimeout : Int) (call : RpcCall) : RpcEnd :=
  sendRpcNonBlockingFunc xml call.handles call.rpc readTimeout call.script

def wireOf (xml : XmlParser) (readTimeout : Int) (calls : List RpcCall) : Bytes :=
  calls.flatMap (fun call => (call.sent xml readTimeout).written)

/-- The payloads of frames in a row: each loses the newline in front of its marker, and all but the first the newline
behind the marker before. -/
def payloads : List Bytes → List Bytes
  | [] => []
  | first :: rest => first.dropLast :: rest.map (fun frame => frame.tail.dropLast)

/-! ## One call -/

/-- **A write loop that meets only `EAGAIN`s and partial writes ends as soon as the frame is taken.** -/
theorem writeLoop_of_flows (pollText failText : String) : ∀ (data : Bytes) (writes : List ChannelWrite),
    (∀ w ∈ writes, w.Flows) → (writeLoop pollText failText data writes).outcome =
      if data.length ≤ (writes.map ChannelWrite.room).sum then some (.ok ()) else none
  | [], _, _ => by rw [writeLoop]; exact (if_pos (Nat.zero_le _)).symm
  | _ :: _, [], _ => by rw [writeLoop, if_neg (by simp)]
  | b :: data, .eagain none e :: writes, h => by
    have ih := writeLoop_of_flows pollText failText (b :: data) writes
      (fun w hw => h w (List.mem_cons_of_mem _ hw))
    rw [writeLoop, ih]
    simp [ChannelWrite.room]
  | _ :: _, .eagain (some e) e' :: writes, h => (h (.eagain (some e) e') List.mem_cons_self).elim
  | _ :: _, .failed e :: writes, h => (h (.failed e) List.mem_cons_self).elim
  | b :: data, .accepted n :: writes, h => by
    have ih := writeLoop_of_flows pollText failText ((b :: data).drop n) writes
      (fun w hw => h w (List.mem_cons_of_mem _ hw))
    rw [writeLoop]
    simp only [ih, List.map_cons, List.sum_cons, ChannelWrite.room, List.length_drop, Nat.sub_le_iff_le_add']

/-- **A write loop that does not end normally has not put everything on the channel.** -/
theorem writeLoop_not_ok (pollText failText : String) : ∀ (data : Bytes) (writes : List ChannelWrite),
    (writeLoop pollText failText data writes).outcome ≠ some (.ok ()) →
      ∃ rest, rest ≠ [] ∧ data = (writeLoop pollText failText data writes).accepted ++ rest
  | [], _, h => by rw [writeLoop] at h; exact absurd rfl h
  | b :: data, [], _ => by rw [writeLoop]; exact ⟨b :: data, List.cons_ne_nil b data, rfl⟩
  | b :: data, .eagain none e :: writes, h => by
    rw [writeLoop] at h ⊢
    exact writeLoop_not_ok pollText failText (b :: data) writes h
  | b :: data, .eagain (some e) _ :: _, _ => by rw [writeLoop]; exact ⟨b :: data, List.cons_ne_nil b data, rfl⟩
  | b :: data, .failed e :: _, _ => by rw [writeLoop]; exact ⟨b :: data, List.cons_ne_nil b data, rfl⟩
  | b :: data, .accepted n :: writes, h => by
    rw [writeLoop] at h ⊢
    simp only at h ⊢
    obtain ⟨rest, hrest, hdata⟩ := writeLoop_not_ok pollText failText ((b :: data).drop n) writes h
    refine ⟨rest, hrest, ?_⟩
    rw [List.append_assoc, ← hdata, List.take_append_drop]

variable {xml : XmlParser} {readTimeout : Int}

theorem sendRpcFunc_written {h : Handles} (hopen : h.channel = true) (w : Written) (r : ReadEnd) (s : RpcScript) :
    (sendRpcFunc xml h w r s).written = w.accepted := by
  unfold sendRpcFunc
  rw [if_neg (by simp [hopen])]
  unfold exchange
  split <;> rfl

theorem RpcCall.sent_written {call : RpcCall} (hopen : call.handles.channel = true) :
    (call.sent xml readTimeout).written = (nonBlockingWrite call.rpc call.script).accepted :=
  sendRpcFunc_written hopen _ _ _

theorem RpcCall.Flows.written {call : RpcCall} (h : call.Flows) (hopen : call.handles.channel = true) :
    (call.sent xml readTimeout).written = rpcWithEom call.rpc := by
  rw [RpcCall.sent_written hopen]
  apply writeLoop_ok _ _
  rw [writeLoop_of_flows _ _ _ _ h.1, if_pos h.2]

/-! ## The frames in a row -/

theorem payloads_concat (frames : List Bytes) (frame : Bytes) : payloads (frames ++ [frame]) =
    payloads frames ++ [if frames = [] then frame.dropLast else frame.tail.dropLast] := by
  cases frames with
  | nil => rfl
  | cons first rest => simp [payloads]

theorem blank_newline : Blank [chNewline] := fun c hc => by
  rw [List.mem_singleton.1 hc]
  decide

/-- **Cutting frames in a row at the marker gives the requests back**: the newlines apart, every piece is a request,
and behind the last marker there is its newline. -/
theorem splitOn_frames : ∀ rpcs : List Bytes, (∀ rpc ∈ rpcs, find eom rpc = none) →
    payloads (requests (rpcs.flatMap rpcWithEom)) = rpcs ∧
      (splitOn eom (rpcs.flatMap rpcWithEom)).2 = if rpcs = [] then [] else [chNewline] := by
  intro rpcs
  induction rpcs using List.reverseRecOn with
  | nil => exact fun _ => ⟨rfl, rfl⟩
  | append_singleton rpcs rpc ih =>
    intro h
    obtain ⟨hpayloads, hrest⟩ := ih (fun r hr => h r (List.mem_append_left _ hr))
    have hblank : Blank (splitOn eom (rpcs.flatMap rpcWithEom)).2 := by
      rw [hrest]
      split
      · exact fun c hc => absurd hc List.not_mem_nil
      · exact blank_newline
    have hcut := splitOn_rpcWithEom hblank (h rpc (List.mem_append_right _ (List.mem_singleton_self _)))
    rw [List.flatMap_append, List.flatMap_singleton]
    refine ⟨?_, by rw [hcut]; simp⟩
    rw [requests, hcut, payloads_concat, hpayloads, hrest]
    -- the first frame has no newline in front of its payload
    cases rpcs with
    | nil => simp [requests, Search.splitOn_of_none (Search.find_nil_of_ne_nil eom_ne_nil)]
    | cons r rs =>
      have hnone : requests ((r :: rs).flatMap rpcWithEom) ≠ [] := by
        intro hnil
        rw [hnil] at hpayloads
        cases hpayloads
      rw [if_neg hnone]
      simp

/-- **The framing round trip on the wire.**  Requests without a marker, each taken by the channel in whatever pieces, are
on the channel as the frames in a row, and come back when these are cut at the marker; and what a write loop that throws
has written is a part of its frame, less than the whole. -/
theorem rpc_round_trip (xml : XmlParser) (readTimeout : Int) (calls : List RpcCall)
    (hopen : ∀ call ∈ calls, call.handles.channel = true) (hmark : ∀ call ∈ calls, find eom call.rpc = none) :
    ((∀ call ∈ calls, call.Flows) →
      wireOf xml readTimeout calls = calls.flatMap (fun call => rpcWithEom call.rpc) ∧
      payloads (requests (wireOf xml readTimeout calls)) = calls.map (·.rpc) ∧
      (splitOn eom (wireOf xml readTimeout calls)).2 = if calls = [] then [] else [chNewline]) ∧
    ∀ call ∈ calls, ∀ e, (nonBlockingWrite call.rpc call.script).outcome = some (.error e) →
      (call.sent xml readTimeout).written <+: rpcWithEom call.rpc ∧
      (call.sent xml readTimeout).written ≠ rpcWithEom call.rpc := by
  constructor
  · intro hflows
    have hwire : wireOf xml readTimeout calls = calls.flatMap (fun call => rpcWithEom call.rpc) :=
      List.flatMap_congr (fun call hcall => (hflows call hcall).written (hopen call hcall))
    have hframes : wireOf xml readTimeout calls = (calls.map (·.rpc)).flatMap rpcWithEom := by
      rw [hwire, List.flatMap_map]
    obtain ⟨hpayloads, hrest⟩ := splitOn_frames (calls.map (·.rpc)) (fun rpc hrpc => by
      obtain ⟨call, hcall, rfl⟩ := List.mem_map.1 hrpc
      exact hmark call hcall)
    refine ⟨hwire, by rw [hframes, hpayloads], ?_⟩
    rw [hframes, hrest]
    simp only [List.map_eq_nil_iff]
  · intro call hcall e he
    rw [RpcCall.sent_written (hopen call hcall)]
    obtain ⟨rest, hne, hframe⟩ := writeLoop_not_ok "Poll error during write: " "Failed to send RPC: "
      (rpcWithEom call.rpc) call.script.writes (fun hok => by
        rw [nonBlockingWrite, hok] at he
        cases he)
    refine ⟨⟨rest, hframe.symm⟩, fun heq => hne ?_⟩
    rw [nonBlockingWrite] at heq
    rw [heq] at hframe
    exact List.append_right_eq_self.1 hframe.symm

/-- Two requests with parts of the marker at their ends, written in pieces. -/
def cutRequests : List RpcCall := [
  { handles := { socket := 5 }, rpc := ascii "<get/>]]>",
    script := { writes := [.accepted 7, .eagain none none, .accepted 1, .accepted 10], tape := [] } },
  { handles := { socket := 5 }, rpc := ascii "]]>]]<get/>",
    script := { writes := [.eagain none none, .accepted 30], tape := [] } }]

theorem cutRequests_round_trip :
    payloads (requests (wireOf (fun _ => none) 60 cutRequests)) = [ascii "<get/>]]>", ascii "]]>]]<get/>"] :=
  ((rpc_round_trip (fun _ => none) 60 cutRequests (by decide) (by decide)).1 (by
    intro call hcall
    rcases List.mem_cons.1 hcall with rfl | hcall
    · exact ⟨by simp [ChannelWrite.Flows], by decide⟩
    · rw [List.mem_singleton.1 hcall]
      exact ⟨by simp [ChannelWrite.Flows], by decide⟩)).2.1

/-! ## The two senders -/

/-- The channel's first write takes a part of the frame, and not the whole. -/
def RpcScript.TakesPart (rpc : Bytes) (s : RpcScript) : Prop :=
  ∃ n writes, s.writes = .accepted n :: writes ∧ n < (rpcWithEom rpc).length

/-- **The one write of the blocking sender takes the whole frame**, when it goes well, exactly when it takes no part. -/
theorem blockingWrite_whole_iff (rpc : Bytes) (s : RpcScript) :
    ((blockingWrite rpc s).outcome = some (.ok ()) → (blockingWrite rpc s).accepted = rpcWithEom rpc) ↔
      ¬ s.TakesPart rpc := by
  obtain ⟨writes, startedAt, tape⟩ := s
  simp only [blockingWrite, RpcScript.TakesPart]
  cases writes with
  | nil => simp [writeOnce]
  | cons w writes =>
    cases w with
    | eagain pollError errMsg => simp [writeOnce]
    | failed errMsg => simp [writeOnce]
    | accepted n => simp [writeOnce, List.take_eq_self_iff]

/-- **Both senders deliver the whole request** whenever they come to read the reply, exactly when the channel's first
write is not one of a part: the blocking sender has no other one. -/
theorem senders_deliver_iff (xml : XmlParser) {h : Handles} (hopen : h.channel = true) (rpc : Bytes)
    (readTimeout : Int) (s : RpcScript) :
    ((blockingWrite rpc s).outcome = some (.ok ()) →
      (sendRpcBlockingFunc xml h rpc readTimeout s).written = rpcWithEom rpc ∧
      ∀ s', (nonBlockingWrite rpc s').outcome = some (.ok ()) →
        (sendRpcNonBlockingFunc xml h rpc readTimeout s').written =
          (sendRpcBlockingFunc xml h rpc readTimeout s).written) ↔
    ¬ s.TakesPart rpc := by
  have hnonBlocking : ∀ s', (nonBlockingWrite rpc s').outcome = some (.ok ()) →
      (sendRpcNonBlockingFunc xml h rpc readTimeout s').written = rpcWithEom rpc := fun s' hs' => by
    rw [sendRpcNonBlockingFunc, sendRpcFunc_written hopen]
    exact writeLoop_ok _ _ hs'
  rw [← blockingWrite_whole_iff, sendRpcBlockingFunc, sendRpcFunc_written hopen]
  refine imp_congr_right fun _ => ⟨fun hsent => hsent.1, fun hwhole => ⟨hwhole, fun s' hs' => ?_⟩⟩
  rw [hnonBlocking s' hs', hwhole]

/-- A channel that takes `n` bytes with the first write, and has a reply. -/
def takesFirst (n : Nat) : RpcScript :=
  { writes := [.accepted n, .accepted 100], tape := [{ read := .bytes (ascii "<ok/>]]>]]>") }] }

theorem takesFirst_delivered : (sendRpcBlockingFunc (fun _ => none) { socket := 5 } (ascii "<get/>") 60
    (takesFirst 14)).written = rpcWithEom (ascii "<get/>") := by
  refine ((senders_deliver_iff (fun _ => none) rfl (ascii "<get/>") 60 (takesFirst 14)).2 ?_ rfl).1
  rintro ⟨n, writes, hwrites, hn⟩
  cases hwrites
  exact absurd hn (by decide)

/-- **A request of which three bytes are sent**: the blocking sender reads on and returns a reply. -/
theorem takesFirst_not_delivered :
    (blockingWrite (ascii "<get/>") (takesFirst 3)).outcome = some (.ok ()) ∧
    sendRpcBlockingFunc (fun _ => none) { socket := 5 } (ascii "<get/>") 60 (takesFirst 3) =
      { written := ascii "<ge"
        reads := [ascii "<ok/>]]>]]>"]
        outcome := some (.ok (ascii "<ok/>]]>]]>"))
        unread := [] } ∧
    (sendRpcNonBlockingFunc (fun _ => none) { socket := 5 } (ascii "<get/>") 60 (takesFirst 3)).written =
      rpcWithEom (ascii "<get/>") ∧
    ¬ ((blockingWrite (ascii "<get/>") (takesFirst 3)).outcome = some (.ok ()) →
      (sendRpcBlockingFunc (fun _ => none) { socket := 5 } (ascii "<get/>") 60 (takesFirst 3)).written =
        rpcWithEom (ascii "<get/>")) := by
  decide

end PyNetX
