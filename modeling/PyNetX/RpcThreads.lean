import PyNetX.Lib.Serial
import PyNetX.Wire
/-!
# RpcThreads — RPCs of many threads on one session

Every call of the client's RPCs takes `session_mutex_`, and sends its requests one after another, each with a turn of its
write loop or of its read loop at a time: a write or a read, and the `poll`s behind it.  Whatever the order in which the
threads take their turns, the bytes written, the bytes read and the replies are those of the requests sent one after
another (`exchanges_serial`), and so each thread is returned the answer to its own request (`threads_replies_paired`),
and the device reads whole requests (`threads_requests_read`).
-/
namespace PyNetX

open Search (find)
open Run (run Along)
open Serial (Program Threads Ended Sound serial sound_run)

/-- A request on its way, with the handles that its sender was given. -/
structure Exchange where
  handles : Handles
  rpc : Bytes

/-- Where a sender is: in the write loop, with what is left of the frame; in the read loop; or in a `poll` that does not
end. -/
inductive SenderPc where
  | writing (handles : Handles) (rest : Bytes)
  | reading (handles : Handles) (st : ReadState)
  | hanging

/-- A turn of one of the two loops, with what the channel does in it; behind a write, the clock should it be the last. -/
inductive SenderInput where
  | write (w : ChannelWrite) (now : Nat)
  | read (t : ReadTurn)

/-- The bytes written to the channel and read from it. -/
structure ChannelBytes where
  wire : Bytes := []
  taken : Bytes := []

/-- What a turn of `read_until_eom_non_blocking` comes to. -/
inductive ReadStep where
  | ends (reads : List Bytes) (o : Response)
  | goesOn (reads : List Bytes) (st : ReadState)
  | hangs

/-- One turn of `while (true)`. -/
def readStep (p : ReadParams) (st : ReadState) (t : ReadTurn) : ReadStep :=
  if p.guardFires st t.now then .ends [] (.ok st.response)
  else if ¬ p.infiniteWait ∧ p.deadline st ≤ t.now then .ends [] (.error (deviceSilent p.readTimeout))
  else
    match t.read with
    | .failed e => .ends [] (.error (ascii "Error reading from channel: " ++ lastError e))
    | .eagain | .bytes [] =>
      match waitOrStop p st t with
      | some (some o) => .ends [] o
      | some none => .hangs
      | none => .goesOn [] st
    | .bytes (b :: bs) =>
      let st := st.append t (b :: bs)
      if (Search.find eom st.response).isSome ∨ p.sizeReached st.response then .ends [b :: bs] (.ok st.response)
      else .goesOn [b :: bs] st

/-- The parameters of the RPC reader. -/
def Handles.readParams (h : Handles) (readTimeout : Int) : ReadParams :=
  { chan := h.channel, sess := h.session, socFd := h.socket, readTimeout := readTimeout }

/-- The `catch` of `send_rpc_non_blocking_func`. -/
def sendFailed (what : Bytes) : Response := .error (ascii "Error occured while sending RPC: " ++ what)

/-- What the sender makes of what its reader comes to. -/
def senderResult (xml : XmlParser) (r : Response) : Response :=
  answered xml (r.mapError (ascii "Error occured while reading from channel: " ++ ·))

/-- The reader is entered. -/
def startsReading (xml : XmlParser) (h : Handles) (now : Nat) : SenderPc ⊕ Response :=
  if ¬ (h.channel ∧ h.session) then .inr (senderResult xml (.error operationCancelled))
  else .inl (.reading h { lastDataTime := now, firstDataTime := now })

/-- `send_rpc_non_blocking_func`, a turn of its loops at a time. -/
def sender (xml : XmlParser) (readTimeout : Int) :
    Program ChannelBytes Exchange SenderInput SenderPc Response where
  start x := if ¬ x.handles.channel then .inr (sendFailed (ascii "Channel not open."))
    else .inl (.writing x.handles (rpcWithEom x.rpc))
  turn ch pc i :=
    match pc, i with
    | .writing h rest, .write w now =>
      match w with
      | .eagain none _ => some (ch, .inl (.writing h rest))
      | .eagain (some e) _ => some (ch, .inr (sendFailed (ascii "Poll error during write: " ++ e)))
      | .failed e => some (ch, .inr (sendFailed (ascii "Failed to send RPC: " ++ lastError e)))
      | .accepted n =>
        some ({ ch with wire := ch.wire ++ rest.take n },
          if rest.drop n = [] then startsReading xml h now else .inl (.writing h (rest.drop n)))
    | .reading h st, .read t =>
      match readStep (h.readParams readTimeout) st t with
      | .ends reads o => some ({ ch with taken := ch.taken ++ reads.flatten }, .inr (senderResult xml o))
      | .goesOn reads st => some ({ ch with taken := ch.taken ++ reads.flatten }, .inl (.reading h st))
      | .hangs => some (ch, .inl .hanging)
    | _, _ => none

/-- The session's threads; a hold of the mutex may send several requests, as `locked_edit_config` does. -/
def runRpcThreads (xml : XmlParser) (readTimeout : Int) (turns : List (Serial.Turn Exchange SenderInput Nat)) :
    Threads ChannelBytes Exchange SenderInput SenderPc Response Nat :=
  run (Threads.step (sender xml readTimeout)) { shared := {} } turns

/-- The script that a sender's turns make. -/
def scriptOf (inputs : List SenderInput) : RpcScript where
  writes := inputs.filterMap fun | .write w _ => some w | .read _ => none
  startedAt := ((inputs.filterMap fun | .write _ now => some now | .read _ => none).getLast?).getD 0
  tape := inputs.filterMap fun | .read t => some t | .write _ _ => none

/-- The request, sent in one go. -/
def Exchange.call (x : Exchange) (inputs : List SenderInput) : RpcCall where
  handles := x.handles
  rpc := x.rpc
  script := scriptOf inputs

variable {cfg : ClientConfig} {xml : XmlParser} {readTimeout : Int} {ch : ChannelBytes} {x : Exchange}

/-! ## The script of a sender -/

theorem scriptOf_write (inputs : List SenderInput) (w : ChannelWrite) (now : Nat) :
    scriptOf (inputs ++ [.write w now]) =
      { writes := (scriptOf inputs).writes ++ [w], startedAt := now, tape := (scriptOf inputs).tape } := by
  simp [scriptOf]

theorem scriptOf_read (inputs : List SenderInput) (t : ReadTurn) :
    scriptOf (inputs ++ [.read t]) = { scriptOf inputs with tape := (scriptOf inputs).tape ++ [t] } := by
  simp [scriptOf]

/-- What a turn comes to with the turns behind it. -/
def ReadStep.follow (step : ReadStep) (rest : ReadState → ReadEnd) : List Bytes × Outcome Bytes :=
  match step with
  | .ends reads o => (reads, some o)
  | .goesOn reads st => (reads ++ (rest st).reads, (rest st).outcome)
  | .hangs => ([], none)

/-- **The loop is its turns**, one after another. -/
theorem readLoop_step (p : ReadParams) (st : ReadState) (t : ReadTurn) (tape : List ReadTurn) :
    ((readLoop p st (t :: tape)).reads, (readLoop p st (t :: tape)).outcome) =
      (readStep p st t).follow fun st => readLoop p st tape := by
  unfold readStep
  rw [readLoop]
  split
  · rfl
  split
  · rfl
  cases t.read with
  | failed e => rfl
  | eagain =>
    simp only
    cases waitOrStop p st t with
    | none => rfl
    | some o => cases o <;> rfl
  | bytes b =>
    cases b with
    | nil =>
      simp only
      cases waitOrStop p st t with
      | none => rfl
      | some o => cases o <;> rfl
    | cons b bs =>
      simp only
      split <;> rfl

/-! ## A sender, in turns and in one go -/

/-- The write loop of the sender. -/
abbrev sends (data : Bytes) (writes : List ChannelWrite) : Written :=
  writeLoop "Poll error during write: " "Failed to send RPC: " data writes

/-- Where a sender is behind the inputs of a script, begun on `ch`: what the loops would come to with more of a script
is what they come to from here. -/
inductive SenderAt (xml : XmlParser) (readTimeout : Int) (ch : ChannelBytes) (x : Exchange) (s : RpcScript) :
    ChannelBytes × (SenderPc ⊕ Response) → Prop
  | writing {accepted rest : Bytes} {ch' : ChannelBytes} (hwire : ch'.wire = ch.wire ++ accepted)
      (htaken : ch'.taken = ch.taken) (hopen : x.handles.channel = true) (htape : s.tape = []) (hrest : rest ≠ [])
      (hloop : ∀ writes, sends (rpcWithEom x.rpc) (s.writes ++ writes) =
        ⟨accepted ++ (sends rest writes).accepted, (sends rest writes).outcome⟩) :
      SenderAt xml readTimeout ch x s (ch', .inl (.writing x.handles rest))
  | reading (reads : List Bytes) {st : ReadState} {ch' : ChannelBytes} (hwire : ch'.wire = ch.wire ++ rpcWithEom x.rpc)
      (htaken : ch'.taken = ch.taken ++ reads.flatten) (hopen : x.handles.channel = true)
      (hsession : x.handles.session = true)
      (hwritten : sends (rpcWithEom x.rpc) s.writes = ⟨rpcWithEom x.rpc, some (.ok ())⟩)
      (hloop : ∀ tape, let p := x.handles.readParams readTimeout
        let r := readLoop p { lastDataTime := s.startedAt, firstDataTime := s.startedAt } (s.tape ++ tape)
        (r.reads, r.outcome) = (reads ++ (readLoop p st tape).reads, (readLoop p st tape).outcome)) :
      SenderAt xml readTimeout ch x s (ch', .inl (.reading x.handles st))
  | finished {pc : SenderPc ⊕ Response} {ch' : ChannelBytes}
      (hwire : ch'.wire = ch.wire ++ (sendRpcNonBlockingFunc xml x.handles x.rpc readTimeout s).written)
      (htaken : ch'.taken = ch.taken ++ (sendRpcNonBlockingFunc xml x.handles x.rpc readTimeout s).reads.flatten)
      (hpc : pc = .inl .hanging ∧ (sendRpcNonBlockingFunc xml x.handles x.rpc readTimeout s).outcome = none ∨
        ∃ o, pc = .inr o ∧ (sendRpcNonBlockingFunc xml x.handles x.rpc readTimeout s).outcome = some o) :
      SenderAt xml readTimeout ch x s (ch', pc)

/-- Behind the check of the channel, what is written and what is read. -/
theorem sendRpc_open (xml : XmlParser) (readTimeout : Int) (hopen : x.handles.channel = true) {s : RpcScript}
    {w : Written} (hwrite : sends (rpcWithEom x.rpc) s.writes = w) :
    sendRpcNonBlockingFunc xml x.handles x.rpc readTimeout s =
      let e := exchange xml w (nonBlockingRead x.handles readTimeout s) s.tape
      { e with outcome := rethrow "Error occured while sending RPC: " e.outcome } := by
  have hwritten : nonBlockingWrite x.rpc s = w := hwrite
  rw [sendRpcNonBlockingFunc, sendRpcFunc, if_neg (not_not.2 hopen), hwritten]

theorem sendRpc_writeFailed (xml : XmlParser) (readTimeout : Int) (hopen : x.handles.channel = true) {s : RpcScript}
    {accepted what : Bytes} (hwrite : sends (rpcWithEom x.rpc) s.writes = ⟨accepted, some (.error what)⟩) :
    sendRpcNonBlockingFunc xml x.handles x.rpc readTimeout s = ⟨accepted, [], some (sendFailed what), s.tape⟩ :=
  sendRpc_open xml readTimeout hopen hwrite

/-- A script that ends inside the write loop. -/
theorem sendRpc_stopped (xml : XmlParser) (readTimeout : Int) (hopen : x.handles.channel = true) {s : RpcScript}
    {accepted : Bytes} (hwrite : sends (rpcWithEom x.rpc) s.writes = ⟨accepted, none⟩) :
    sendRpcNonBlockingFunc xml x.handles x.rpc readTimeout s = ⟨accepted, [], none, s.tape⟩ :=
  sendRpc_open xml readTimeout hopen hwrite

/-- Behind a whole request, what the reader comes to. -/
theorem sendRpc_written (xml : XmlParser) (readTimeout : Int) (hopen : x.handles.channel = true) {s : RpcScript}
    (hwrite : sends (rpcWithEom x.rpc) s.writes = ⟨rpcWithEom x.rpc, some (.ok ())⟩) :
    sendRpcNonBlockingFunc xml x.handles x.rpc readTimeout s =
      let r := nonBlockingRead x.handles readTimeout s
      ⟨rpcWithEom x.rpc, r.reads, rethrow "Error occured while sending RPC: " (r.outcome.map (·.bind (checked xml))),
        r.unread⟩ :=
  sendRpc_open xml readTimeout hopen hwrite

theorem sendRpc_read (xml : XmlParser) (readTimeout : Int) (hopen : x.handles.channel = true)
    (hsession : x.handles.session = true) {s : RpcScript}
    (hwrite : sends (rpcWithEom x.rpc) s.writes = ⟨rpcWithEom x.rpc, some (.ok ())⟩) :
    let e := sendRpcNonBlockingFunc xml x.handles x.rpc readTimeout s
    let r := readLoop (x.handles.readParams readTimeout) { lastDataTime := s.startedAt, firstDataTime := s.startedAt }
      s.tape
    e.written = rpcWithEom x.rpc ∧ e.reads = r.reads ∧ e.outcome = r.outcome.map (senderResult xml) := by
  have hread : nonBlockingRead x.handles readTimeout s = { readLoop (x.handles.readParams readTimeout)
      { lastDataTime := s.startedAt, firstDataTime := s.startedAt } s.tape with
        outcome := rethrow "Error occured while reading from channel: " (readLoop (x.handles.readParams readTimeout)
          { lastDataTime := s.startedAt, firstDataTime := s.startedAt } s.tape).outcome } := by
    rw [nonBlockingRead, readUntilEomNonBlocking, if_neg (by simp [hopen, hsession])]
    rfl
  rw [sendRpc_written xml readTimeout hopen hwrite, hread]
  refine ⟨rfl, rfl, ?_⟩
  simp only [rethrow, Option.map_map]
  rfl

/-- A sender that is where the call in one go has ended. -/
theorem SenderAt.ended {s : RpcScript} {written : Bytes} {reads : List Bytes} {o : Response} {tape : List ReadTurn}
    {ch' : ChannelBytes}
    (hend : sendRpcNonBlockingFunc xml x.handles x.rpc readTimeout s = ⟨written, reads, some o, tape⟩)
    (hwire : ch'.wire = ch.wire ++ written) (htaken : ch'.taken = ch.taken ++ reads.flatten) :
    SenderAt xml readTimeout ch x s (ch', .inr o) := by
  refine .finished ?_ ?_ (Or.inr ⟨o, rfl, ?_⟩) <;> rw [hend]
  · exact hwire
  · exact htaken

theorem senderAt_start (xml : XmlParser) (readTimeout : Int) (ch : ChannelBytes) (x : Exchange) :
    SenderAt xml readTimeout ch x (scriptOf []) (ch, (sender xml readTimeout).start x) := by
  by_cases hopen : x.handles.channel = true
  · have hstart : (sender xml readTimeout).start x = .inl (.writing x.handles (rpcWithEom x.rpc)) :=
      if_neg (not_not.2 hopen)
    rw [hstart]
    exact .writing (List.append_nil _).symm rfl hopen rfl (by simp [rpcWithEom]) fun writes => rfl
  · have hstart : (sender xml readTimeout).start x = .inr (sendFailed (ascii "Channel not open.")) := if_pos hopen
    have hend : sendRpcNonBlockingFunc xml x.handles x.rpc readTimeout (scriptOf []) =
        ⟨[], [], some (sendFailed (ascii "Channel not open.")), []⟩ := by
      rw [sendRpcNonBlockingFunc, sendRpcFunc, if_pos hopen]
      rfl
    rw [hstart]
    exact .ended hend (List.append_nil _).symm (List.append_nil _).symm

/-- The request is written, and the reader is entered. -/
theorem senderAt_startsReading {s : RpcScript} {ch' : ChannelBytes} (hwire : ch'.wire = ch.wire ++ rpcWithEom x.rpc)
    (htaken : ch'.taken = ch.taken) (hopen : x.handles.channel = true) (htape : s.tape = [])
    (hwritten : sends (rpcWithEom x.rpc) s.writes = ⟨rpcWithEom x.rpc, some (.ok ())⟩) :
    SenderAt xml readTimeout ch x s (ch', startsReading xml x.handles s.startedAt) := by
  by_cases hsession : x.handles.session = true
  · rw [startsReading, if_neg (by simp [hopen, hsession])]
    exact .reading [] hwire (by rw [htaken]; exact (List.append_nil _).symm) hopen hsession hwritten
      fun tape => by rw [htape]; rfl
  · have hend := sendRpc_written xml readTimeout hopen hwritten
    have hread : nonBlockingRead x.handles readTimeout s =
        ⟨[], rethrow "Error occured while reading from channel: " (some (.error operationCancelled)), s.tape⟩ := by
      rw [nonBlockingRead, readUntilEomNonBlocking, if_pos (by simp [hsession])]
    rw [hread] at hend
    rw [startsReading, if_pos (by simp [hsession])]
    exact .ended hend hwire (htaken.trans (List.append_nil _).symm)

theorem senderAt_write {inputs : List SenderInput} {accepted rest : Bytes} {ch' : ChannelBytes}
    (hwire : ch'.wire = ch.wire ++ accepted) (htaken : ch'.taken = ch.taken) (hopen : x.handles.channel = true)
    (htape : (scriptOf inputs).tape = []) (hrest : rest ≠ [])
    (hloop : ∀ writes, sends (rpcWithEom x.rpc) ((scriptOf inputs).writes ++ writes) =
      ⟨accepted ++ (sends rest writes).accepted, (sends rest writes).outcome⟩) (w : ChannelWrite) (now : Nat) :
    SenderAt xml readTimeout ch x (scriptOf (inputs ++ [.write w now]))
      ((sender xml readTimeout).next (ch', .inl (.writing x.handles rest)) (.write w now)) := by
  obtain ⟨b, data, rfl⟩ := List.exists_cons_of_ne_nil hrest
  have hmore : ∀ writes, sends (rpcWithEom x.rpc) ((scriptOf (inputs ++ [.write w now])).writes ++ writes) =
      ⟨accepted ++ (sends (b :: data) (w :: writes)).accepted, (sends (b :: data) (w :: writes)).outcome⟩ := by
    intro writes
    rw [scriptOf_write, List.append_assoc, List.singleton_append]
    exact hloop (w :: writes)
  have hlast := hmore []
  rw [List.append_nil] at hlast
  have hstill : (scriptOf (inputs ++ [.write w now])).tape = [] := by rw [scriptOf_write, htape]
  -- an attempt that ends the loop with a text
  have hfails (what : Bytes) (hw : sends (b :: data) [w] = ⟨[], some (.error what)⟩) :
      SenderAt xml readTimeout ch x (scriptOf (inputs ++ [.write w now])) (ch', .inr (sendFailed what)) := by
    rw [hw, List.append_nil] at hlast
    exact .ended (sendRpc_writeFailed xml readTimeout hopen hlast) hwire (htaken.trans (List.append_nil _).symm)
  cases w with
  | eagain pollError errMsg =>
    cases pollError with
    | none => exact .writing hwire htaken hopen hstill hrest hmore
    | some e => exact hfails _ rfl
  | failed e => exact hfails _ rfl
  | accepted n =>
    have hwire' : ch'.wire ++ (b :: data).take n = ch.wire ++ (accepted ++ (b :: data).take n) := by
      rw [hwire, List.append_assoc]
    have hmore' : ∀ writes, sends (rpcWithEom x.rpc)
        ((scriptOf (inputs ++ [.write (.accepted n) now])).writes ++ writes) =
          ⟨accepted ++ (b :: data).take n ++ (sends ((b :: data).drop n) writes).accepted,
            (sends ((b :: data).drop n) writes).outcome⟩ := by
      intro writes
      rw [hmore, List.append_assoc]
      rfl
    by_cases hdone : (b :: data).drop n = []
    · have hall := hmore' []
      rw [hdone, show sends [] [] = ⟨[], some (.ok ())⟩ from rfl, List.append_nil, List.append_nil] at hall
      have hdata : accepted ++ (b :: data).take n = rpcWithEom x.rpc :=
        (congrArg Written.accepted hall).symm.trans (writeLoop_ok _ _ (congrArg Written.outcome hall))
      rw [hdata] at hall hwire'
      have hnext : (sender xml readTimeout).next (ch', .inl (.writing x.handles (b :: data)))
          (.write (.accepted n) now) = ({ ch' with wire := ch'.wire ++ (b :: data).take n },
            startsReading xml x.handles (scriptOf (inputs ++ [.write (.accepted n) now])).startedAt) := by
        rw [scriptOf_write]
        simp only [Program.next, sender, if_pos hdone, Option.getD_some]
      rw [hnext]
      exact senderAt_startsReading hwire' htaken hopen hstill hall
    · have hnext : (sender xml readTimeout).next (ch', .inl (.writing x.handles (b :: data)))
          (.write (.accepted n) now) =
            ({ ch' with wire := ch'.wire ++ (b :: data).take n }, .inl (.writing x.handles ((b :: data).drop n))) := by
        simp only [Program.next, sender, if_neg hdone, Option.getD_some]
      rw [hnext]
      exact .writing hwire' htaken hopen hstill hdone hmore'

theorem senderAt_read {inputs : List SenderInput} {reads : List Bytes} {st : ReadState} {ch' : ChannelBytes}
    (hwire : ch'.wire = ch.wire ++ rpcWithEom x.rpc) (htaken : ch'.taken = ch.taken ++ reads.flatten)
    (hopen : x.handles.channel = true) (hsession : x.handles.session = true)
    (hwritten : sends (rpcWithEom x.rpc) (scriptOf inputs).writes = ⟨rpcWithEom x.rpc, some (.ok ())⟩)
    (hloop : ∀ tape, let p := x.handles.readParams readTimeout
      let r := readLoop p { lastDataTime := (scriptOf inputs).startedAt, firstDataTime := (scriptOf inputs).startedAt }
        ((scriptOf inputs).tape ++ tape)
      (r.reads, r.outcome) = (reads ++ (readLoop p st tape).reads, (readLoop p st tape).outcome)) (t : ReadTurn) :
    SenderAt xml readTimeout ch x (scriptOf (inputs ++ [.read t]))
      ((sender xml readTimeout).next (ch', .inl (.reading x.handles st)) (.read t)) := by
  have hwritten' : sends (rpcWithEom x.rpc) (scriptOf (inputs ++ [.read t])).writes =
      ⟨rpcWithEom x.rpc, some (.ok ())⟩ := by
    rw [scriptOf_read]
    exact hwritten
  obtain ⟨hall, hreads, houtcome⟩ := sendRpc_read xml readTimeout hopen hsession hwritten'
  have hmore : let s := scriptOf (inputs ++ [.read t])
      let r := readLoop (x.handles.readParams readTimeout) { lastDataTime := s.startedAt, firstDataTime := s.startedAt }
        s.tape
      r.reads = reads ++ (readLoop (x.handles.readParams readTimeout) st [t]).reads ∧
        r.outcome = (readLoop (x.handles.readParams readTimeout) st [t]).outcome := by
    rw [scriptOf_read]
    exact Prod.mk.inj (hloop [t])
  rw [hmore.1] at hreads
  rw [hmore.2] at houtcome
  have hstep := readLoop_step (x.handles.readParams readTimeout) st t
  cases hturn : readStep (x.handles.readParams readTimeout) st t with
  | ends rs o =>
    have hnext : (sender xml readTimeout).next (ch', .inl (.reading x.handles st)) (.read t) =
        ({ ch' with taken := ch'.taken ++ rs.flatten }, .inr (senderResult xml o)) := by
      simp only [Program.next, sender, hturn, Option.getD_some]
    simp only [hturn] at hstep
    obtain ⟨hrs, ho⟩ := Prod.mk.inj (hstep [])
    rw [hnext]
    refine .finished (hwire.trans (by rw [hall])) ?_ (Or.inr ⟨_, rfl, ?_⟩)
    · rw [hreads, hrs, List.flatten_append, ← List.append_assoc, ← htaken]
    · rw [houtcome, ho, Option.map_some]
  | goesOn rs st' =>
    have hnext : (sender xml readTimeout).next (ch', .inl (.reading x.handles st)) (.read t) =
        ({ ch' with taken := ch'.taken ++ rs.flatten }, .inl (.reading x.handles st')) := by
      simp only [Program.next, sender, hturn, Option.getD_some]
    rw [hnext]
    refine .reading (reads ++ rs) hwire ?_ hopen hsession hwritten' fun tape => ?_
    · rw [List.flatten_append, ← List.append_assoc, ← htaken]
    · simp only [hturn] at hstep
      obtain ⟨hrs, ho⟩ := Prod.mk.inj (hstep tape)
      rw [scriptOf_read, List.append_assoc, List.singleton_append]
      refine (hloop (t :: tape)).trans ?_
      rw [hrs, ho, List.append_assoc]
  | hangs =>
    have hnext : (sender xml readTimeout).next (ch', .inl (.reading x.handles st)) (.read t) =
        (ch', .inl .hanging) := by
      simp only [Program.next, sender, hturn, Option.getD_some]
    simp only [hturn] at hstep
    obtain ⟨hrs, ho⟩ := Prod.mk.inj (hstep [])
    rw [hnext]
    refine .finished (hwire.trans (by rw [hall])) ?_ (Or.inl ⟨rfl, ?_⟩)
    · rw [hreads, hrs, List.append_nil, ← htaken]
    · rw [houtcome, ho, Option.map_none]

/-- **A sender, in turns.** -/
theorem senderAt_exec : ∀ {inputs : List SenderInput}, (sender xml readTimeout).Fits ch x inputs →
    SenderAt xml readTimeout ch x (scriptOf inputs) ((sender xml readTimeout).exec ch x inputs) := by
  intro inputs
  induction inputs using List.reverseRecOn with
  | nil => exact fun _ => senderAt_start xml readTimeout ch x
  | append_singleton inputs i ih =>
    intro hfits
    obtain ⟨hfront, pc, hpc, hturn⟩ := Run.along_concat.1 hfits
    have hat := ih hfront
    rw [Program.exec_concat]
    have hexec : run (sender xml readTimeout).next (ch, (sender xml readTimeout).start x) inputs =
      (sender xml readTimeout).exec ch x inputs := rfl
    rw [hexec] at hpc hturn
    generalize (sender xml readTimeout).exec ch x inputs = y at hat hpc hturn
    cases hat with
    | writing hwire htaken hopen htape hrest hloop =>
      cases hpc
      cases i with
      | write w now => exact senderAt_write hwire htaken hopen htape hrest hloop w now
      | read t => cases hturn
    | reading reads hwire htaken hopen hsession hwritten hloop =>
      cases hpc
      cases i with
      | write w now => cases hturn
      | read t => exact senderAt_read hwire htaken hopen hsession hwritten hloop t
    | finished hwire htaken hends =>
      obtain ⟨rfl, -⟩ | ⟨o, rfl, -⟩ := hends
      · cases hpc
        cases i <;> cases hturn
      · cases hpc

/-- What is on the wire and what is taken, at any turn of a sender, is what it has in one go with the script so far. -/
theorem SenderAt.bytes {s : RpcScript} {y : ChannelBytes × (SenderPc ⊕ Response)}
    (h : SenderAt xml readTimeout ch x s y) :
    y.1.wire = ch.wire ++ (sendRpcNonBlockingFunc xml x.handles x.rpc readTimeout s).written ∧
      y.1.taken = ch.taken ++ (sendRpcNonBlockingFunc xml x.handles x.rpc readTimeout s).reads.flatten := by
  cases h with
  | writing hwire htaken hopen htape hrest hloop =>
    obtain ⟨b, data, rfl⟩ := List.exists_cons_of_ne_nil hrest
    have hwrite := hloop []
    rw [List.append_nil] at hwrite
    rw [sendRpc_stopped xml readTimeout hopen (hwrite.trans (by rw [sends, writeLoop, List.append_nil]))]
    exact ⟨hwire, htaken.trans (List.append_nil _).symm⟩
  | reading reads hwire htaken hopen hsession hwritten hloop =>
    obtain ⟨hall, hreads, -⟩ := sendRpc_read xml readTimeout hopen hsession hwritten
    have hsofar := (Prod.mk.inj (hloop [])).1
    rw [List.append_nil] at hsofar
    rw [hall, hreads, hsofar]
    exact ⟨hwire, htaken.trans (by rw [readLoop, List.append_nil])⟩
  | finished hwire htaken _ => exact ⟨hwire, htaken⟩

theorem SenderAt.outcome {s : RpcScript} {y : ChannelBytes × (SenderPc ⊕ Response)} {o : Response}
    (h : SenderAt xml readTimeout ch x s y) (ho : y.2 = .inr o) :
    (sendRpcNonBlockingFunc xml x.handles x.rpc readTimeout s).outcome = some o := by
  cases h with
  | writing | reading => cases ho
  | finished _ _ hends =>
    obtain ⟨rfl, -⟩ | ⟨o', rfl, hout⟩ := hends
    · cases ho
    · cases ho
      exact hout

/-! ## Threads -/

/-- A call that has ended, sent in one go. -/
def rpcCall (e : Ended Exchange SenderInput Response Nat) : RpcCall := e.call.call e.inputs

/-- The channel while nobody is in a call. -/
def ChannelBytes.free (ch : ChannelBytes) : RpcChannel := { wire := ch.wire, taken := ch.taken }

/-- **A call that has ended in turns, sent in one go**: it comes to the same, and leaves the same channel. -/
theorem rpcCall_step {e : Ended Exchange SenderInput Response Nat}
    (h : Ended.Comes (sender xml cfg.readTimeout) ch e) :
    ((rpcCall e).on cfg xml ch.free).outcome = some e.result ∧
      (rpcCall e).step cfg xml ch.free = (Ended.after (sender xml cfg.readTimeout) ch e).free := by
  have hat := senderAt_exec h.fits
  obtain ⟨hwire, htaken⟩ := hat.bytes
  have hout : ((rpcCall e).on cfg xml ch.free).outcome = some e.result := hat.outcome h.comes
  refine ⟨hout, ?_⟩
  rw [RpcCall.step, hout, Ended.after, ChannelBytes.free, ChannelBytes.free, hwire, htaken]
  rfl

theorem runCalls_concat (calls : List RpcCall) (call : RpcCall) :
    runCalls cfg xml (calls ++ [call]) = call.step cfg xml (runCalls cfg xml calls) := Run.run_concat calls call

/-- **The calls that have ended, one after another in one go**, leave the channel as the turns do. -/
theorem runCalls_serial (cfg : ClientConfig) {es : List (Ended Exchange SenderInput Response Nat)}
    (h : Along (Ended.after (sender xml cfg.readTimeout)) (Ended.Comes (sender xml cfg.readTimeout)) {} es) :
    runCalls cfg xml (es.map rpcCall) = (serial (sender xml cfg.readTimeout) {} es).free := by
  induction es using List.reverseRecOn with
  | nil => rfl
  | append_singleton es e ih =>
    obtain ⟨hfront, hcomes⟩ := Run.along_concat.1 h
    rw [List.map_append, List.map_singleton, runCalls_concat, ih hfront, Serial.serial_concat]
    exact (rpcCall_step hcomes).2

/-- The calls of the threads: those that have ended, and the one under way as far as it has come. -/
def rpcCalls (s : Threads ChannelBytes Exchange SenderInput SenderPc Response Nat) : List RpcCall :=
  s.ended.map rpcCall ++ (s.underWay.map fun c => c.1.call c.2).toList

theorem sound_runRpcThreads (xml : XmlParser) (readTimeout : Int) (turns : List (Serial.Turn Exchange SenderInput Nat)) :
    Sound (sender xml readTimeout) {} (runRpcThreads xml readTimeout turns) := sound_run turns

theorem runRpcThreads_bytes (cfg : ClientConfig) (xml : XmlParser) (turns : List (Serial.Turn Exchange SenderInput Nat)) :
    (runRpcThreads xml cfg.readTimeout turns).shared.wire =
        (runCalls cfg xml (rpcCalls (runRpcThreads xml cfg.readTimeout turns))).wire ∧
      (runRpcThreads xml cfg.readTimeout turns).shared.taken =
        (runCalls cfg xml (rpcCalls (runRpcThreads xml cfg.readTimeout turns))).taken := by
  have h := sound_runRpcThreads xml cfg.readTimeout turns
  generalize runRpcThreads xml cfg.readTimeout turns = s at h ⊢
  have hended := runCalls_serial cfg h.ended
  rcases h.shared with ⟨hnone, hshared⟩ | ⟨x, inputs, locals, hsome, hfits, hexec⟩
  · rw [rpcCalls, hnone, Option.map_none, Option.toList_none, List.append_nil, hended, hshared]
    exact ⟨rfl, rfl⟩
  · have hat := (senderAt_exec hfits).bytes
    rw [hexec] at hat
    rw [rpcCalls, hsome, Option.map_some, Option.toList_some, runCalls_concat, hended]
    exact hat

/-- **Whatever the order in which the threads take their turns**, the bytes written and the bytes read are those of the
calls made one after another in one go, with the call under way as far as it has come; every call that has ended came to
what it comes to there; and the calls of one hold of the mutex follow each other. -/
theorem exchanges_serial (cfg : ClientConfig) (xml : XmlParser) (turns : List (Serial.Turn Exchange SenderInput Nat)) :
    let s := runRpcThreads xml cfg.readTimeout turns
    let ch := runCalls cfg xml (rpcCalls s)
    s.shared.wire = ch.wire ∧ s.shared.taken = ch.taken ∧
    (∀ before e, before ++ [e] <+: s.ended →
      ((rpcCall e).on cfg xml (runCalls cfg xml (before.map rpcCall))).outcome = some e.result) ∧
    s.ended.Pairwise fun e e' => e.entry ≤ e'.entry ∧ (e.entry = e'.entry → e.thread = e'.thread) := by
  intro s ch
  have h : Sound (sender xml cfg.readTimeout) {} s := sound_runRpcThreads xml cfg.readTimeout turns
  obtain ⟨hwire, htaken⟩ := runRpcThreads_bytes cfg xml turns
  refine ⟨hwire, htaken, fun before e he => ?_, h.sorted⟩
  obtain ⟨hfront, hcomes⟩ := h.comes he
  rw [runCalls_serial cfg hfront]
  exact (rpcCall_step hcomes).1

/-! ## What the device reads -/

/-- What a sender has written is a part of its frame, from its beginning. -/
theorem sendRpc_written_prefix (xml : XmlParser) (h : Handles) (rpc : Bytes) (readTimeout : Int) (s : RpcScript) :
    (sendRpcNonBlockingFunc xml h rpc readTimeout s).written <+: rpcWithEom rpc := by
  by_cases hopen : h.channel = true
  · rw [sendRpcNonBlockingFunc, sendRpcFunc_written hopen, nonBlockingWrite]
    by_cases hok : (writeLoop "Poll error during write: " "Failed to send RPC: " (rpcWithEom rpc) s.writes).outcome =
      some (.ok ())
    · rw [writeLoop_ok _ _ hok]
    · obtain ⟨rest, -, hdata⟩ := writeLoop_not_ok _ _ _ _ hok
      exact ⟨rest, hdata.symm⟩
  · rw [sendRpcNonBlockingFunc, sendRpcFunc, if_pos hopen]
    exact List.nil_prefix

/-- Calls that have all returned have put their frames on the channel. -/
theorem wire_of_returned (cfg : ClientConfig) {es : List (Ended Exchange SenderInput Response Nat)}
    (h : Along (Ended.after (sender xml cfg.readTimeout)) (Ended.Comes (sender xml cfg.readTimeout)) {} es)
    (hreturn : ∀ e ∈ es, ∃ reply, e.result = .ok reply) :
    (runCalls cfg xml (es.map rpcCall)).wire = es.flatMap fun e => rpcWithEom e.call.rpc := by
  induction es using List.reverseRecOn with
  | nil => rfl
  | append_singleton es e ih =>
    obtain ⟨hfront, hcomes⟩ := Run.along_concat.1 h
    obtain ⟨reply, hreply⟩ := hreturn e (List.mem_append_right _ (List.mem_singleton_self e))
    have hwire := ih hfront fun e he => hreturn e (List.mem_append_left _ he)
    have hout : ((rpcCall e).on cfg xml (runCalls cfg xml (es.map rpcCall))).outcome = some (.ok reply) := by
      rw [runCalls_serial cfg hfront, ← hreply]
      exact (rpcCall_step hcomes).1
    have hgot : ((rpcCall e).on cfg xml (runCalls cfg xml (es.map rpcCall))).written = rpcWithEom e.call.rpc := by
      obtain ⟨-, -, hno, -⟩ | ⟨-, hno | hgot⟩ := (rpcCall e).on_cases cfg xml (runCalls cfg xml (es.map rpcCall))
      · exact absurd hout (hno reply)
      · exact absurd hout (hno.2 reply)
      · exact hgot.1
    rw [List.map_append, List.map_singleton, runCalls_concat, RpcCall.step, hwire, hgot, List.flatMap_append,
      List.flatMap_singleton]

/-- **No two requests are mixed on the wire.**  While every call that has ended has returned, the channel has their
frames, whole and in the order in which they ended, and behind them the beginning of the frame of the call under way; cut
at the marker, the frames are the requests. -/
theorem threads_requests_read (cfg : ClientConfig) (xml : XmlParser)
    (turns : List (Serial.Turn Exchange SenderInput Nat))
    (hreturn : ∀ e ∈ (runRpcThreads xml cfg.readTimeout turns).ended, ∃ reply, e.result = .ok reply)
    (hmark : ∀ e ∈ (runRpcThreads xml cfg.readTimeout turns).ended, find eom e.call.rpc = none) :
    let s := runRpcThreads xml cfg.readTimeout turns
    let frames := s.ended.flatMap fun e => rpcWithEom e.call.rpc
    payloads (requests frames) = s.ended.map (·.call.rpc) ∧
      ∃ part, s.shared.wire = frames ++ part ∧ (s.underWay = none → part = []) ∧
        ∀ c, s.underWay = some c → part <+: rpcWithEom c.1.rpc := by
  intro s frames
  have h : Sound (sender xml cfg.readTimeout) {} s := sound_runRpcThreads xml cfg.readTimeout turns
  have hframes : frames = (s.ended.map (·.call.rpc)).flatMap rpcWithEom := (List.flatMap_map ..).symm
  refine ⟨?_, ?_⟩
  · rw [hframes]
    refine (splitOn_frames _ fun rpc hrpc => ?_).1
    obtain ⟨e, he, rfl⟩ := List.mem_map.1 hrpc
    exact hmark e he
  have hwire := wire_of_returned cfg h.ended hreturn
  have hbytes : s.shared.wire = (runCalls cfg xml (rpcCalls s)).wire := (runRpcThreads_bytes cfg xml turns).1
  rw [hbytes]
  cases hunder : s.underWay with
  | none =>
    refine ⟨[], ?_, fun _ => rfl, fun c hc => by cases hc⟩
    rw [rpcCalls, hunder, Option.map_none, Option.toList_none, List.append_nil, hwire, List.append_nil]
  | some c =>
    refine ⟨(sendRpcNonBlockingFunc xml c.1.handles c.1.rpc cfg.readTimeout (scriptOf c.2)).written, ?_,
      fun hnone => (by cases hnone), fun c' hc' => ?_⟩
    · rw [rpcCalls, hunder, Option.map_some, Option.toList_some, runCalls_concat, RpcCall.step, hwire,
        runCalls_serial cfg h.ended]
      rfl
    · cases hc'
      exact sendRpc_written_prefix ..

/-- `<get/>`, asked by whichever thread. -/
def getExchange : Exchange where
  handles := { socket := 3 }
  rpc := ascii "<get/>"

/-- A whole exchange, the reply in two pieces. -/
def getInputs (text : String) : List SenderInput := [
  .write (.accepted 7) 0, .write (.eagain none none) 0, .write (.accepted 100) 0,
  .read (answerTurn text), .read (answerTurn "]]>")]

/-- Two threads ask; the second waits while the first is in its call, and then makes its own. -/
def twoThreads : List (Serial.Turn Exchange SenderInput Nat) :=
  [.ask 0, .enter 0, .call 0 getExchange, .ask 1] ++ (getInputs "<a/>]]>").flatMap (fun i => [.go 0 i, .enter 1]) ++
  [.leave 0, .enter 1, .call 1 getExchange] ++ (getInputs "<b/>]]>").map (.go 1) ++ [.leave 1]

theorem twoThreads_ended : (runRpcThreads rejectsAll defaultClient.readTimeout twoThreads).ended =
    [⟨0, 0, getExchange, getInputs "<a/>]]>", .ok (ascii "<a/>]]>]]>")⟩,
      ⟨1, 1, getExchange, getInputs "<b/>]]>", .ok (ascii "<b/>]]>]]>")⟩] := rfl

theorem threads_requests_read_two : payloads (requests
    ((runRpcThreads rejectsAll defaultClient.readTimeout twoThreads).ended.flatMap fun e => rpcWithEom e.call.rpc)) =
      [ascii "<get/>", ascii "<get/>"] := by
  refine (threads_requests_read defaultClient rejectsAll twoThreads (fun e he => ?_) fun e he => ?_).1.trans ?_
  · rw [twoThreads_ended] at he
    rcases List.mem_pair.1 he with rfl | rfl <;> exact ⟨_, rfl⟩
  · rw [twoThreads_ended] at he
    rcases List.mem_pair.1 he with rfl | rfl <;> decide +kernel
  · rw [twoThreads_ended]
    rfl

/-! ## Whose reply -/

/-- **The server answers no faster than the threads ask**: then it does so for the calls one after another. -/
theorem delivers_of_threads {sv : Server} {turns : List (Serial.Turn Exchange SenderInput Nat)}
    (hdel : ∀ front, front <+: turns → (runRpcThreads xml cfg.readTimeout front).shared.taken <+:
      sv.stream (requests (runRpcThreads xml cfg.readTimeout front).shared.wire).length)
    {es : List (Ended Exchange SenderInput Response Nat)}
    (hes : es <+: (runRpcThreads xml cfg.readTimeout turns).ended) :
    Along (RpcCall.step cfg xml) (sv.Delivers cfg xml) {} (es.map rpcCall) := by
  have hsound := sound_runRpcThreads xml cfg.readTimeout turns
  induction es using List.reverseRecOn with
  | nil => exact Run.along_nil
  | append_singleton es e ih =>
    obtain ⟨hfront, hcomes⟩ := hsound.comes hes
    rw [List.map_append, List.map_singleton]
    refine Run.along_concat.2 ⟨ih ((List.prefix_append _ _).trans hes), ?_⟩
    -- when the call had just ended, the channel was that of the calls up to it
    obtain ⟨front, hprefix, -, hshared⟩ := Serial.once_of_ended turns hes
    have hstep := (rpcCall_step hcomes).2
    have hnow : (runRpcThreads xml cfg.readTimeout front).shared.free =
        (rpcCall e).step cfg xml (runCalls cfg xml (es.map rpcCall)) := by
      rw [runCalls_serial cfg hfront, hstep]
      exact congrArg ChannelBytes.free (hshared.trans (Serial.serial_concat ..))
    have hfree : (runRpcThreads xml cfg.readTimeout front).shared.free.taken <+:
        sv.stream (requests (runRpcThreads xml cfg.readTimeout front).shared.free.wire).length := hdel front hprefix
    rw [hnow] at hfree
    exact hfree

/-- **Each thread is returned the answer to its own request**, whatever the order of the turns, if each call that ended
before it and put bytes on the channel had read a marker, and no request text holds one. -/
theorem threads_replies_paired (cfg : ClientConfig) (xml : XmlParser) (sv : Server)
    (turns : List (Serial.Turn Exchange SenderInput Nat))
    (hdel : ∀ front, front <+: turns → (runRpcThreads xml cfg.readTimeout front).shared.taken <+:
      sv.stream (requests (runRpcThreads xml cfg.readTimeout front).shared.wire).length)
    (before : List (Ended Exchange SenderInput Response Nat))
    (e : Ended Exchange SenderInput Response Nat) (reply : Bytes)
    (he : before ++ [e] <+: (runRpcThreads xml cfg.readTimeout turns).ended)
    (hs : Along (RpcCall.step cfg xml) (RpcCall.Settles cfg xml) {} (before.map rpcCall))
    (hrpc : find eom e.call.rpc = none) (hreply : e.result = .ok reply) :
    OwnAnswer sv (runCalls cfg xml (before.map rpcCall)) e.call.rpc reply := by
  have hsound := sound_runRpcThreads xml cfg.readTimeout turns
  obtain ⟨hfront, hcomes⟩ := hsound.comes he
  have hdelivered := delivers_of_threads hdel he
  rw [List.map_append, List.map_singleton] at hdelivered
  obtain ⟨hdelcalls, hdelcall⟩ := Run.along_concat.1 hdelivered
  have hch : runCalls cfg xml (before.map rpcCall) = (serial (sender xml cfg.readTimeout) {} before).free :=
    runCalls_serial cfg hfront
  have hheld : (runCalls cfg xml (before.map rpcCall)).held = false := by rw [hch]; rfl
  have hreturn : ((rpcCall e).on cfg xml (runCalls cfg xml (before.map rpcCall))).outcome = some (.ok reply) := by
    rw [hch, (rpcCall_step hcomes).1, hreply]
  have hsettled := (runCalls_settled hs hdelcalls).resolve_left (by simp [hheld])
  exact (ownAnswer_iff hdelcall hreturn).2 ⟨hsettled, hrpc⟩

theorem threads_replies_paired_two : OwnAnswer twoAnswers
    (runCalls defaultClient rejectsAll [getExchange.call (getInputs "<a/>]]>")]) (ascii "<get/>")
    (ascii "<b/>]]>]]>") := by
  have hdel : ∀ front ∈ twoThreads.inits, (runRpcThreads rejectsAll defaultClient.readTimeout front).shared.taken <+:
      twoAnswers.stream (requests (runRpcThreads rejectsAll defaultClient.readTimeout front).shared.wire).length := by
    decide +kernel
  exact threads_replies_paired defaultClient rejectsAll twoAnswers twoThreads
    (fun front hfront => hdel front (List.mem_inits front twoThreads |>.2 hfront))
    [⟨0, 0, getExchange, getInputs "<a/>]]>", .ok (ascii "<a/>]]>]]>")⟩]
    ⟨1, 1, getExchange, getInputs "<b/>]]>", .ok (ascii "<b/>]]>]]>")⟩ (ascii "<b/>]]>]]>")
    ⟨[], twoThreads_ended.symm⟩ (Run.along_cons.2 ⟨Or.inr ⟨by decide +kernel, Or.inr (by decide +kernel)⟩, Run.along_nil⟩)
    (by decide +kernel) rfl

end PyNetX
