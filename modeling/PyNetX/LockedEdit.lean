import PyNetX.Lib.Throwing
import PyNetX.Rpc
import Mathlib.Data.List.Count
/-!
# LockedEdit — lock, edit, commit, unlock

`locked_edit_config` as a sequence of requests with exceptions, over every sequence of replies and failures.  What it
sends is decided by which replies pass `check_for_rpc_error` (`lockedEditConfig_sent`); that check sees the reply with
its marker, which tinyxml2 refuses (`checkForRpcError_marked`), so it passes replies that carry an error.
-/
namespace PyNetX

open Search (find)
open Throwing (exec exec_bind exec_tryCatch exec_tryCatch_bind exec_pure)

/-- The requests that `locked_edit_config` makes. -/
inductive Operation where
  | lock (target : Bytes)
  | unlock (target : Bytes)
  | commit
  | validate (source : Bytes)
  | editConfig (target config : Bytes)
  deriving DecidableEq

/-- The text a request is sent with. -/
def Operation.rpc : Operation → Bytes
  | .lock target => lockRpc target
  | .unlock target => unlockRpc target
  | .commit => commitRpc
  | .validate source => validateRpc source
  | .editConfig target config => editConfigRpc target config

/-- A function that sends requests and may throw; its state is what has been sent. -/
abbrev Rpcs (α : Type) := Throwing.Prog Bytes (List Operation) α

section

variable (xml : XmlParser) (respond : Nat → Operation → Response) (target config : Bytes) (doValidate : Bool)

/-- The sender, as the `n`-th of a sequence of calls: `respond n op` is what its transport comes to. -/
def sendRpc (op : Operation) : Rpcs Bytes := do
  let sent ← get
  set (sent ++ [op])
  ExceptT.mk (pure (answered xml (respond sent.length op)))

/-- `edit_config_non_blocking`, `edit_config_blocking`. -/
def editConfig : Rpcs Bytes := do
  let reply ← sendRpc xml respond (.editConfig target config)
  if doValidate then do
    let _ ← sendRpc xml respond (.validate target)
    return reply
  else return reply

/-- The `catch` of `locked_edit_config`: it unlocks whatever has happened, and ignores how that ends. -/
def unlockAndRethrow (err : Bytes) : Rpcs Bytes := do
  tryCatch (do let _ ← sendRpc xml respond (.unlock target)) (fun _ => pure ())
  throw (ascii "Unable to complete operation: " ++ err)

/-- `locked_edit_config_non_blocking` and `locked_edit_config_blocking`, whose senders alone differ. -/
def lockedEditConfig : Rpcs Bytes :=
  tryCatch (do
    let _ ← sendRpc xml respond (.lock target)
    let reply ← editConfig xml respond target config doValidate
    let _ ← sendRpc xml respond .commit
    let _ ← sendRpc xml respond (.unlock target)
    return reply)
    (unlockAndRethrow xml respond target)

/-- Scripts, one for each call in turn, under which a sender's transport ends whatever the request. -/
structure EndedCalls (transport : Bytes → RpcScript → Outcome Bytes) where
  script : Nat → RpcScript
  ended : ∀ n (op : Operation), (transport op.rpc (script n)).isSome = true

/-- What the transport comes to in each call. -/
def EndedCalls.response {transport : Bytes → RpcScript → Outcome Bytes} (calls : EndedCalls transport) (n : Nat)
    (op : Operation) : Response :=
  (transport op.rpc (calls.script n)).get (calls.ended n op)

def lockedEditConfigNonBlocking (h : Handles) (readTimeout : Int) (calls : EndedCalls (fun rpc s =>
    transported h (nonBlockingWrite rpc s) (nonBlockingRead h readTimeout s))) : Rpcs Bytes :=
  lockedEditConfig xml calls.response target config doValidate

def lockedEditConfigBlocking (h : Handles) (readTimeout : Int) (calls : EndedCalls (fun rpc s =>
    transported h (blockingWrite rpc s) (blockingRead h readTimeout s))) : Rpcs Bytes :=
  lockedEditConfig xml calls.response target config doValidate

/-- What it sends, in order. -/
def lockedEditSent : List Operation := (exec (lockedEditConfig xml respond target config doValidate) []).2

/-- The reply arrived and passed the check. -/
def Passes (n : Nat) (op : Operation) : Prop := (answered xml (respond n op)).isOk = true

instance (n : Nat) (op : Operation) : Decidable (Passes xml respond n op) := inferInstanceAs (Decidable (_ = true))

theorem exec_sendRpc (op : Operation) (sent : List Operation) :
    exec (sendRpc xml respond op) sent = (answered xml (respond sent.length op), sent ++ [op]) := rfl

/-- **The handler sends one unlock**, however that one ends. -/
theorem exec_unlockAndRethrow (err : Bytes) (sent : List Operation) :
    (exec (unlockAndRethrow xml respond target err) sent).2 = sent ++ [.unlock target] := by
  unfold unlockAndRethrow
  simp only [exec_bind, exec_tryCatch, exec_sendRpc]
  cases answered xml (respond sent.length (.unlock target)) <;> rfl

/-- What `locked_edit_config` sends in front of its commit, when every reply passes. -/
def editOps : List Operation :=
  [.lock target, .editConfig target config] ++ if doValidate then [.validate target] else []

/-- Every reply in front of the commit arrived and passed the check. -/
def EditPasses : Prop :=
  Passes xml respond 0 (.lock target) ∧ Passes xml respond 1 (.editConfig target config) ∧
    (doValidate = true → Passes xml respond 2 (.validate target))

variable {xml respond target config doValidate}

theorem passes_of_ok {n : Nat} {op : Operation} {reply : Bytes} (h : answered xml (respond n op) = .ok reply) :
    Passes xml respond n op := by rw [Passes, h]; rfl

theorem not_passes_of_error {n : Nat} {op : Operation} {e : Bytes} (h : answered xml (respond n op) = .error e) :
    ¬ Passes xml respond n op := by rw [Passes, h]; exact nofun

variable (xml respond target config doValidate)

theorem exec_send_ok (sent : List Operation) {op : Operation} {reply : Bytes} {α : Type}
    (h : answered xml (respond sent.length op) = .ok reply) (f : Bytes → Rpcs α) (catch_ : Bytes → Rpcs α) :
    exec (tryCatch (sendRpc xml respond op >>= f) catch_) sent = exec (tryCatch (f reply) catch_) (sent ++ [op]) := by
  rw [exec_tryCatch_bind, exec_sendRpc, h]

theorem exec_send_error (sent : List Operation) {op : Operation} {e : Bytes} {α : Type}
    (h : answered xml (respond sent.length op) = .error e) (f : Bytes → Rpcs α) (catch_ : Bytes → Rpcs α) :
    exec (tryCatch (sendRpc xml respond op >>= f) catch_) sent = exec (catch_ e) (sent ++ [op]) := by
  rw [exec_tryCatch_bind, exec_sendRpc, h]

/-- **The commit and what follows it**: a failing reply to the last unlock unlocks again. -/
theorem exec_commit_unlock (reply : Bytes) (sent : List Operation) :
    (exec (tryCatch (do
      let _ ← sendRpc xml respond .commit
      let _ ← sendRpc xml respond (.unlock target)
      return reply) (unlockAndRethrow xml respond target)) sent).2 =
      sent ++ .commit :: .unlock target ::
        if Passes xml respond sent.length .commit ∧ ¬ Passes xml respond (sent.length + 1) (.unlock target)
        then [.unlock target] else [] := by
  have hlength : (sent ++ [Operation.commit]).length = sent.length + 1 := by simp
  cases hcommit : answered xml (respond sent.length .commit) with
  | error e =>
    rw [exec_send_error xml respond sent hcommit, exec_unlockAndRethrow, if_neg (fun h => not_passes_of_error hcommit h.1)]
    simp
  | ok r =>
    rw [exec_send_ok xml respond sent hcommit]
    cases hunlock : answered xml (respond (sent.length + 1) (.unlock target)) with
    | error e =>
      rw [exec_send_error xml respond _ (hlength ▸ hunlock), exec_unlockAndRethrow,
        if_pos ⟨passes_of_ok hcommit, not_passes_of_error hunlock⟩]
      simp
    | ok r =>
      rw [exec_send_ok xml respond _ (hlength ▸ hunlock), exec_tryCatch, exec_pure,
        if_neg (fun h => h.2 (passes_of_ok hunlock))]
      simp

/-- **What it sends** is decided by which replies pass. -/
theorem lockedEditConfig_sent :
    (¬ EditPasses xml respond target config doValidate ∧ ∃ front, front <+: editOps target config doValidate ∧
      lockedEditSent xml respond target config doValidate = front ++ [.unlock target]) ∨
    EditPasses xml respond target config doValidate ∧ lockedEditSent xml respond target config doValidate =
      editOps target config doValidate ++ .commit :: .unlock target ::
        if Passes xml respond (editOps target config doValidate).length .commit ∧
          ¬ Passes xml respond ((editOps target config doValidate).length + 1) (.unlock target)
        then [.unlock target] else [] := by
  unfold lockedEditSent lockedEditConfig editConfig
  cases hlock : answered xml (respond 0 (.lock target)) with
  | error e =>
    rw [exec_send_error xml respond [] hlock, exec_unlockAndRethrow]
    exact Or.inl ⟨fun h => not_passes_of_error hlock h.1, [.lock target], ⟨_, rfl⟩, rfl⟩
  | ok r =>
    rw [exec_send_ok xml respond [] hlock, bind_assoc, List.nil_append]
    cases hedit : answered xml (respond 1 (.editConfig target config)) with
    | error e =>
      rw [exec_send_error xml respond [.lock target] hedit, exec_unlockAndRethrow]
      exact Or.inl ⟨fun h => not_passes_of_error hedit h.2.1, [.lock target, .editConfig target config], ⟨_, rfl⟩, rfl⟩
    | ok reply =>
      rw [exec_send_ok xml respond [.lock target] hedit, List.singleton_append]
      cases doValidate with
      | false =>
        refine Or.inr ⟨⟨passes_of_ok hlock, passes_of_ok hedit, nofun⟩, ?_⟩
        exact exec_commit_unlock xml respond target reply [.lock target, .editConfig target config]
      | true =>
        cases hvalidate : answered xml (respond 2 (.validate target)) with
        | error e =>
          refine Or.inl ⟨fun h => not_passes_of_error hvalidate (h.2.2 rfl), editOps target config true, ⟨[], rfl⟩, ?_⟩
          simp only [if_true, bind_assoc, pure_bind]
          rw [exec_send_error xml respond [.lock target, .editConfig target config] hvalidate, exec_unlockAndRethrow]
          rfl
        | ok v =>
          refine Or.inr ⟨⟨passes_of_ok hlock, passes_of_ok hedit, fun _ => passes_of_ok hvalidate⟩, ?_⟩
          simp only [if_true, bind_assoc, pure_bind]
          rw [exec_send_ok xml respond [.lock target, .editConfig target config] hvalidate]
          exact exec_commit_unlock xml respond target reply (editOps target config true)

/-! ## What it should send -/

/-- The text of a reply, in front of its marker. -/
def replyText (reply : Bytes) : Bytes := reply.take ((find eom reply).getD reply.length)

/-- The reply arrived, and is not an `<rpc-reply>` with an `<rpc-error>` in it. -/
def accepted (r : Response) : Bool :=
  match r with
  | .ok reply => ((xml (cStr (replyText reply))).bind rpcErrorOf).isNone
  | .error _ => false

/-- The commit is sent only behind accepted replies, and the unlock only behind a granted lock, and then once. -/
def SentSafely (sent : List Operation) : Prop :=
  (.commit ∈ sent → accepted xml (respond 0 (.lock target)) ∧ accepted xml (respond 1 (.editConfig target config)) ∧
    (doValidate = true → accepted xml (respond 2 (.validate target)))) ∧
  (.unlock target ∈ sent → accepted xml (respond 0 (.lock target))) ∧
  (accepted xml (respond 0 (.lock target)) → sent.count (.unlock target) = 1)

theorem count_unlock_editOps : (editOps target config doValidate).count (.unlock target) = 0 := by
  cases doValidate <;> simp [editOps]

theorem commit_not_mem_editOps : .commit ∉ editOps target config doValidate := by
  cases doValidate <;> simp [editOps]

/-- **The commit and the unlock are sent as they should be exactly when** the lock was granted, and, should every reply
in front of the commit pass the check, those to the edit and the validation carry no error and the last unlock does not
fail behind a commit that passed. -/
theorem locked_edit_safe_iff : SentSafely xml respond target config doValidate
      (lockedEditSent xml respond target config doValidate) ↔
    accepted xml (respond 0 (.lock target)) = true ∧
    (EditPasses xml respond target config doValidate →
      accepted xml (respond 1 (.editConfig target config)) = true ∧
      (doValidate = true → accepted xml (respond 2 (.validate target)) = true) ∧
      (Passes xml respond (editOps target config doValidate).length .commit →
        Passes xml respond ((editOps target config doValidate).length + 1) (.unlock target))) := by
  have hedit := count_unlock_editOps target config doValidate
  obtain ⟨hfails, front, hfront, hsent⟩ | ⟨hpasses, hsent⟩ := lockedEditConfig_sent xml respond target config doValidate
  · -- the handler ran: no commit, one unlock
    rw [hsent]
    have hcommit : .commit ∉ front ++ [.unlock target] := by
      have := fun h => commit_not_mem_editOps target config doValidate (hfront.subset h)
      simpa using this
    have hcount : (front ++ [Operation.unlock target]).count (.unlock target) = 1 := by
      have hzero : front.count (.unlock target) = 0 := Nat.le_zero.1 (hedit ▸ hfront.sublist.count_le _)
      rw [List.count_append, hzero, List.count_singleton_self]
    exact ⟨fun h => ⟨h.2.1 (by simp), fun hp => absurd hp hfails⟩,
      fun h => ⟨fun hc => absurd hc hcommit, fun _ => h.1, fun _ => hcount⟩⟩
  · -- the commit was sent, and an unlock, once unless the reply to it failed
    rw [hsent]
    have hcount : ((editOps target config doValidate ++ Operation.commit :: .unlock target ::
        if Passes xml respond (editOps target config doValidate).length .commit ∧
          ¬ Passes xml respond ((editOps target config doValidate).length + 1) (.unlock target)
        then [.unlock target] else []).count (.unlock target) = 1) ↔
        (Passes xml respond (editOps target config doValidate).length .commit →
          Passes xml respond ((editOps target config doValidate).length + 1) (.unlock target)) := by
      rw [List.count_append, hedit, List.count_cons_of_ne (by simp), List.count_cons_self]
      split
      · rename_i hagain
        simp [hagain]
      · rename_i hagain
        simpa using hagain
    constructor
    · rintro ⟨hc, -, hu⟩
      obtain ⟨hlock, he, hv⟩ := hc (by simp)
      exact ⟨hlock, fun _ => ⟨he, hv, hcount.1 (hu hlock)⟩⟩
    · rintro ⟨hlock, h⟩
      obtain ⟨he, hv, hlast⟩ := h hpasses
      exact ⟨fun _ => ⟨hlock, he, hv⟩, fun _ => hlock, fun _ => hcount.2 hlast⟩

/-! ## A check that sees the marker -/

/-- Text behind the root element, with no `<` in it, is a parse error of tinyxml2. -/
def TrailingTextRejected : Prop := ∀ (doc text : Bytes) (nodes : List XmlNode), xml doc = some nodes →
  (firstChildElement nodes).isSome → ¬ Blank text → chLt ∉ text → xml (doc ++ text) = none

/-- **The check finds nothing in a reply that has its marker**, whatever the reply says. -/
theorem checkForRpcError_marked {xml : XmlParser} (hxml : TrailingTextRejected xml) {body : Bytes}
    {nodes : List XmlNode} (hbody : xml body = some nodes) (hroot : (firstChildElement nodes).isSome)
    (hnul : (0 : UInt8) ∉ body) : checkForRpcError xml (body ++ eom) = .ok () := by
  have hcstr : cStr (body ++ eom) = body ++ eom := by
    refine List.takeWhile_eq_self_iff.2 (fun c hc => ?_)
    rcases List.mem_append.1 hc with hb | he
    · exact bne_iff_ne.2 (fun h0 => hnul (h0 ▸ hb))
    · rcases mem_eom.1 he with rfl | rfl <;> rfl
  rw [checkForRpcError, hcstr, hxml body eom nodes hbody hroot (by decide) (by decide)]
  rfl

/-- **Every reply that has a root element is committed**, whatever the device says in it. -/
theorem commit_sent_of_marked {xml : XmlParser} (hxml : TrailingTextRejected xml)
    (hreplies : ∀ n op, ∃ body nodes, respond n op = .ok (body ++ eom) ∧ xml body = some nodes ∧
      (firstChildElement nodes).isSome ∧ (0 : UInt8) ∉ body) :
    .commit ∈ lockedEditSent xml respond target config doValidate := by
  have hpass : ∀ n op, Passes xml respond n op := by
    intro n op
    obtain ⟨body, nodes, hr, hbody, hroot, hnul⟩ := hreplies n op
    refine @passes_of_ok xml respond n op (body ++ eom) ?_
    rw [answered, hr, Except.bind, checked, checkForRpcError_marked hxml hbody hroot hnul]
    rfl
  obtain ⟨hfails, -⟩ | ⟨-, hsent⟩ := lockedEditConfig_sent xml respond target config doValidate
  · exact absurd ⟨hpass _ _, hpass _ _, fun _ => hpass _ _⟩ hfails
  · rw [hsent]
    simp

def okReply : Bytes := ascii "<rpc-reply><ok/></rpc-reply>"

def errorReply : Bytes := ascii "<rpc-reply><rpc-error/></rpc-reply>"

/-- tinyxml2 on the two replies. -/
def replyParser : XmlParser := fun s =>
  if s = okReply then some [.element (ascii "rpc-reply") [.element (ascii "ok") []]]
  else if s = errorReply then some [.element (ascii "rpc-reply") [.element (ascii "rpc-error") []]]
  else none

/-- A device that grants the lock, refuses the edit and takes the rest. -/
def editRefused : Nat → Operation → Response
  | _, .editConfig _ _ => .ok (errorReply ++ eom)
  | _, _ => .ok (okReply ++ eom)

theorem replyParser_trailing : TrailingTextRejected replyParser := by
  intro doc text nodes hdoc _ hblank _
  have hne : text ≠ [] := by
    rintro rfl
    exact hblank (fun c hc => by cases hc)
  -- neither reply begins the other
  have hdoc' : doc = okReply ∨ doc = errorReply := by
    unfold replyParser at hdoc
    split at hdoc
    · exact Or.inl ‹_›
    split at hdoc
    · exact Or.inr ‹_›
    · cases hdoc
  have hnot : ∀ whole, whole = okReply ∨ whole = errorReply → doc ++ text ≠ whole := by
    rintro whole hwhole rfl
    have hpre : doc <+: doc ++ text := List.prefix_append doc text
    rcases hdoc' with rfl | rfl <;> rcases hwhole with h | h
    · exact hne (List.append_right_eq_self.1 h)
    · exact absurd (h ▸ hpre) (by decide)
    · exact absurd (h ▸ hpre) (by decide)
    · exact hne (List.append_right_eq_self.1 h)
  rw [replyParser, if_neg (hnot _ (Or.inl rfl)), if_neg (hnot _ (Or.inr rfl))]

/-- **A refused edit is committed.** -/
theorem locked_edit_not_safe : TrailingTextRejected replyParser ∧
    ¬ SentSafely replyParser editRefused (ascii "candidate") (ascii "<a/>") false
      (lockedEditSent replyParser editRefused (ascii "candidate") (ascii "<a/>") false) := by
  refine ⟨replyParser_trailing, fun h => ?_⟩
  obtain ⟨-, hedit, -⟩ := h.1 (by decide)
  revert hedit
  decide

end

end PyNetX
