import PyNetX.Lib.Mutex
import PyNetX.Lib.Run
import Mathlib.Logic.Function.Basic
/-!
# SessionMode — asynchronous and synchronous calls on one client

Every call runs on a thread of the pool.  All but the connects and the subscriptions look at `is_connected_` and
`is_blocking_` first, and then take `session_mutex_`; the connects and the disconnect change the two flags while they
hold it.  A turn is a read or a write of one flag, or a step of the section.
-/
namespace PyNetX

open Run (run Along)

inductive Mode where
  | nonBlocking | blocking
  deriving DecidableEq

def Mode.isBlocking : Mode → Bool
  | .nonBlocking => false
  | .blocking => true

/-- The calls of `netconf_client_async.cpp` and `netconf_client_sync.cpp` on the session of the RPCs, and the two that
subscribe. -/
inductive SessionCall where
  | connectAsync | disconnectAsync | sendRpcAsync | getAsync | getConfigAsync | copyConfigAsync | deleteConfigAsync
  | validateAsync | editConfigAsync | subscribeAsync | lockAsync | unlockAsync | commitAsync | lockedEditConfigAsync
  | connectSync | disconnectSync | sendRpcSync | receiveNotificationSync | getSync | getConfigSync | copyConfigSync
  | deleteConfigSync | validateSync | editConfigSync | subscribeSync | lockSync | unlockSync | commitSync
  | lockedEditConfigSync
  deriving DecidableEq

inductive SectionBody where
  | connect | disconnect | rpc | subscribe
  deriving DecidableEq

def SessionCall.mode : SessionCall → Mode
  | .connectAsync | .disconnectAsync | .sendRpcAsync | .getAsync | .getConfigAsync | .copyConfigAsync
  | .deleteConfigAsync | .validateAsync | .editConfigAsync | .subscribeAsync | .lockAsync | .unlockAsync | .commitAsync
  | .lockedEditConfigAsync => .nonBlocking
  | .connectSync | .disconnectSync | .sendRpcSync | .receiveNotificationSync | .getSync | .getConfigSync
  | .copyConfigSync | .deleteConfigSync | .validateSync | .editConfigSync | .subscribeSync | .lockSync | .unlockSync
  | .commitSync | .lockedEditConfigSync => .blocking

def SessionCall.body : SessionCall → SectionBody
  | .connectAsync | .connectSync => .connect
  | .disconnectAsync | .disconnectSync => .disconnect
  | .subscribeAsync | .subscribeSync => .subscribe
  | _ => .rpc

structure SessionFlags where
  isConnected : Bool := false
  isBlocking : Bool := false
  deriving DecidableEq

/-- What the first check throws. -/
def Mode.notConnected : Mode → String
  | .nonBlocking => "Client already not connected"
  | .blocking => "Client should be connected first"

def Mode.otherMode : Mode → String
  | .nonBlocking => "Client is connected synchronously, call synchronous methods"
  | .blocking => "Client is connected asynchronously, call asynchronous methods"

/-- The first of the two writes of the flags, by `connect_non_blocking`, `connect_blocking` or `disconnect`. -/
def SessionCall.firstWrite (call : SessionCall) (flags : SessionFlags) : SessionFlags :=
  match call.body, call.mode with
  | .connect, .nonBlocking => { flags with isConnected := true }
  | .connect, .blocking => { flags with isBlocking := true }
  | _, _ => { flags with isBlocking := false }

def SessionCall.secondWrite (call : SessionCall) (flags : SessionFlags) : SessionFlags :=
  match call.body, call.mode with
  | .connect, .nonBlocking => { flags with isBlocking := false }
  | .connect, .blocking => { flags with isConnected := true }
  | _, _ => { flags with isConnected := false }

inductive SessionPc where
  | idle
  /-- In front of the read of `is_connected_`. -/
  | checkConnected (call : SessionCall)
  /-- It was set; in front of the read of `is_blocking_`. -/
  | checkBlocking (call : SessionCall)
  /-- In front of `session_mutex_`. -/
  | lock (call : SessionCall)
  /-- The section runs: the RPC, the subscription, the check of a connect, or the closing of the handles. -/
  | running (call : SessionCall)
  /-- A connect makes its session. -/
  | handshake (call : SessionCall)
  | firstWrite (call : SessionCall)
  | secondWrite (call : SessionCall)
  deriving DecidableEq

def SessionPc.Inside : SessionPc → Prop
  | .running _ | .handshake _ | .firstWrite _ | .secondWrite _ => True
  | _ => False

/-- The flags, the mode of the session that the handles are of, who holds `session_mutex_`, where each thread is, and
what its last call came to. -/
structure SessionState where
  flags : SessionFlags := {}
  session : Option Mode := none
  holder : Option Nat := none
  pcs : Nat → SessionPc := fun _ => .idle
  ended : Nat → Except String Unit := fun _ => .ok ()

/-- A thread takes a call, or goes on; `went` is what the RPC, the subscription or the connection comes to. -/
inductive SessionTurn where
  | call (u : Nat) (call : SessionCall)
  | go (u : Nat) (went : Except String Unit)

namespace SessionState

def goto (s : SessionState) (u : Nat) (pc : SessionPc) : SessionState :=
  { s with pcs := Function.update s.pcs u pc }

def finish (s : SessionState) (u : Nat) (went : Except String Unit) : SessionState :=
  { s.goto u .idle with ended := Function.update s.ended u went }

def leave (s : SessionState) (u : Nat) (went : Except String Unit) : SessionState :=
  { s.finish u went with holder := none }

def goStep (s : SessionState) (u : Nat) (went : Except String Unit) : SessionState :=
  match s.pcs u with
  | .idle => s
  | .checkConnected call =>
    if s.flags.isConnected then s.goto u (.checkBlocking call) else s.finish u (.error call.mode.notConnected)
  | .checkBlocking call =>
    if s.flags.isBlocking = call.mode.isBlocking then s.goto u (.lock call) else s.finish u (.error call.mode.otherMode)
  | .lock call =>
    match s.holder with
    | none => { s.goto u (.running call) with holder := some u }
    | some _ => s
  | .running call =>
    match call.body with
    | .rpc | .subscribe => s.leave u went
    | .connect =>
      if s.flags.isConnected then s.leave u (.error "Session already exists, possible double connection attempt")
      else s.goto u (.handshake call)
    | .disconnect => { s.goto u (.firstWrite call) with session := none }
  | .handshake call =>
    match went with
    | .ok () => { s.goto u (.firstWrite call) with session := some call.mode }
    | .error what => s.leave u (.error ("Unable to connect to device: " ++ what))
  | .firstWrite call => { s.goto u (.secondWrite call) with flags := call.firstWrite s.flags }
  | .secondWrite call => { s.leave u (.ok ()) with flags := call.secondWrite s.flags }

def step (s : SessionState) : SessionTurn → SessionState
  | .call u call =>
    if s.pcs u = .idle then
      s.goto u (if call.body = .connect ∨ call.body = .subscribe then .lock call else .checkConnected call)
    else s
  | .go u went => s.goStep u went

end SessionState

def runSession (turns : List SessionTurn) : SessionState := Run.run SessionState.step {} turns

namespace SessionState

/-- Whenever an RPC runs in its section, the client is connected in its mode: by the flags, and by the session. -/
def RunsInMode (s : SessionState) : Prop :=
  ∀ u call, s.pcs u = .running call → call.body = .rpc →
    s.flags = ⟨true, call.mode.isBlocking⟩ ∧ s.session = some call.mode

/-- No call of an RPC has read `is_connected_` and not yet taken `session_mutex_`. -/
def NoneChecked (s : SessionState) : Prop :=
  ∀ u call, call.body = .rpc → s.pcs u ≠ .checkBlocking call ∧ s.pcs u ≠ .lock call

/-- A write that changes a flag does not fall between an RPC's check and its section. -/
def WritesApart (s : SessionState) : SessionTurn → Prop
  | .call _ _ => True
  | .go u _ => ∀ call, (s.pcs u = .firstWrite call ∧ call.firstWrite s.flags ≠ s.flags ∨
      s.pcs u = .secondWrite call ∧ call.secondWrite s.flags ≠ s.flags) → s.NoneChecked

/-- Flags and session agree: not connected, or connected in the session's mode. -/
def Settled (flags : SessionFlags) (session : Option Mode) : Prop :=
  flags = {} ∧ session = none ∨ ∃ mode, flags = ⟨true, mode.isBlocking⟩ ∧ session = some mode

/-- What the holder of `session_mutex_` knows of flags and session where it is; at `idle`, what holds when nobody has
it. -/
def Knows (flags : SessionFlags) (session : Option Mode) : SessionPc → Prop
  | .running call => Settled flags session ∧ (call.body = .rpc → flags = ⟨true, call.mode.isBlocking⟩)
  | .handshake call => call.body = .connect ∧ flags = {} ∧ session = none
  | .firstWrite call =>
    call.body = .connect ∧ flags = {} ∧ session = some call.mode ∨ call.body = .disconnect ∧ session = none
  | .secondWrite call =>
    call.body = .connect ∧ flags = call.firstWrite {} ∧ session = some call.mode ∨
      call.body = .disconnect ∧ flags.isBlocking = false ∧ session = none
  | _ => Settled flags session

def holderPc (s : SessionState) : SessionPc :=
  match s.holder with
  | none => .idle
  | some u => s.pcs u

/-- **The invariant**: the lock tells who is inside; flags and session are as its holder knows them; and as long as no
flag changes under an RPC that has been checked, they are as it read them. -/
structure Sound (s : SessionState) : Prop where
  guards : Mutex.Guards s.holder (fun u => (s.pcs u).Inside)
  knows : Knows s.flags s.session s.holderPc
  connected : ∀ u call, s.pcs u = .checkBlocking call → call.body = .rpc → s.flags.isConnected = true
  checked : ∀ u call, s.pcs u = .lock call → call.body = .rpc → s.flags = ⟨true, call.mode.isBlocking⟩

variable {s : SessionState} {u : Nat}

theorem Sound.runsInMode (h : s.Sound) : s.RunsInMode := by
  intro u call hpc hrpc
  have hholder : s.holder = some u := h.guards.holder (by rw [hpc]; trivial)
  have hknows := h.knows
  rw [holderPc, hholder] at hknows
  simp only [hpc, Knows] at hknows
  obtain ⟨hsettled, hflags⟩ := hknows
  refine ⟨hflags hrpc, ?_⟩
  rcases hsettled with ⟨hempty, _⟩ | ⟨mode, hmode, hsession⟩
  · rw [hflags hrpc] at hempty
    cases hempty
  · rw [hflags hrpc] at hmode
    rw [hsession]
    cases mode <;> cases hcall : call.mode <;> rw [hcall] at hmode <;> first | rfl | cases hmode

/-! ## One thread moves -/

theorem pcs_goto (s : SessionState) (u v : Nat) (pc : SessionPc) :
    (s.goto u pc).pcs v = if v = u then pc else s.pcs v :=
  Function.update_apply s.pcs u pc v

theorem inside_goto_other {v : Nat} {pc : SessionPc} (hv : v ≠ u) : ((s.goto u pc).pcs v).Inside ↔ (s.pcs v).Inside := by
  rw [pcs_goto, if_neg hv]

theorem Sound.outside (h : s.Sound) (pc : SessionPc) (hfrom : ¬ (s.pcs u).Inside) (hto : ¬ pc.Inside)
    (hconnected : ∀ call, pc = .checkBlocking call → call.body = .rpc → s.flags.isConnected = true)
    (hchecked : ∀ call, pc = .lock call → call.body = .rpc → s.flags = ⟨true, call.mode.isBlocking⟩)
    (ended : Nat → Except String Unit) : Sound { s.goto u pc with ended := ended } := by
  have hholder : s.holder ≠ some u := fun hu => hfrom ((h.guards u).2 hu)
  refine ⟨h.guards.congr (fun v => ?_), ?_, fun v call hpc hrpc => ?_, fun v call hpc hrpc => ?_⟩
  · by_cases hv : v = u
    · subst hv
      show ((s.goto v pc).pcs v).Inside ↔ _
      rw [pcs_goto, if_pos rfl]
      exact ⟨fun hin => absurd hin hto, fun hin => absurd hin hfrom⟩
    · exact inside_goto_other hv
  · have hsame : holderPc { s.goto u pc with ended := ended } = s.holderPc := by
      unfold holderPc
      cases hs : s.holder with
      | none => simp [goto, hs]
      | some v =>
        have hv : v ≠ u := fun hv => hholder (by rw [hs, hv])
        simp [goto, hs, Function.update_of_ne hv]
    rw [hsame]
    exact h.knows
  · rw [show (({ s.goto u pc with ended := ended } : SessionState).pcs v) = _ from pcs_goto s u v pc] at hpc
    split at hpc
    · exact hconnected call hpc hrpc
    · exact h.connected v call hpc hrpc
  · rw [show (({ s.goto u pc with ended := ended } : SessionState).pcs v) = _ from pcs_goto s u v pc] at hpc
    split at hpc
    · exact hchecked call hpc hrpc
    · exact h.checked v call hpc hrpc

/-- What the others have read stays true when the flags stay, or when no RPC has been checked. -/
theorem Sound.steady {pc : SessionPc} {flags : SessionFlags} (h : s.Sound) (hsteady : flags = s.flags ∨ s.NoneChecked)
    (hpc : ∀ call, pc ≠ .checkBlocking call ∧ pc ≠ .lock call) {v : Nat} {call : SessionCall} (hrpc : call.body = .rpc) :
    ((s.goto u pc).pcs v = .checkBlocking call → flags.isConnected = true) ∧
      ((s.goto u pc).pcs v = .lock call → flags = ⟨true, call.mode.isBlocking⟩) := by
  rw [pcs_goto]
  by_cases hv : v = u
  · rw [if_pos hv]
    exact ⟨fun hat => absurd hat (hpc call).1, fun hat => absurd hat (hpc call).2⟩
  · rw [if_neg hv]
    rcases hsteady with rfl | hnone
    · exact ⟨fun hat => h.connected v call hat hrpc, fun hat => h.checked v call hat hrpc⟩
    · exact ⟨fun hat => absurd hat (hnone v call hrpc).1, fun hat => absurd hat (hnone v call hrpc).2⟩

theorem not_check_of_inside {pc : SessionPc} (h : pc.Inside) (call : SessionCall) :
    pc ≠ .checkBlocking call ∧ pc ≠ .lock call :=
  ⟨fun he => by rw [he] at h; exact h, fun he => by rw [he] at h; exact h⟩

theorem Sound.inside {flags : SessionFlags} {session : Option Mode} (h : s.Sound) (pc : SessionPc)
    (hfrom : (s.pcs u).Inside) (hto : pc.Inside) (hknows : Knows flags session pc)
    (hsteady : flags = s.flags ∨ s.NoneChecked) :
    Sound { s.goto u pc with flags := flags, session := session } := by
  have hholder : s.holder = some u := h.guards.holder hfrom
  refine ⟨h.guards.congr (fun v => ?_), ?_, fun v call hpc hrpc => ?_, fun v call hpc hrpc => ?_⟩
  · by_cases hv : v = u
    · subst hv
      show ((s.goto v pc).pcs v).Inside ↔ _
      rw [pcs_goto, if_pos rfl]
      exact ⟨fun _ => hfrom, fun _ => hto⟩
    · exact inside_goto_other hv
  · have hat : holderPc { s.goto u pc with flags := flags, session := session } = pc := by
      simp [holderPc, goto, hholder]
    rw [hat]
    exact hknows
  · exact (h.steady hsteady (not_check_of_inside hto) hrpc).1 hpc
  · exact (h.steady hsteady (not_check_of_inside hto) hrpc).2 hpc

theorem Sound.leave {flags : SessionFlags} {session : Option Mode} (h : s.Sound) (hfrom : (s.pcs u).Inside)
    (hsettled : Settled flags session) (hsteady : flags = s.flags ∨ s.NoneChecked) (went : Except String Unit) :
    Sound { s.leave u went with flags := flags, session := session } := by
  have hholder : s.holder = some u := h.guards.holder hfrom
  have hidle : ∀ call, SessionPc.idle ≠ .checkBlocking call ∧ SessionPc.idle ≠ .lock call := fun call => ⟨nofun, nofun⟩
  refine ⟨?_, hsettled, fun v call hpc hrpc => ?_, fun v call hpc hrpc => ?_⟩
  · have hguards := h.guards
    rw [hholder] at hguards
    have hleft : Mutex.Guards none fun v => ((s.goto u .idle).pcs v).Inside := by
      refine hguards.leave ?_ (fun v hv => inside_goto_other hv)
      rw [pcs_goto, if_pos rfl]
      exact id
    exact hleft
  · exact (h.steady hsteady hidle hrpc).1 hpc
  · exact (h.steady hsteady hidle hrpc).2 hpc

/-- A thread takes the free lock; an RPC finds the flags as it read them. -/
theorem Sound.enter {call : SessionCall} (h : s.Sound) (hpc : s.pcs u = .lock call) (hfree : s.holder = none) :
    Sound { s.goto u (.running call) with holder := some u } := by
  have hto : ∀ call', SessionPc.running call ≠ .checkBlocking call' ∧ SessionPc.running call ≠ .lock call' :=
    fun call' => ⟨nofun, nofun⟩
  refine ⟨?_, ?_, fun v call' hat hrpc => ?_, fun v call' hat hrpc => ?_⟩
  · have hguards := h.guards
    rw [hfree] at hguards
    have hentered : Mutex.Guards (some u) fun v => ((s.goto u (.running call)).pcs v).Inside := by
      refine hguards.enter ?_ (fun v hv => inside_goto_other hv)
      rw [pcs_goto, if_pos rfl]
      trivial
    exact hentered
  · have hsettled : Settled s.flags s.session := by
      have hknows := h.knows
      rw [holderPc, hfree] at hknows
      exact hknows
    have hat : holderPc { s.goto u (.running call) with holder := some u } = .running call := by
      simp [holderPc, goto]
    rw [hat]
    exact ⟨hsettled, h.checked u call hpc⟩
  · exact (h.steady (Or.inl rfl) hto hrpc).1 hat
  · exact (h.steady (Or.inl rfl) hto hrpc).2 hat

theorem Sound.known {pc : SessionPc} (h : s.Sound) (hpc : s.pcs u = pc) (hin : pc.Inside) :
    (s.pcs u).Inside ∧ Knows s.flags s.session pc := by
  subst hpc
  have hknows := h.knows
  rw [holderPc, h.guards.holder hin] at hknows
  exact ⟨hin, hknows⟩

/-! ## The step and the run -/

theorem Sound.goStep {went : Except String Unit} (h : s.Sound) (happart : s.WritesApart (.go u went)) :
    (s.goStep u went).Sound := by
  unfold SessionState.goStep
  cases hpc : s.pcs u with
  | idle => exact h
  | checkConnected call =>
    have hfrom : ¬ (s.pcs u).Inside := by rw [hpc]; exact id
    simp only
    split
    · rename_i hconnected
      exact h.outside (.checkBlocking call) hfrom id (fun _ _ _ => hconnected) nofun s.ended
    · exact h.outside .idle hfrom id nofun nofun _
  | checkBlocking call =>
    have hfrom : ¬ (s.pcs u).Inside := by rw [hpc]; exact id
    simp only
    split
    · rename_i hblocking
      refine h.outside (.lock call) hfrom id nofun (fun call' hat hrpc => ?_) s.ended
      cases hat
      rw [← hblocking, ← h.connected u call hpc hrpc]
    · exact h.outside .idle hfrom id nofun nofun _
  | lock call =>
    simp only
    cases hholder : s.holder with
    | none => exact h.enter hpc hholder
    | some v => exact h
  | running call =>
    obtain ⟨hfrom, hknows⟩ := h.known hpc trivial
    cases hbody : call.body with
    | rpc | subscribe =>
      simp only [hbody]
      exact h.leave hfrom hknows.1 (Or.inl rfl) went
    | connect =>
      simp only [hbody]
      split
      · exact h.leave hfrom hknows.1 (Or.inl rfl) _
      · rename_i hconnected
        refine h.inside (.handshake call) hfrom trivial ⟨hbody, ?_⟩ (Or.inl rfl)
        rcases hknows.1 with hempty | ⟨mode, hmode, _⟩
        · exact hempty
        · rw [hmode] at hconnected
          exact absurd rfl hconnected
    | disconnect =>
      simp only [hbody]
      exact h.inside (.firstWrite call) hfrom trivial (Or.inr ⟨hbody, rfl⟩) (Or.inl rfl)
  | handshake call =>
    obtain ⟨hfrom, hbody, hflags, hsession⟩ := h.known hpc trivial
    cases went with
    | ok _ => exact h.inside (.firstWrite call) hfrom trivial (Or.inl ⟨hbody, hflags, rfl⟩) (Or.inl rfl)
    | error what => exact h.leave hfrom (Or.inl ⟨hflags, hsession⟩) (Or.inl rfl) _
  | firstWrite call =>
    obtain ⟨hfrom, hknows⟩ := h.known hpc trivial
    have hsteady : call.firstWrite s.flags = s.flags ∨ s.NoneChecked := by
      by_cases hsame : call.firstWrite s.flags = s.flags
      · exact Or.inl hsame
      · exact Or.inr (happart call (Or.inl ⟨hpc, hsame⟩))
    refine h.inside (.secondWrite call) hfrom trivial ?_ hsteady
    rcases hknows with ⟨hbody, hflags, hsession⟩ | ⟨hbody, hsession⟩
    · exact Or.inl ⟨hbody, by rw [hflags], hsession⟩
    · exact Or.inr ⟨hbody, by simp [SessionCall.firstWrite, hbody], hsession⟩
  | secondWrite call =>
    obtain ⟨hfrom, hknows⟩ := h.known hpc trivial
    have hsteady : call.secondWrite s.flags = s.flags ∨ s.NoneChecked := by
      by_cases hsame : call.secondWrite s.flags = s.flags
      · exact Or.inl hsame
      · exact Or.inr (happart call (Or.inr ⟨hpc, hsame⟩))
    refine h.leave hfrom ?_ hsteady (.ok ())
    rcases hknows with ⟨hbody, hflags, hsession⟩ | ⟨hbody, hblocking, hsession⟩
    · refine Or.inr ⟨call.mode, ?_, hsession⟩
      rw [hflags]
      cases hmode : call.mode <;> simp [SessionCall.secondWrite, SessionCall.firstWrite, hbody, hmode, Mode.isBlocking]
    · refine Or.inl ⟨?_, hsession⟩
      simp [SessionCall.secondWrite, hbody, hblocking]

/-- **A step keeps the invariant** when it does not change a flag under an RPC that has been checked. -/
theorem Sound.step {t : SessionTurn} (h : s.Sound) (happart : s.WritesApart t) : (s.step t).Sound := by
  cases t with
  | call u call =>
    simp only [SessionState.step]
    split
    · rename_i hidle
      have hfrom : ¬ (s.pcs u).Inside := by rw [hidle]; exact id
      split
      · rename_i hbody
        refine h.outside (.lock call) hfrom id nofun (fun call' hat hrpc => ?_) s.ended
        cases hat
        rcases hbody with hbody | hbody <;> rw [hbody] at hrpc <;> cases hrpc
      · exact h.outside (.checkConnected call) hfrom id nofun nofun s.ended
    · exact h
  | go u went => exact h.goStep happart

theorem sound_start : Sound {} where
  guards := fun _ => ⟨False.elim, nofun⟩
  knows := Or.inl ⟨rfl, rfl⟩
  connected := nofun
  checked := nofun

/-- **In every run whose writes of the flags do not fall between an RPC's check and its section, an RPC runs only on a
session of its own mode.** -/
theorem runsInMode_of_writesApart {turns : List SessionTurn} (h : Along SessionState.step WritesApart {} turns) :
    (runSession turns).RunsInMode :=
  (Run.along_invariant (I := Sound) (fun _ _ h => h.step) sound_start turns h).runsInMode

/-- Thread `u` takes a call and goes on with it `n` times. -/
def calling (u : Nat) (call : SessionCall) (n : Nat) : List SessionTurn :=
  .call u call :: List.replicate n (.go u (.ok ()))

/-- Thread 0 connects, and thread 1 is in the section of an RPC. -/
def connectsFirst : List SessionTurn := calling 0 .connectAsync 5 ++ calling 1 .sendRpcAsync 3

theorem connectsFirst_runsInMode : (runSession connectsFirst).pcs 1 = .running .sendRpcAsync ∧
    (runSession connectsFirst).RunsInMode := by
  refine ⟨rfl, runsInMode_of_writesApart ?_⟩
  simp only [connectsFirst, calling, List.replicate, List.cons_append, List.nil_append, Run.along_cons]
  refine ⟨trivial, nofun, nofun, nofun, ?_, ?_, trivial, nofun, nofun, nofun, Run.along_nil⟩
  -- the two writes: nobody but thread 0 has a call
  all_goals
    rintro _ _ (_ | v) call _
    · exact ⟨nofun, nofun⟩
    · exact ⟨nofun, nofun⟩

/-- **An RPC that takes `session_mutex_` after the flags have changed** runs on whatever session is there. -/
theorem not_runsInMode_of_changed {call : SessionCall} {went : Except String Unit} (hpc : s.pcs u = .lock call)
    (hrpc : call.body = .rpc) (hfree : s.holder = none) (hflags : s.flags ≠ ⟨true, call.mode.isBlocking⟩) :
    ¬ (s.goStep u went).RunsInMode := by
  intro h
  have hstep : s.goStep u went = { s.goto u (.running call) with holder := some u } := by
    simp only [SessionState.goStep, hpc, hfree]
  rw [hstep] at h
  exact hflags (h u call (by simp [goto]) hrpc).1

/-- A connection, an RPC that has been checked, and a disconnect and a connection in the other mode before it takes
`session_mutex_`. -/
def reconnectsMeanwhile : List SessionTurn :=
  calling 0 .connectAsync 5 ++ calling 1 .sendRpcAsync 2 ++ calling 0 .disconnectAsync 6 ++ calling 0 .connectSync 5 ++
    [.go 1 (.ok ())]

theorem reconnectsMeanwhile_not_runsInMode : (runSession reconnectsMeanwhile).pcs 1 = .running .sendRpcAsync ∧
    (runSession reconnectsMeanwhile).session = some .blocking ∧ ¬ (runSession reconnectsMeanwhile).RunsInMode := by
  have hpc : (runSession reconnectsMeanwhile).pcs 1 = .running .sendRpcAsync := rfl
  have hsession : (runSession reconnectsMeanwhile).session = some .blocking := rfl
  refine ⟨hpc, hsession, fun h => ?_⟩
  have hmode := (h 1 .sendRpcAsync hpc rfl).2
  rw [hsession] at hmode
  cases hmode

end SessionState

end PyNetX
