import Mathlib.Data.List.Nodup
import Mathlib.Data.List.Perm.Basic
import PyNetX.Handles
/-!
# HandleRelease — every handle is passed to its free function once

Whatever the order of the releases, the `unique_ptr`s keep the books: what libssh2 has given out was passed to its free
function, or is in one of the four slots, or in the hand of the call that opened it, and in one place only (`Ledger`).
The run keeps this with no condition on its turns, and a destroyed client holds nothing.
-/
namespace PyNetX

namespace Libssh2

/-- The handle with a number. -/
def handle (ssh : Libssh2) (n : Nat) : Handle := if (ssh.openedOn n).isSome then .channel n else .session n

/-- All that was given out. -/
def handedOut (ssh : Libssh2) : List Handle := (List.range ssh.given).map ssh.handle

theorem handle_injective (ssh : Libssh2) : Function.Injective ssh.handle := by
  intro m n h
  unfold handle at h
  split at h <;> split at h <;> cases h <;> rfl

theorem handedOut_nodup (ssh : Libssh2) : ssh.handedOut.Nodup :=
  List.nodup_range.map (handle_injective ssh)

theorem handedOut_sessionInit {ssh : Libssh2} (h : ssh.openedOn ssh.given = none) :
    ssh.sessionInit.handedOut = ssh.handedOut ++ [.session ssh.given] := by
  have hnew : ssh.handle ssh.given = .session ssh.given := by rw [handle, h]; rfl
  rw [handedOut, sessionInit, List.range_succ, List.map_append, List.map_singleton]
  exact congrArg (ssh.handedOut ++ [·]) hnew

theorem handedOut_channelOpenSession (ssh : Libssh2) (k : Nat) :
    (ssh.channelOpenSession k).handedOut = ssh.handedOut ++ [.channel ssh.given] := by
  have hhandle : ∀ n, (ssh.channelOpenSession k).handle n = if n = ssh.given then .channel n else ssh.handle n := by
    intro n
    simp only [handle, channelOpenSession, Function.update_apply]
    split
    · rfl
    · rfl
  have hold : (List.range ssh.given).map (ssh.channelOpenSession k).handle = ssh.handedOut := by
    refine List.map_congr_left (fun n hn => ?_)
    rw [hhandle, if_neg (Nat.ne_of_lt (List.mem_range.1 hn))]
  rw [handedOut, show (ssh.channelOpenSession k).given = ssh.given + 1 from rfl, List.range_succ, List.map_append, hold,
    List.map_singleton, hhandle, if_pos rfl]

end Libssh2

def HandlePair.handles (p : HandlePair) : List Handle :=
  (p.session.map Handle.session).toList ++ (p.channel.map Handle.channel).toList

/-- The channel between `libssh2_channel_open_session` and its `reset`. -/
def HandlePc.inHand : HandlePc → List Handle
  | .store _ raw => [.channel raw]
  | _ => []

/-- The slots that `disconnect` has emptied on its way. -/
def HandlePc.Emptied (pairs : Side → HandlePair) : HandlePc → Prop
  | .disconnectSession _ => (pairs .rpc).channel = none
  | .disconnectNotification _ => pairs .rpc = {}
  | .disconnectFlags _ | .gone => ∀ side, pairs side = {}
  | _ => True

namespace HandleRun

/-- What the client holds. -/
def held (s : HandleRun) : List Handle :=
  (s.pairs .rpc).handles ++ ((s.pairs .notification).handles ++ s.call.inHand)

/-- **The books**: a handle that was given out was freed, or is held, and that once. -/
structure Ledger (s : HandleRun) : Prop where
  balanced : (s.ssh.freed ++ s.held).Perm s.ssh.handedOut
  fresh : ∀ n, s.ssh.given ≤ n → s.ssh.openedOn n = none

variable {s : HandleRun}

/-! ## What the setters do to the books -/

/-- How often a handle stands in the books. -/
def entries (s : HandleRun) (h : Handle) : Nat := s.ssh.freed.count h + s.held.count h

theorem entries_eq (s : HandleRun) (h : Handle) : s.entries h = s.ssh.freed.count h +
    ((s.pairs .rpc).handles.count h + ((s.pairs .notification).handles.count h + s.call.inHand.count h)) := by
  rw [entries, held, List.count_append, List.count_append]

theorem Ledger.of_entries (h : ∀ x, s.entries x = s.ssh.handedOut.count x)
    (hfresh : ∀ n, s.ssh.given ≤ n → s.ssh.openedOn n = none) : s.Ledger := by
  refine ⟨List.perm_iff_count.2 (fun x => ?_), hfresh⟩
  rw [List.count_append]
  exact h x

theorem Ledger.entries (h : s.Ledger) (x : Handle) : s.entries x = s.ssh.handedOut.count x := by
  rw [HandleRun.entries, ← List.count_append]
  exact h.balanced.count_eq x

theorem entries_goto (s : HandleRun) (pc : HandlePc) (h : Handle) :
    (s.goto pc).entries h + s.call.inHand.count h = s.entries h + pc.inHand.count h := by
  rw [entries_eq, entries_eq]
  simp only [goto]
  omega

/-- **A replaced session goes from its slot to what was freed**, and the new one into the books. -/
theorem entries_resetSession (s : HandleRun) (side : Side) (raw : Option Nat) (h : Handle) :
    (s.resetSession side raw).entries h = s.entries h + (raw.map Handle.session).toList.count h := by
  rw [entries_eq, entries_eq]
  cases side <;>
    simp only [resetSession, Libssh2.free, HandlePair.handles, Function.update_apply, List.count_append, if_pos, if_neg,
      reduceCtorEq, not_false_eq_true] <;>
    omega

/-- **A replaced channel goes from its slot to what was freed**, and the new one into the books. -/
theorem entries_resetChannel (s : HandleRun) (side : Side) (raw : Option Nat) (h : Handle) :
    (s.resetChannel side raw).entries h = s.entries h + (raw.map Handle.channel).toList.count h := by
  rw [entries_eq, entries_eq]
  cases side <;>
    simp only [resetChannel, Libssh2.free, HandlePair.handles, Function.update_apply, List.count_append, if_pos, if_neg,
      reduceCtorEq, not_false_eq_true] <;>
    omega

/-! ## Runs -/

theorem Ledger.goto (h : s.Ledger) {pc : HandlePc} (hold : s.call.inHand = []) (hnew : pc.inHand = []) :
    (s.goto pc).Ledger := by
  refine Ledger.of_entries (fun x => ?_) h.fresh
  have hgoto := entries_goto s pc x
  rw [hold, hnew] at hgoto
  exact (Nat.add_right_cancel hgoto).trans (h.entries x)

theorem Ledger.setConnected (h : s.Ledger) (side : Side) (b : Bool) : (s.setConnected side b).Ledger :=
  ⟨h.balanced, h.fresh⟩

theorem Ledger.closeSession (h : s.Ledger) (side : Side) : (s.resetSession side none).Ledger :=
  .of_entries (fun x => (entries_resetSession s side none x).trans (h.entries x)) h.fresh

theorem Ledger.closeChannel (h : s.Ledger) (side : Side) : (s.resetChannel side none).Ledger :=
  .of_entries (fun x => (entries_resetChannel s side none x).trans (h.entries x)) h.fresh

theorem Ledger.markNotificationDead (h : s.Ledger) : s.markNotificationDead.Ledger :=
  ((h.setConnected _ _).closeChannel _).closeSession _

/-- **A new session goes into its slot**, and is in the books. -/
theorem Ledger.init (h : s.Ledger) {f : Connect} (hcall : s.call = .init f) :
    ((HandleRun.resetSession { s with ssh := s.ssh.sessionInit } f.side (some s.ssh.given)).goto
      (.openChannel f)).Ledger := by
  have hstored : (HandleRun.resetSession { s with ssh := s.ssh.sessionInit } f.side (some s.ssh.given)).Ledger := by
    refine .of_entries (fun x => ?_) (fun n hn => h.fresh n (Nat.le_of_succ_le hn))
    rw [entries_resetSession]
    have hgiven : (HandleRun.resetSession { s with ssh := s.ssh.sessionInit } f.side (some s.ssh.given)).ssh.handedOut =
        s.ssh.handedOut ++ [.session s.ssh.given] := Libssh2.handedOut_sessionInit (h.fresh _ (Nat.le_refl _))
    rw [hgiven, List.count_append, ← h.entries x]
    rfl
  exact hstored.goto (by simp [HandleRun.resetSession, hcall, HandlePc.inHand]) rfl

/-- **A new channel is in the hand of the call**, and in the books. -/
theorem Ledger.openChannel (h : s.Ledger) {f : Connect} (k : Nat) (hcall : s.call = .openChannel f) :
    (HandleRun.goto { s with ssh := s.ssh.channelOpenSession k } (.store f s.ssh.given)).Ledger := by
  refine .of_entries (fun x => ?_) (fun n hn => ?_)
  · have hgoto := entries_goto { s with ssh := s.ssh.channelOpenSession k } (.store f s.ssh.given) x
    have hhand : s.call.inHand = [] := by rw [hcall]; rfl
    rw [hhand, List.count_nil, Nat.add_zero] at hgoto
    have hgiven : (HandleRun.goto { s with ssh := s.ssh.channelOpenSession k } (.store f s.ssh.given)).ssh.handedOut =
        s.ssh.handedOut ++ [.channel s.ssh.given] := Libssh2.handedOut_channelOpenSession s.ssh k
    rw [hgoto, hgiven, List.count_append, ← h.entries x]
    rfl
  · simp only [HandleRun.goto, Libssh2.channelOpenSession] at hn ⊢
    rw [Function.update_of_ne (by omega)]
    exact h.fresh n (by omega)

/-- **The channel in hand goes into its slot**, and what was there is freed. -/
theorem Ledger.store (h : s.Ledger) {f : Connect} {raw : Nat} (hcall : s.call = .store f raw) :
    ((s.resetChannel f.side (some raw)).goto (.finish f)).Ledger := by
  refine .of_entries (fun x => ?_) h.fresh
  have hgoto := entries_goto (s.resetChannel f.side (some raw)) (.finish f) x
  have hhand : (s.resetChannel f.side (some raw)).call.inHand = [.channel raw] := by
    rw [show (s.resetChannel f.side (some raw)).call = s.call from rfl, hcall]
    rfl
  rw [hhand, entries_resetChannel] at hgoto
  exact (Nat.add_right_cancel (m := [Handle.channel raw].count x) hgoto).trans (h.entries x)

theorem Ledger.callStep (h : s.Ledger) (ok : Bool) : (s.callStep ok).Ledger := by
  unfold HandleRun.callStep
  split
  · exact h
  · exact h
  · rename_i f hcall
    split
    · exact h.goto (by rw [hcall]; rfl) (by split <;> rfl)
    · exact h.goto (by rw [hcall]; rfl) rfl
  · rename_i f hcall
    split
    · exact h.init hcall
    · exact h.goto (by rw [hcall]; rfl) rfl
  · rename_i f hcall
    split
    · rename_i k _
      exact h.openChannel k hcall
    · exact h.goto (by rw [hcall]; rfl) rfl
  · rename_i f raw hcall
    exact h.store hcall
  · rename_i f hcall
    have hhand : s.call.inHand = [] := by rw [hcall]; rfl
    split
    · split <;> exact (h.setConnected _ _).goto hhand rfl
    · exact h.goto hhand rfl
  · rename_i f hcall
    have hhand : s.call.inHand = [] := by rw [hcall]; rfl
    split
    · exact h.goto hhand rfl
    · exact h.goto hhand rfl
    · exact h.goto hhand rfl
    · exact (h.closeSession _).goto hhand rfl
  · rename_i hcall
    exact (h.closeChannel _).goto (by simp [HandleRun.resetChannel, hcall, HandlePc.inHand]) rfl
  · rename_i f hcall
    have hhand : s.call.inHand = [] := by rw [hcall]; rfl
    split
    · split
      · exact (h.setConnected _ _).goto hhand rfl
      · exact h.goto hhand rfl
    · exact h.goto hhand rfl
  · rename_i hcall
    exact h.markNotificationDead.goto (by rw [show s.markNotificationDead.call = s.call from rfl, hcall]; rfl) rfl
  · rename_i destroy hcall
    exact (h.closeChannel _).goto (by simp [HandleRun.resetChannel, hcall, HandlePc.inHand]) rfl
  · rename_i destroy hcall
    exact (h.closeSession _).goto (by simp [HandleRun.resetSession, hcall, HandlePc.inHand]) rfl
  · rename_i destroy hcall
    exact h.markNotificationDead.goto (by rw [show s.markNotificationDead.call = s.call from rfl, hcall]; rfl) rfl
  · rename_i destroy hcall
    exact (h.setConnected _ _).goto (by simp [HandleRun.setConnected, hcall, HandlePc.inHand]) (by split <;> rfl)

/-- **Every turn keeps the books.** -/
theorem Ledger.step (h : s.Ledger) (turn : HandleTurn) : (s.step turn).Ledger := by
  cases turn with
  | connect f | disconnect destroy =>
    simp only [HandleRun.step]
    split
    · rename_i hcall
      exact h.goto (by rw [hcall]; rfl) rfl
    · exact h
  | go ok => exact h.callStep ok
  | mark =>
    simp only [HandleRun.step]
    split
    · exact h
    · exact h.markNotificationDead

theorem ledger_init : ({} : HandleRun).Ledger := ⟨List.Perm.refl _, fun _ _ => rfl⟩

theorem ledger_run (turns : List HandleTurn) : (runHandles turns).Ledger :=
  Run.run_invariant (fun _ turn h => h.step turn) turns _ ledger_init

/-! ## The end of a client -/

theorem pairs_markNotificationDead (s : HandleRun) (side : Side) :
    s.markNotificationDead.pairs side = if side = .notification then {} else s.pairs side := by
  cases side <;> simp [markNotificationDead, resetSession, resetChannel, setConnected]

/-- **What `disconnect` has emptied stays empty**, whatever `mark_notification_dead` comes in between. -/
theorem emptied_step (h : s.call.Emptied s.pairs) (turn : HandleTurn) :
    (s.step turn).call.Emptied (s.step turn).pairs := by
  have hmark : s.call ≠ .gone → s.markNotificationDead.call.Emptied s.markNotificationDead.pairs := by
    intro hgone
    rw [show s.markNotificationDead.call = s.call from rfl]
    cases hc : s.call with
    | disconnectSession destroy | disconnectNotification destroy =>
      rw [hc] at h
      simpa [HandlePc.Emptied, pairs_markNotificationDead] using h
    | disconnectFlags destroy =>
      rw [hc] at h
      intro side
      rw [pairs_markNotificationDead]
      split
      · rfl
      · exact h side
    | gone => exact absurd hc hgone
    | _ => trivial
  cases turn with
  | connect f | disconnect destroy =>
    simp only [HandleRun.step]
    split
    · trivial
    · exact h
  | mark =>
    simp only [HandleRun.step]
    split
    · exact h
    · rename_i hgone
      exact hmark hgone
  | go ok =>
    simp only [HandleRun.step]
    unfold HandleRun.callStep
    split
    · exact h
    · exact h
    · split
      · show HandlePc.Emptied _ (if _ then _ else _)
        split <;> trivial
      · trivial
    · split <;> trivial
    · split <;> trivial
    · trivial
    · split
      · split <;> trivial
      · trivial
    · split <;> trivial
    · trivial
    · split
      · split <;> trivial
      · trivial
    · trivial
    · simp [HandlePc.Emptied, resetChannel, HandleRun.goto]
    · rename_i destroy hcall
      rw [hcall] at h
      simp only [HandlePc.Emptied, resetSession, HandleRun.goto, Function.update_self]
      rw [show (s.pairs .rpc).channel = none from h]
    · rename_i destroy hcall
      rw [hcall] at h
      intro side
      cases side with
      | rpc => exact h
      | notification => exact pairs_markNotificationDead s .notification
    · rename_i destroy hcall
      rw [hcall] at h
      cases destroy with
      | false => trivial
      | true => exact h

theorem emptied_run (turns : List HandleTurn) : (runHandles turns).call.Emptied (runHandles turns).pairs :=
  Run.run_invariant (I := fun s : HandleRun => s.call.Emptied s.pairs) (fun _ turn h => emptied_step h turn) turns _
    trivial

/-- A `disconnect` has released everything, or the client is destroyed. -/
def Disconnected (s : HandleRun) : Prop := (∃ destroy, s.call = .disconnectFlags destroy) ∨ s.call = .gone

theorem held_of_disconnected {turns : List HandleTurn} (h : (runHandles turns).Disconnected) :
    (runHandles turns).held = [] := by
  have hempty := emptied_run turns
  obtain ⟨destroy, hcall⟩ | hcall := h <;>
  · rw [hcall] at hempty
    rw [held, hempty .rpc, hempty .notification, hcall]
    rfl

/-- **Every handle is passed to its free function once.**  Whatever the calls and their failures and whenever the
notification session dies: of the handles that libssh2 has given out each was passed to its free function, or is held,
and that once, so none is passed twice and none that the client still uses; and a client that is disconnected or
destroyed has passed them all. -/
theorem handles_freed_once (turns : List HandleTurn) :
    ((runHandles turns).ssh.freed ++ (runHandles turns).held).Nodup ∧
    ((runHandles turns).ssh.freed ++ (runHandles turns).held).Perm (runHandles turns).ssh.handedOut ∧
    ((runHandles turns).Disconnected → (runHandles turns).ssh.freed.Perm (runHandles turns).ssh.handedOut) := by
  have hbalanced := (ledger_run turns).balanced
  refine ⟨(hbalanced.nodup_iff).2 (Libssh2.handedOut_nodup _), hbalanced, fun hend => ?_⟩
  rwa [held_of_disconnected hend, List.append_nil] at hbalanced

end HandleRun

end PyNetX
