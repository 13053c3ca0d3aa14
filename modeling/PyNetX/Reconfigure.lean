import Mathlib.Logic.Function.Basic
import PyNetX.Lib.Mutex
import PyNetX.Lib.Run
/-!
# Reconfigure — the reactors' threads under `set_reactor_count`

A call of `set_reactor_count` holds the manager's `mtx_` while it destroys the old reactors, and each destructor joins
its thread; a thread that cleans up, or drops a client's last reference, calls the manager's `remove`, which takes
`mtx_`.  What the registrations are is left out here, but that a reactor has none left when it is destroyed.
-/
namespace PyNetX

open Mutex (Guards)
open Run (run Along)

/-- A thread that takes the manager's mutex: a call of `set_reactor_count`, a reactor's thread, or any other. -/
inductive ManagerThread where
  | setter (p : Nat)
  | loop (r : Nat)
  | user (u : Nat)
  deriving DecidableEq

/-- Where a reactor's thread is in `loop`, with `left` events of its batch to handle, this one counted. -/
inductive LoopPc where
  | poll
  /-- In front of the handler table. -/
  | lookup (left : Nat)
  /-- It has the event's client in hand. -/
  | callback (left : Nat)
  /-- In the manager's `remove`, in front of `mtx_`. -/
  | wait (left : Nat)
  /-- In the manager's `remove`, inside. -/
  | remove (left : Nat)
  | exited
  deriving DecidableEq

/-- A reactor: its thread, `_running`, and whether the manager has taken all its registrations out. -/
structure ReactorThread where
  pc : LoopPc := .poll
  running : Bool := true
  emptied : Bool := false

/-- Where a call of `set_reactor_count` is; `old` are the reactors behind the one it destroys. -/
inductive SetterPc where
  | idle
  | lock (newCount : Nat)
  /-- Inside, in front of the loop that unregisters. -/
  | unregister (newCount : Nat)
  /-- Inside `reactors_.clear()`, between two reactors. -/
  | clear (newCount : Nat) (old : List Nat)
  /-- Inside, in the destructor of `r`, in front of the join. -/
  | join (newCount : Nat) (r : Nat) (old : List Nat)
  | returned
  deriving DecidableEq

/-- The manager's mutex, its reactors by number, how many were ever made, and the threads. -/
structure Reconfiguration where
  mtx : Option ManagerThread := none
  reactors : List Nat := []
  made : Nat := 0
  threads : Nat → ReactorThread := fun _ => {}
  setters : Nat → SetterPc := fun _ => .idle

/-- The next event of a batch, or the next wait. -/
def LoopPc.next (left : Nat) : LoopPc := if 1 < left then .lookup (left - 1) else .poll

namespace Reconfiguration

def setThread (s : Reconfiguration) (r : Nat) (t : ReactorThread) : Reconfiguration :=
  { s with threads := Function.update s.threads r t }

def setPc (s : Reconfiguration) (r : Nat) (pc : LoopPc) : Reconfiguration :=
  s.setThread r { s.threads r with pc := pc }

def setSetter (s : Reconfiguration) (p : Nat) (pc : SetterPc) : Reconfiguration :=
  { s with setters := Function.update s.setters p pc }

def grow (s : Reconfiguration) (count : Nat) : Reconfiguration :=
  { s with reactors := (List.range count).map (s.made + ·), made := s.made + count }

/-- A turn of call `p`; `newCount` is its argument, and `constructed` how many new reactors can be made. -/
def setterStep (s : Reconfiguration) (p newCount constructed : Nat) : Reconfiguration :=
  match s.setters p with
  | .idle => s.setSetter p (.lock newCount)
  | .lock newCount =>
    if s.mtx = none then
      -- `new_count == 0` throws at once
      if newCount = 0 then s.setSetter p .returned
      else { s.setSetter p (.unregister newCount) with mtx := some (.setter p) }
    else s
  | .unregister newCount =>
    { s.setSetter p (.clear newCount s.reactors) with
      threads := fun r => { s.threads r with emptied := (s.threads r).emptied || s.reactors.contains r } }
  | .clear newCount (r :: old) => (s.setThread r { s.threads r with running := false }).setSetter p (.join newCount r old)
  | .clear newCount [] => { (s.grow (min newCount constructed)).setSetter p .returned with mtx := none }
  | .join newCount r old => if (s.threads r).pc = .exited then s.setSetter p (.clear newCount old) else s
  | .returned => s

/-- A turn of the thread of reactor `r`: `events` is what `epoll_wait` gives, `found` what the handler table does, and
`removes` whether the thread calls the manager's `remove` next, by `cleanup_dead_fd` or for a client's destructor. -/
def loopStep (s : Reconfiguration) (r events : Nat) (found removes : Bool) : Reconfiguration :=
  match (s.threads r).pc with
  | .poll =>
    if (s.threads r).running = false then s.setPc r .exited
    else if events = 0 then s
    else s.setPc r (.lookup events)
  | .lookup left =>
    if found ∧ (s.threads r).emptied = false then s.setPc r (.callback left) else s.setPc r (.next left)
  | .callback left => if removes then s.setPc r (.wait left) else s.setPc r (.next left)
  | .wait left => if s.mtx = none then { s.setPc r (.remove left) with mtx := some (.loop r) } else s
  | .remove left => { s.setPc r (.callback left) with mtx := none }
  | .exited => s

/-- A turn of another thread in the manager: it enters, or it leaves, `add` having made a first reactor perhaps. -/
def userStep (s : Reconfiguration) (u : Nat) (adds : Bool) : Reconfiguration :=
  if s.mtx = none then { s with mtx := some (.user u) }
  else if s.mtx = some (.user u) then
    { (if adds ∧ s.reactors = [] then s.grow 1 else s) with mtx := none }
  else s

end Reconfiguration

inductive ReconfigureTurn where
  | setter (p newCount constructed : Nat)
  | loop (r events : Nat) (found removes : Bool)
  | user (u : Nat) (adds : Bool)

def Reconfiguration.step (s : Reconfiguration) : ReconfigureTurn → Reconfiguration
  | .setter p newCount constructed => s.setterStep p newCount constructed
  | .loop r events found removes => if r < s.made then s.loopStep r events found removes else s
  | .user u adds => s.userStep u adds

def runReconfigure (turns : List ReconfigureTurn) : Reconfiguration := run Reconfiguration.step {} turns

namespace Reconfiguration

/-- A call of `set_reactor_count` holds `mtx_` and joins a reactor's thread that waits for `mtx_` in `remove`. -/
def Deadlocked (s : Reconfiguration) : Prop :=
  ∃ p newCount r old left, s.setters p = .join newCount r old ∧ s.mtx = some (.setter p) ∧
    (s.threads r).pc = .wait left

/-- The reactors that call `p` has still to join. -/
def toJoin (s : Reconfiguration) (p : Nat) : List Nat :=
  match s.setters p with
  | .unregister _ => s.reactors
  | .clear _ old => old
  | .join _ r old => r :: old
  | .idle | .lock _ | .returned => []

/-- The reactor's thread waits for `mtx_` in `remove`. -/
def Waits (s : Reconfiguration) (r : Nat) : Prop := ∃ left, (s.threads r).pc = .wait left

/-- Cleanup and reconfiguration keep apart: a call enters with no reactor's thread waiting in `remove`, and no thread
that a call inside has still to join goes there. -/
def KeepsApart (s : Reconfiguration) : ReconfigureTurn → Prop
  | .setter p _ _ => ∀ newCount, s.setters p = .lock newCount → newCount ≠ 0 → s.mtx = none →
      ∀ r ∈ s.reactors, ¬ s.Waits r
  | .loop r _ _ removes => ∀ left, (s.threads r).pc = .callback left → removes = true → ∀ p, r ∉ s.toJoin p
  | .user _ _ => True

/-! ## The mutex -/

def Inside (s : Reconfiguration) : ManagerThread → Prop
  | .setter p => ∃ newCount, s.setters p = .unregister newCount ∨ (∃ old, s.setters p = .clear newCount old) ∨
      ∃ r old, s.setters p = .join newCount r old
  | .loop r => ∃ left, (s.threads r).pc = .remove left
  | .user u => s.mtx = some (.user u)

structure Apart (s : Reconfiguration) : Prop where
  guards : Guards s.mtx s.Inside
  apart : ∀ p, ∀ r ∈ s.toJoin p, ¬ s.Waits r

variable {s : Reconfiguration} {p r : Nat}

theorem inside_of_toJoin (h : r ∈ s.toJoin p) : s.Inside (.setter p) := by
  unfold toJoin at h
  split at h
  · rename_i newCount hpc
    exact ⟨newCount, Or.inl hpc⟩
  · rename_i newCount old hpc
    exact ⟨newCount, Or.inr (Or.inl ⟨old, hpc⟩)⟩
  · rename_i newCount r' old hpc
    exact ⟨newCount, Or.inr (Or.inr ⟨r', old, hpc⟩)⟩
  all_goals cases h

/-- Only the call that holds the mutex has reactors to join. -/
theorem toJoin_nil (h : Guards s.mtx s.Inside) (hp : s.mtx ≠ some (.setter p)) : s.toJoin p = [] :=
  List.eq_nil_iff_forall_not_mem.2 (fun _ hr => hp (h.holder (inside_of_toJoin hr)))

/-- When no call holds the mutex none has reactors to join. -/
theorem Apart.of_guards (h : Guards s.mtx s.Inside) (hnone : ∀ p, s.mtx ≠ some (.setter p)) : Apart s :=
  ⟨h, fun p r hr => by rw [toJoin_nil h (hnone p)] at hr; cases hr⟩

@[simp] theorem setPc_self {pc : LoopPc} : ((s.setPc r pc).threads r).pc = pc := by
  simp [setPc, setThread]

theorem setPc_ne {r' : Nat} {pc : LoopPc} (h : r' ≠ r) : (s.setPc r pc).threads r' = s.threads r' := by
  simp [setPc, setThread, h]

@[simp] theorem setSetter_self {pc : SetterPc} : (s.setSetter p pc).setters p = pc := by
  simp [setSetter]

theorem setSetter_ne {q : Nat} {pc : SetterPc} (h : q ≠ p) : (s.setSetter p pc).setters q = s.setters q := by
  simp [setSetter, h]

/-! ## One turn -/

theorem Apart.loopStep (h : Apart s) (events : Nat) (found removes : Bool)
    (ht : KeepsApart s (.loop r events found removes)) : Apart (s.loopStep r events found removes) := by
  have hothers : ∀ (pc : LoopPc) t, t ≠ .loop r → ((s.setPc r pc).Inside t ↔ s.Inside t) := by
    intro pc t ht
    cases t with
    | setter p => exact Iff.rfl
    | loop r' => simp only [Inside, setPc_ne (fun he => ht (by rw [he]) : r' ≠ r)]
    | user u => exact Iff.rfl
  -- a turn that takes or leaves no mutex, to a program point outside it
  have hmove : ∀ pc, (¬ ∃ left, (s.threads r).pc = .remove left) → (¬ ∃ left, pc = .remove left) →
      (∀ left, pc = .wait left → ∀ p, r ∉ s.toJoin p) → Apart (s.setPc r pc) := by
    intro pc hout hout' hwait
    refine ⟨h.guards.congr (fun t => ?_), fun p r' hr' => ?_⟩
    · by_cases htr : t = .loop r
      · subst htr
        exact iff_of_false (by simpa [Inside] using hout') hout
      · exact hothers pc t htr
    · have hold : r' ∈ s.toJoin p := hr'
      rintro ⟨left, hleft⟩
      by_cases hrr : r' = r
      · subst hrr
        rw [setPc_self] at hleft
        exact hwait left hleft p hold
      · rw [setPc_ne hrr] at hleft
        exact h.apart p r' hold ⟨left, hleft⟩
  have hnext : ∀ left, (¬ ∃ k, LoopPc.next left = .remove k) ∧ ∀ k, LoopPc.next left ≠ .wait k := by
    intro left
    unfold LoopPc.next
    split <;> simp
  unfold Reconfiguration.loopStep
  cases hpc : (s.threads r).pc with
  | poll =>
    simp only
    split
    · exact hmove _ (by simp [hpc]) (by simp) nofun
    · split
      · exact h
      · exact hmove _ (by simp [hpc]) (by simp) nofun
  | lookup left =>
    simp only
    split
    · exact hmove _ (by simp [hpc]) (by simp) nofun
    · exact hmove _ (by simp [hpc]) (hnext left).1 (fun k hk => absurd hk ((hnext left).2 k))
  | callback left =>
    simp only
    split
    · rename_i hremoves
      exact hmove _ (by simp [hpc]) (by simp) (fun _ _ => ht left hpc hremoves)
    · exact hmove _ (by simp [hpc]) (hnext left).1 (fun k hk => absurd hk ((hnext left).2 k))
  | wait left =>
    simp only
    split
    · rename_i hfree
      have hguards := h.guards
      rw [hfree] at hguards
      refine Apart.of_guards (hguards.enter ⟨left, setPc_self⟩ (fun t htr => ?_)) nofun
      cases t with
      | setter p => exact Iff.rfl
      | loop r' => exact hothers _ _ htr
      | user u => simp [Inside, hfree]
    · exact h
  | remove left =>
    have hholds : s.mtx = some (.loop r) := h.guards.holder ⟨left, hpc⟩
    have hguards := h.guards
    rw [hholds] at hguards
    refine Apart.of_guards (hguards.leave (by simp [Inside, setPc, setThread]) (fun t htr => ?_)) nofun
    cases t with
    | setter p => exact Iff.rfl
    | loop r' => exact hothers _ _ htr
    | user u => simp [Inside, hholds]
  | exited => exact h

theorem Apart.userStep (h : Apart s) (u : Nat) (adds : Bool) : Apart (s.userStep u adds) := by
  unfold Reconfiguration.userStep
  split
  · rename_i hfree
    have hguards := h.guards
    rw [hfree] at hguards
    refine Apart.of_guards (hguards.enter rfl (fun t ht => ?_)) nofun
    cases t with
    | setter | loop => exact Iff.rfl
    | user v =>
      have hv : ¬ u = v := fun he => ht (by rw [he])
      simp [Inside, hfree, hv]
  · split
    · rename_i hholds
      have hguards := h.guards
      rw [hholds] at hguards
      refine Apart.of_guards (hguards.leave nofun (fun t ht => ?_)) nofun
      cases t with
      | setter | loop => split <;> exact Iff.rfl
      | user v =>
        have hv : ¬ u = v := fun he => ht (by rw [he])
        simp [Inside, hholds, hv]
    · exact h

theorem Apart.setterStep (h : Apart s) (p newCount constructed : Nat)
    (ht : KeepsApart s (.setter p newCount constructed)) : Apart (s.setterStep p newCount constructed) := by
  have hothers : ∀ (s' : Reconfiguration) (pc : SetterPc), s'.setters = Function.update s.setters p pc →
      (∀ r, (s'.threads r).pc = (s.threads r).pc) → (∀ u, s'.mtx = some (.user u) ↔ s.mtx = some (.user u)) →
      ∀ t, t ≠ .setter p → (s'.Inside t ↔ s.Inside t) := by
    intro s' pc hs hthreads hmtx t ht
    cases t with
    | setter q =>
      have hq : q ≠ p := fun he => ht (by rw [he])
      simp only [Inside, hs, Function.update_of_ne hq]
    | loop r => simp only [Inside, hthreads]
    | user u => exact hmtx u
  -- a call that stays inside and has no more to join than before
  have hstay : ∀ (s' : Reconfiguration) (pc : SetterPc), s'.setters = Function.update s.setters p pc →
      (∀ r, (s'.threads r).pc = (s.threads r).pc) → s'.mtx = s.mtx → (s.Inside (.setter p) → s'.Inside (.setter p)) →
      s.Inside (.setter p) → (∀ r ∈ s'.toJoin p, r ∈ s.toJoin p) → Apart s' := by
    intro s' pc hs hthreads hmtx hin' hin hjoin
    have hguards : Guards s'.mtx s'.Inside := by
      rw [hmtx]
      refine h.guards.congr (fun t => ?_)
      by_cases htp : t = .setter p
      · subst htp
        exact iff_of_true (hin' hin) hin
      · exact hothers s' pc hs hthreads (fun u => by rw [hmtx]) t htp
    refine ⟨hguards, fun q r hr => ?_⟩
    have hq : q = p := ManagerThread.setter.inj (hguards.unique (inside_of_toJoin hr) (hin' hin))
    subst hq
    rintro ⟨left, hleft⟩
    rw [hthreads] at hleft
    exact h.apart q r (hjoin r hr) ⟨left, hleft⟩
  -- a call that stays outside
  have houtside : ∀ pc, ¬ s.Inside (.setter p) → ¬ (s.setSetter p pc).Inside (.setter p) → Apart (s.setSetter p pc) := by
    intro pc hout hout'
    refine ⟨h.guards.congr (fun t => ?_), fun q r hr => ?_⟩
    · by_cases htp : t = .setter p
      · subst htp
        exact iff_of_false hout' hout
      · exact hothers (s.setSetter p pc) pc rfl (fun _ => rfl) (fun _ => Iff.rfl) t htp
    · by_cases hq : q = p
      · subst hq
        exact absurd (inside_of_toJoin hr) hout'
      · have hsame : (s.setSetter p pc).toJoin q = s.toJoin q := by
          simp only [toJoin, setSetter_ne hq]
          rfl
        exact h.apart q r (hsame ▸ hr)
  unfold Reconfiguration.setterStep
  cases hpc : s.setters p with
  | idle => exact houtside _ (by simp [Inside, hpc]) (by simp [Inside])
  | lock count =>
    simp only
    split
    · rename_i hfree
      split
      · exact houtside _ (by simp [Inside, hpc]) (by simp [Inside])
      · rename_i hcount
        have hguards := h.guards
        rw [hfree] at hguards
        have hguards' : Guards (some (.setter p))
            { s.setSetter p (.unregister count) with mtx := some (.setter p) }.Inside := by
          refine hguards.enter ⟨count, Or.inl setSetter_self⟩ (hothers _ _ rfl (fun _ => rfl) (fun u => ?_))
          simp [hfree]
        refine ⟨hguards', fun q r hr => ?_⟩
        have hq : q = p := ManagerThread.setter.inj (hguards'.unique (inside_of_toJoin hr) ((hguards' _).2 rfl))
        subst hq
        have hold : r ∈ s.reactors := by simpa [toJoin, setSetter] using hr
        exact ht count hpc hcount hfree r hold
    · exact h
  | unregister count =>
    exact hstay _ (.clear count s.reactors) rfl (fun _ => rfl) rfl
      (fun _ => ⟨count, Or.inr (Or.inl ⟨s.reactors, setSetter_self⟩)⟩) ⟨count, Or.inl hpc⟩
      (fun r hr => by simpa [toJoin, hpc, setSetter] using hr)
  | clear count old =>
    have hin : s.Inside (.setter p) := ⟨count, Or.inr (Or.inl ⟨old, hpc⟩)⟩
    cases old with
    | nil =>
      have hguards := h.guards
      rw [h.guards.holder hin] at hguards
      refine Apart.of_guards (hguards.leave ?_ (hothers _ .returned rfl (fun _ => rfl) (fun u => ?_))) nofun
      · simp [Inside, setSetter]
      · simp [h.guards.holder hin]
    | cons r old =>
      refine hstay _ (.join count r old) rfl (fun r' => ?_) rfl
        (fun _ => ⟨count, Or.inr (Or.inr ⟨r, old, setSetter_self⟩)⟩) hin
        (fun r' hr' => by simpa [toJoin, hpc, setSetter] using hr')
      by_cases hr : r' = r
      · subst hr
        simp [setSetter, setThread]
      · simp [setSetter, setThread, hr]
  | join count r old =>
    simp only
    split
    · refine hstay _ (.clear count old) rfl (fun _ => rfl) rfl
        (fun _ => ⟨count, Or.inr (Or.inl ⟨old, setSetter_self⟩)⟩) ⟨count, Or.inr (Or.inr ⟨r, old, hpc⟩)⟩ (fun r' hr' => ?_)
      have hr' : r' ∈ old := by simpa [toJoin] using hr'
      simp [toJoin, hpc, hr']
    · exact h
  | returned => exact h

theorem Apart.step (h : Apart s) (t : ReconfigureTurn) (ht : KeepsApart s t) : Apart (s.step t) := by
  cases t with
  | setter p newCount constructed => exact h.setterStep p newCount constructed ht
  | loop r events found removes =>
    simp only [Reconfiguration.step]
    split
    · exact h.loopStep events found removes ht
    · exact h
  | user u adds => exact h.userStep u adds

theorem apart_run {turns : List ReconfigureTurn} (h : Along Reconfiguration.step KeepsApart {} turns) :
    Apart (runReconfigure turns) := by
  refine Run.along_invariant (I := Apart) (fun _ t hs ht => hs.step t ht) ⟨fun t => ?_, fun p r hr => ?_⟩ turns h
  · cases t with
    | setter p => simp [Inside]
    | loop r => simp [Inside]
    | user u => exact Iff.rfl
  · cases hr

/-- **Reconfiguring never deadlocks with a cleanup** in a run that keeps the two apart. -/
theorem not_deadlocked (turns : List ReconfigureTurn) (h : Along Reconfiguration.step KeepsApart {} turns) :
    ¬ Deadlocked (runReconfigure turns) := by
  rintro ⟨p, newCount, r, old, left, hpc, _, hwait⟩
  refine (apart_run h).apart p r ?_ ⟨left, hwait⟩
  simp only [toJoin, hpc]
  exact List.mem_cons_self

/-- Call 0 makes the first reactor; its thread fails on one of two events and cleans up.  Call 1 takes the mutex, the
thread ends its batch and leaves, the call joins it and makes two reactors. -/
def joinsAfterCleanup : List ReconfigureTurn :=
  List.replicate 4 (.setter 0 1 1) ++
    [.loop 0 2 false false, .loop 0 0 true false, .loop 0 0 false true, .loop 0 0 false false, .loop 0 0 false false,
      .loop 0 0 false false] ++ List.replicate 3 (.setter 1 2 2) ++
    [.loop 0 0 true false, .setter 1 2 2, .loop 0 0 false false, .setter 1 2 2, .setter 1 2 2]

theorem joinsAfterCleanup_not_deadlocked : ((runReconfigure joinsAfterCleanup).threads 0).pc = .exited ∧
    (runReconfigure joinsAfterCleanup).setters 1 = .returned ∧ (runReconfigure joinsAfterCleanup).reactors = [1, 2] ∧
      ¬ Deadlocked (runReconfigure joinsAfterCleanup) := by
  refine ⟨rfl, rfl, rfl, not_deadlocked joinsAfterCleanup ?_⟩
  simp only [joinsAfterCleanup, List.replicate, List.cons_append, List.nil_append, Run.along_cons]
  refine ⟨nofun, fun _ _ _ _ r hr => ?_, nofun, nofun, nofun, nofun, fun _ _ _ p hr => ?_, nofun, nofun, nofun,
    nofun, fun _ _ _ _ r hr => ?_, nofun, nofun, nofun, nofun, nofun, nofun, Run.along_nil⟩
  · cases hr
  · -- neither call has a thread to join while the reactor's thread goes into `remove`
    rcases p with _ | p
    · cases hr
    · cases hr
  · -- the thread is out of `remove` when call 1 enters
    obtain rfl : r = 0 := List.mem_singleton.1 hr
    rintro ⟨left, hleft⟩
    cases hleft

/-- The reactor's thread fails on an event and waits in `remove` when call 1 takes the mutex and destroys the reactor. -/
def rebuildsDuringCleanup : List ReconfigureTurn :=
  List.replicate 4 (.setter 0 1 1) ++ [.loop 0 1 false false, .loop 0 0 true false, .setter 1 2 2, .setter 1 2 2] ++
    [.loop 0 0 false true, .setter 1 2 2, .setter 1 2 2]

/-- **Reconfiguring deadlocks with a cleanup.** -/
theorem rebuildsDuringCleanup_deadlocked : ¬ ∀ turns, ¬ Deadlocked (runReconfigure turns) := by
  intro h
  exact h rebuildsDuringCleanup ⟨1, 2, 0, [], 1, by decide, by decide, by decide⟩

end Reconfiguration

end PyNetX
