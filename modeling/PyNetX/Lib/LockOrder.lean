import Mathlib.Order.WellFounded
import PyNetX.Lib.Mutex
import PyNetX.Lib.Run
/-!
# LockOrder — locks taken in one order never deadlock

Code is scopes of locks, one inside another; a thread enters those open to it in any order and as often as it likes, and
may leave the innermost at any time, so that branches, loops and exceptions are all among its runs.  If every scope's
lock ranks below the locks around it, then whatever the threads do, no threads wait for each other (`never_deadlocked`).
-/
namespace LockOrder

open Run (run)

variable {ℓ κ τ ρ : Type}

/-- The scope of a lock, and the scopes that the code inside may enter. -/
inductive Scope (ℓ : Type) where
  | scope (lock : ℓ) (inside : List (Scope ℓ))

def Scope.lock : Scope ℓ → ℓ
  | .scope lock _ => lock

def Scope.inside : Scope ℓ → List (Scope ℓ)
  | .scope _ inside => inside

/-- Every lock in the scope ranks below the locks around it. -/
inductive Scope.Descends [LT ρ] (rank : ℓ → ρ) : Scope ℓ → Prop
  | scope {lock : ℓ} {inside : List (Scope ℓ)} (hrank : ∀ sc ∈ inside, rank sc.lock < rank lock)
      (hinside : ∀ sc ∈ inside, Descends rank sc) : Descends rank (.scope lock inside)

theorem Scope.Descends.inside [LT ρ] {rank : ℓ → ρ} {sc : Scope ℓ} (h : sc.Descends rank) :
    ∀ sc' ∈ sc.inside, rank sc'.lock < rank sc.lock ∧ sc'.Descends rank := by
  cases h with
  | scope hrank hinside => exact fun sc' hsc' => ⟨hrank sc' hsc', hinside sc' hsc'⟩

/-- A thread: the scopes of its call, those it is inside of, innermost first, and the one whose lock it waits for. -/
structure Thread (ℓ : Type) where
  code : List (Scope ℓ) := []
  frames : List (Scope ℓ) := []
  wants : Option (Scope ℓ) := none

/-- The scopes that are open to the thread. -/
def Thread.opens (t : Thread ℓ) : List (Scope ℓ) :=
  match t.frames with
  | [] => t.code
  | frame :: _ => frame.inside

def Thread.holds (t : Thread ℓ) : List ℓ := t.frames.map Scope.lock

structure Threads (ℓ τ : Type) where
  holder : ℓ → Option τ := fun _ => none
  threads : τ → Thread ℓ := fun _ => {}

inductive Turn (κ τ : Type) where
  | call (t : τ) (k : κ)
  | ask (t : τ) (i : Nat)
  | take (t : τ)
  | leave (t : τ)

namespace Threads

variable [DecidableEq ℓ] [DecidableEq τ]

def set (s : Threads ℓ τ) (t : τ) (thread : Thread ℓ) : Threads ℓ τ :=
  { s with threads := Function.update s.threads t thread }

/-- A turn of a thread: it begins a call, asks for the lock of a scope that is open to it, takes it when it is free, or
leaves the innermost scope. -/
def step (entry : κ → List (Scope ℓ)) (s : Threads ℓ τ) : Turn κ τ → Threads ℓ τ
  | .call t k =>
    match (s.threads t).frames, (s.threads t).wants with
    | [], none => s.set t { code := entry k }
    | _, _ => s
  | .ask t i =>
    match (s.threads t).wants, (s.threads t).opens[i]? with
    | none, some sc => s.set t { s.threads t with wants := some sc }
    | _, _ => s
  | .take t =>
    match (s.threads t).wants with
    | none => s
    | some sc =>
      match s.holder sc.lock with
      | some _ => s
      | none => { s.set t { s.threads t with frames := sc :: (s.threads t).frames, wants := none } with
          holder := Function.update s.holder sc.lock (some t) }
  | .leave t =>
    match (s.threads t).wants, (s.threads t).frames with
    | none, frame :: frames => { s.set t { s.threads t with frames := frames } with
        holder := Function.update s.holder frame.lock none }
    | _, _ => s

end Threads

/-- Some threads all wait, each for a lock that one of them holds. -/
def Threads.Deadlocked (s : Threads ℓ τ) : Prop :=
  ∃ among : τ → Prop, (∃ t, among t) ∧
    ∀ t, among t → ∃ sc u, (s.threads t).wants = some sc ∧ s.holder sc.lock = some u ∧ among u

/-- A thread's locks rank below each other, from the outermost in, and those it may ask for below them all. -/
structure Thread.Sound [LT ρ] (rank : ℓ → ρ) (t : Thread ℓ) : Prop where
  code : ∀ sc ∈ t.code, sc.Descends rank
  frames : ∀ sc ∈ t.frames, sc.Descends rank
  sorted : t.frames.Pairwise fun inner outer => rank inner.lock < rank outer.lock
  wants : ∀ sc, t.wants = some sc → sc.Descends rank ∧ ∀ frame ∈ t.frames, rank sc.lock < rank frame.lock

structure Sound [LT ρ] (rank : ℓ → ρ) (s : Threads ℓ τ) : Prop where
  guards : ∀ l, Mutex.Guards (s.holder l) fun t => l ∈ (s.threads t).holds
  threads : ∀ t, (s.threads t).Sound rank

section

variable [Preorder ρ] {rank : ℓ → ρ} {s : Threads ℓ τ} {t : τ}

theorem Thread.Sound.opens {t : Thread ℓ} (h : t.Sound rank) {sc : Scope ℓ} (hsc : sc ∈ t.opens) :
    sc.Descends rank ∧ ∀ frame ∈ t.frames, rank sc.lock < rank frame.lock := by
  unfold Thread.opens at hsc
  split at hsc
  · rename_i hnil
    exact ⟨h.code sc hsc, fun frame hframe => by rw [hnil] at hframe; cases hframe⟩
  · rename_i inner frames hcons
    have hinner := (h.frames inner (by rw [hcons]; exact List.mem_cons_self)).inside sc hsc
    refine ⟨hinner.2, fun frame hframe => ?_⟩
    have hsorted := h.sorted
    rw [hcons] at hsorted hframe
    rcases List.mem_cons.1 hframe with rfl | hframe
    · exact hinner.1
    · exact lt_trans hinner.1 ((List.pairwise_cons.1 hsorted).1 frame hframe)

/-- Whoever holds a lock and waits, waits for one of a lower rank. -/
theorem Sound.holder_waits (h : Sound rank s) {sc sc' : Scope ℓ} {u : τ} (hu : s.holder sc.lock = some u)
    (hwants : (s.threads u).wants = some sc') : rank sc'.lock < rank sc.lock := by
  obtain ⟨frame, hframe, hlock⟩ := List.mem_map.1 ((h.guards sc.lock u).2 hu)
  rw [← hlock]
  exact ((h.threads u).wants sc' hwants).2 frame hframe

/-- **Locks taken in one order never deadlock**: from a lock that is held by one of the threads that wait, the ranks fall
along those that hold and want. -/
theorem Sound.never_deadlocked [WellFoundedLT ρ] (h : Sound rank s) : ¬ s.Deadlocked := by
  rintro ⟨among, ⟨t, ht⟩, hall⟩
  -- the induction is on the rank of the lock that is wanted
  have hnone : ∀ (r : ρ) (sc : Scope ℓ), rank sc.lock = r → ∀ u, among u → s.holder sc.lock ≠ some u := by
    intro r
    induction r using WellFoundedLT.induction with
    | ind r ih =>
      rintro sc rfl u hamong hu
      obtain ⟨sc', v, hwants, hv, hamong'⟩ := hall u hamong
      exact ih _ (h.holder_waits hu hwants) sc' rfl v hamong' hv
  obtain ⟨sc, u, -, hu, hamong⟩ := hall t ht
  exact hnone _ sc rfl u hamong hu

variable [DecidableEq τ]

theorem set_self (thread : Thread ℓ) : (s.set t thread).threads t = thread := Function.update_self ..

theorem set_other {u : τ} (hu : u ≠ t) (thread : Thread ℓ) : (s.set t thread).threads u = s.threads u :=
  Function.update_of_ne hu ..

/-- One thread moves, and holds what it held. -/
theorem Sound.set (h : Sound rank s) {thread : Thread ℓ} (hthread : thread.Sound rank)
    (hholds : thread.holds = (s.threads t).holds) : Sound rank (s.set t thread) where
  guards l := (h.guards l).congr fun u => by
    by_cases hu : u = t
    · subst hu
      rw [set_self, hholds]
    · rw [set_other hu]
  threads u := by
    by_cases hu : u = t
    · subst hu
      rwa [set_self]
    · rw [set_other hu]
      exact h.threads u

variable [DecidableEq ℓ]

/-- The thread takes the lock it waits for. -/
theorem Sound.take (h : Sound rank s) {sc : Scope ℓ} (hwants : (s.threads t).wants = some sc)
    (hfree : s.holder sc.lock = none) :
    Sound rank { s.set t { s.threads t with frames := sc :: (s.threads t).frames, wants := none } with
      holder := Function.update s.holder sc.lock (some t) } := by
  obtain ⟨hdescends, hbelow⟩ := (h.threads t).wants sc hwants
  refine ⟨fun l => ?_, fun u => ?_⟩
  · by_cases hl : l = sc.lock
    · subst hl
      simp only [Function.update_self]
      refine (hfree ▸ h.guards sc.lock).enter ?_ fun u hu => by rw [set_other hu]
      rw [set_self]
      exact List.mem_cons_self
    · simp only [Function.update_of_ne hl]
      refine (h.guards l).congr fun u => ?_
      by_cases hu : u = t
      · subst hu
        rw [set_self]
        simp only [Thread.holds, List.map_cons, List.mem_cons, hl, false_or]
      · rw [set_other hu]
  · by_cases hu : u = t
    · subst hu
      rw [set_self]
      exact ⟨(h.threads u).code, List.forall_mem_cons.2 ⟨hdescends, (h.threads u).frames⟩,
        List.pairwise_cons.2 ⟨hbelow, (h.threads u).sorted⟩, fun sc hsc => by cases hsc⟩
    · rw [set_other hu]
      exact h.threads u

/-- The thread leaves its innermost scope. -/
theorem Sound.leave (h : Sound rank s) {frame : Scope ℓ} {frames : List (Scope ℓ)}
    (hwants : (s.threads t).wants = none) (hframes : (s.threads t).frames = frame :: frames) :
    Sound rank { s.set t { s.threads t with frames := frames } with
      holder := Function.update s.holder frame.lock none } := by
  have hsorted := (h.threads t).sorted
  rw [hframes] at hsorted
  obtain ⟨hbelow, hrest⟩ := List.pairwise_cons.1 hsorted
  have hholds : (s.threads t).holds = frame.lock :: frames.map Scope.lock := by
    rw [Thread.holds, hframes, List.map_cons]
  have hheld : s.holder frame.lock = some t := (h.guards frame.lock).holder (by rw [hholds]; exact List.mem_cons_self)
  refine ⟨fun l => ?_, fun u => ?_⟩
  · by_cases hl : l = frame.lock
    · subst hl
      simp only [Function.update_self]
      refine (hheld ▸ h.guards frame.lock).leave ?_ fun u hu => by rw [set_other hu]
      -- the locks around it are other ones, of higher ranks
      rw [set_self]
      intro hmem
      obtain ⟨outer, houter, hlock⟩ := List.mem_map.1 hmem
      exact lt_irrefl _ (hlock ▸ hbelow outer houter)
    · simp only [Function.update_of_ne hl]
      refine (h.guards l).congr fun u => ?_
      by_cases hu : u = t
      · subst hu
        rw [set_self, hholds]
        simp only [Thread.holds, List.mem_cons, hl, false_or]
      · rw [set_other hu]
  · by_cases hu : u = t
    · subst hu
      rw [set_self]
      refine ⟨(h.threads u).code, fun sc hsc => (h.threads u).frames sc ?_, hrest, fun sc hsc => ?_⟩
      · rw [hframes]
        exact List.mem_cons_of_mem _ hsc
      · rw [hwants] at hsc
        cases hsc
    · rw [set_other hu]
      exact h.threads u

variable {entry : κ → List (Scope ℓ)}

/-- **The threads take a turn.** -/
theorem Sound.step (hentry : ∀ k, ∀ sc ∈ entry k, sc.Descends rank) (h : Sound rank s) (turn : Turn κ τ) :
    Sound rank (s.step entry turn) := by
  cases turn with
  | call t k =>
    rw [Threads.step]
    split
    · rename_i hframes hwants
      refine h.set ⟨hentry k, fun sc hsc => (by cases hsc), List.Pairwise.nil, fun sc hsc => by cases hsc⟩ ?_
      rw [Thread.holds, Thread.holds, hframes]
    · exact h
  | ask t i =>
    rw [Threads.step]
    split
    · rename_i sc hwants hsc
      refine h.set ⟨(h.threads t).code, (h.threads t).frames, (h.threads t).sorted, fun sc' hsc' => ?_⟩ rfl
      cases hsc'
      exact (h.threads t).opens (List.mem_of_getElem? hsc)
    · exact h
  | take t =>
    rw [Threads.step]
    split
    · exact h
    · rename_i sc hwants
      split
      · exact h
      · rename_i hfree
        exact h.take hwants hfree
  | leave t =>
    rw [Threads.step]
    split
    · rename_i frame frames hwants hframes
      exact h.leave hwants hframes
    · exact h

/-- **Code whose scopes descend never deadlocks on its locks**, however many threads run it, and in whatever order. -/
theorem never_deadlocked [WellFoundedLT ρ] (hentry : ∀ k, ∀ sc ∈ entry k, sc.Descends rank) (turns : List (Turn κ τ)) :
    ¬ (run (Threads.step entry) ({} : Threads ℓ τ) turns).Deadlocked := by
  have hstart : Sound rank ({} : Threads ℓ τ) :=
    ⟨fun l t => ⟨fun h => (by cases h), fun h => (by cases h)⟩, fun t => ⟨fun sc hsc => (by cases hsc),
      fun sc hsc => (by cases hsc), List.Pairwise.nil, fun sc hsc => (by cases hsc)⟩⟩
  exact (Run.run_invariant (fun _ turn h => h.step hentry turn) turns _ hstart).never_deadlocked

end

end LockOrder
