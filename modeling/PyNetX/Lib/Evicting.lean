import PyNetX.Lib.Run
/-!
# Evicting — a bounded queue that makes room at its front

An offer to a queue at its bound takes the oldest element out first; a take gives the oldest to its caller.  Since the
last clearing, what has left the queue, in order, and what it holds is what it was offered (`run_history`), and it
never holds more than its bound (`run_bounded`).
-/
namespace Evicting

variable {α β : Type}

/-- How an element left the queue. -/
inductive Exit (α : Type) where
  | taken (a : α)
  | evicted (a : α)

def Exit.value : Exit α → α
  | .taken a | .evicted a => a

def Exit.isEvicted : Exit α → Bool
  | .taken _ => false
  | .evicted _ => true

def Exit.map (f : α → β) : Exit α → Exit β
  | .taken a => .taken (f a)
  | .evicted a => .evicted (f a)

@[simp] theorem Exit.value_map (f : α → β) (x : Exit α) : (x.map f).value = f x.value := by cases x <;> rfl

/-- What can be asked of the queue; a `refused` offer makes room and puts nothing in, `skip` asks nothing. -/
inductive Op (α : Type) where
  | offer (a : α)
  | refused
  | take
  | clear
  | skip

/-- What the queue holds, and since the last clearing what it was offered and what has left it. -/
structure State (α : Type) where
  contents : List α := []
  offered : List α := []
  exits : List (Exit α) := []

/-- The oldest element goes if the queue is at its bound. -/
def State.makeRoom (cap : Nat) (s : State α) : State α :=
  match s.contents with
  | [] => s
  | a :: as => if cap ≤ s.contents.length then { s with contents := as, exits := s.exits ++ [.evicted a] } else s

def step (cap : Nat) (s : State α) : Op α → State α
  | .offer a =>
    let s := s.makeRoom cap
    { s with contents := s.contents ++ [a], offered := s.offered ++ [a] }
  | .refused => s.makeRoom cap
  | .take =>
    match s.contents with
    | [] => s
    | a :: as => { s with contents := as, exits := s.exits ++ [.taken a] }
  | .clear => {}
  | .skip => s

/-- What was offered has left in order, or is in the queue. -/
def State.History (s : State α) : Prop := s.offered = s.exits.map Exit.value ++ s.contents

variable {cap : Nat} {s : State α}

theorem State.History.leave (h : s.History) {a : α} {as : List α} (ha : s.contents = a :: as) {x : Exit α}
    (hx : x.value = a) : State.History { s with contents := as, exits := s.exits ++ [x] } := by
  unfold History at h ⊢
  rw [h, ha, List.map_append, List.map_singleton, hx, List.append_assoc]
  rfl

theorem State.History.makeRoom (h : s.History) : (s.makeRoom cap).History := by
  unfold State.makeRoom
  split
  · exact h
  · rename_i a as ha
    split
    · exact h.leave ha rfl
    · exact h

theorem step_history (h : s.History) (op : Op α) : (step cap s op).History := by
  cases op with
  | offer a =>
    have hroom : (s.makeRoom cap).History := h.makeRoom
    unfold State.History at hroom ⊢
    simp only [step]
    rw [hroom, List.append_assoc]
  | refused => exact h.makeRoom
  | take =>
    simp only [step]
    split
    · exact h
    · rename_i a as ha
      exact h.leave ha rfl
  | clear => rfl
  | skip => exact h

/-- **First in, first out, whether taken or evicted; nothing lost and nothing doubled**, over every run. -/
theorem run_history (ops : List (Op α)) : (Run.run (step cap) ({} : State α) ops).History :=
  Run.run_invariant (I := State.History) (fun _ op h => step_history h op) ops {} rfl

theorem State.makeRoom_length (hc : 0 < cap) (h : s.contents.length ≤ cap) : (s.makeRoom cap).contents.length < cap := by
  unfold State.makeRoom
  split
  · rename_i ha
    rwa [ha]
  · rename_i a as ha
    rw [ha, List.length_cons] at h
    split
    · exact h
    · rename_i hlt
      exact Nat.lt_of_not_le hlt

theorem step_bounded (hc : 0 < cap) (h : s.contents.length ≤ cap) (op : Op α) :
    (step cap s op).contents.length ≤ cap := by
  have hroom := State.makeRoom_length hc h
  cases op with
  | offer a =>
    simp only [step, List.length_append, List.length_singleton]
    exact hroom
  | refused => exact Nat.le_of_lt hroom
  | take =>
    simp only [step]
    split
    · exact h
    · rename_i a as ha
      rw [ha, List.length_cons] at h
      exact Nat.le_of_succ_le h
  | clear => exact Nat.zero_le cap
  | skip => exact h

/-- **The bound holds over every run.** -/
theorem run_bounded (hc : 0 < cap) (ops : List (Op α)) :
    (Run.run (step cap) ({} : State α) ops).contents.length ≤ cap :=
  Run.run_invariant (I := fun s : State α => s.contents.length ≤ cap) (fun _ op h => step_bounded hc h op) ops {}
    (Nat.zero_le cap)

end Evicting
