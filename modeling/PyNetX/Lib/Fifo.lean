import PyNetX.Lib.Run
/-!
# Fifo — a bounded first-in-first-out queue, and its history

The abstract queue takes an offer unless it is at its bound, gives its oldest element to a pop, and can be cleared.
Since the last clearing, what it accepted is what was popped, in order, and what it holds (`run_history`).
-/
namespace Fifo

variable {α : Type}

/-- What can be asked of the queue; `skip` asks nothing. -/
inductive Op (α : Type) where
  | offer (a : α)
  | pop
  | clear
  | skip

/-- The contents, and what was accepted and popped since the last clearing. -/
structure State (α : Type) where
  contents : List α := []
  accepted : List α := []
  popped : List α := []

/-- The queue holds as many elements as its bound allows; `none` is no bound. -/
def Full (cap : Option Nat) (xs : List α) : Prop := ∃ c, cap = some c ∧ c ≤ xs.length

instance (cap : Option Nat) (xs : List α) : Decidable (Full cap xs) :=
  match cap with
  | none => isFalse (by rintro ⟨c, h, -⟩; cases h)
  | some c => decidable_of_iff (c ≤ xs.length) ⟨fun h => ⟨c, rfl, h⟩, fun ⟨_, h, hle⟩ => by cases h; exact hle⟩

def step (cap : Option Nat) (s : State α) : Op α → State α
  | .offer a => if Full cap s.contents then s else
      { s with contents := s.contents ++ [a], accepted := s.accepted ++ [a] }
  | .pop =>
    match s.contents with
    | [] => s
    | x :: xs => { s with contents := xs, popped := s.popped ++ [x] }
  | .clear => {}
  | .skip => s

variable {cap : Option Nat}

theorem step_history {s : State α} (h : s.accepted = s.popped ++ s.contents) (op : Op α) :
    (step cap s op).accepted = (step cap s op).popped ++ (step cap s op).contents := by
  cases op with
  | offer a =>
    simp only [step]
    split
    · exact h
    · simp only [h, List.append_assoc]
  | pop =>
    simp only [step]
    split
    · exact h
    · rename_i x xs hx
      simp only [h, hx, List.append_assoc, List.singleton_append]
  | clear => rfl
  | skip => exact h

/-- **First in, first out, nothing lost and nothing doubled**, over every run. -/
theorem run_history (cap : Option Nat) (ops : List (Op α)) : (Run.run (step cap) {} ops).accepted =
    (Run.run (step cap) {} ops).popped ++ (Run.run (step cap) {} ops).contents :=
  Run.run_invariant (I := fun s : State α => s.accepted = s.popped ++ s.contents) (fun _ op h => step_history h op) ops {}
    rfl

end Fifo
