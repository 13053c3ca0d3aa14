import Mathlib.Tactic.Common
/-!
# While — a loop that ends

The body of a loop either goes on from a next state or is done with a value.  `Ends` are the finite runs of the loop,
which has no bound of its own; a function that follows the body turn by turn, while a measure falls, is what the loop
comes to (`ends_of_bounded`).
-/
namespace While

variable {σ β : Type}

/-- What one turn of a loop comes to. -/
inductive Turn (σ β : Type) where
  | next (s : σ)
  | done (b : β)

/-- From `s`, the loop ends with `b`. -/
inductive Ends (body : σ → Turn σ β) : σ → β → Prop
  | done {s : σ} {b : β} (h : body s = .done b) : Ends body s b
  | next {s s' : σ} {b : β} (h : body s = .next s') (hrest : Ends body s' b) : Ends body s b

variable {body : σ → Turn σ β}

/-- **A loop whose every turn makes progress ends**, and a function that follows it for a number of turns above the
measure has its value. -/
theorem ends_of_bounded {f : Nat → σ → β} {m : σ → Nat} (hdone : ∀ n s b, body s = .done b → f (n + 1) s = b)
    (hnext : ∀ n s s', body s = .next s' → m s' < m s ∧ f (n + 1) s = f n s') :
    ∀ (n : Nat) (s : σ), m s < n → Ends body s (f n s)
  | 0, _, h => absurd h (Nat.not_lt_zero _)
  | n + 1, s, h => by
    cases hs : body s with
    | done b =>
      rw [hdone n s b hs]
      exact .done hs
    | next s' =>
      obtain ⟨hless, hf⟩ := hnext n s s' hs
      rw [hf]
      exact .next hs (ends_of_bounded hdone hnext n s' (Nat.lt_of_lt_of_le hless (Nat.le_of_lt_succ h)))

end While
