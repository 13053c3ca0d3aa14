import Mathlib.Order.Lattice
import Mathlib.Tactic.Common
/-!
# FirstLeast — the first place where a function is least

What a loop that keeps the first least value it has seen knows: it takes the next place if the value there is smaller,
and keeps its own otherwise.
-/

/-- Among the places below `n`, `b` is the first one where `f` is least. -/
structure FirstLeast {α : Type} [LinearOrder α] (f : Nat → α) (n b : Nat) : Prop where
  lt : b < n
  least : ∀ j < n, f b ≤ f j
  first : ∀ j < b, f b < f j

namespace FirstLeast

variable {α : Type} [LinearOrder α] {f : Nat → α} {n b : Nat}

theorem one : FirstLeast f 1 0 where
  lt := Nat.zero_lt_one
  least := fun j hj => by rw [Nat.lt_one_iff.1 hj]
  first := fun j hj => absurd hj (Nat.not_lt_zero j)

theorem take (h : FirstLeast f n b) (hlt : f n < f b) : FirstLeast f (n + 1) n where
  lt := Nat.lt_succ_self n
  least := by
    intro j hj
    rcases Nat.lt_succ_iff_lt_or_eq.1 hj with hj | rfl
    · exact le_trans (le_of_lt hlt) (h.least j hj)
    · exact le_refl _
  first := fun j hj => lt_of_lt_of_le hlt (h.least j hj)

theorem keep (h : FirstLeast f n b) (hle : ¬ f n < f b) : FirstLeast f (n + 1) b where
  lt := Nat.lt_succ_of_lt h.lt
  least := by
    intro j hj
    rcases Nat.lt_succ_iff_lt_or_eq.1 hj with hj | rfl
    · exact h.least j hj
    · exact le_of_not_gt hle
  first := h.first

end FirstLeast
