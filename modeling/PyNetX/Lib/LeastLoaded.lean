import Mathlib.Algebra.Order.BigOperators.Group.List
import Mathlib.Algebra.Order.Ring.Nat
import Mathlib.Tactic.Common
/-!
# LeastLoaded — the least loaded place takes the next

Loads that grow by one at a least loaded place stay near each other: what leaves a place widens the gap by one at most,
and what comes never does (`Within`).  And as long as the places together hold less than they may, the place that takes
has room (`capped_take`): the least of the loads is no more than their average.
-/
namespace LeastLoaded

/-- No load is more than `k` above another. -/
def Within (k : Nat) (loads : List Nat) : Prop := ∀ a ∈ loads, ∀ b ∈ loads, a ≤ b + k

/-- Place `i` is a least loaded one, with `least`. -/
structure Least (loads : List Nat) (i least : Nat) : Prop where
  at_place : loads[i]? = some least
  le : ∀ c ∈ loads, least ≤ c

variable {loads : List Nat} {i least k cap : Nat}

theorem mem_modify {f : Nat → Nat} {c : Nat} (h : c ∈ loads.modify i f) :
    c ∈ loads ∨ ∃ d, loads[i]? = some d ∧ c = f d := by
  obtain ⟨j, hj⟩ := List.mem_iff_getElem?.1 h
  rw [List.getElem?_modify] at hj
  obtain ⟨d, hd, hc⟩ := Option.map_eq_some_iff.1 hj
  split at hc
  · rename_i he
    exact Or.inr ⟨d, he ▸ hd, hc.symm⟩
  · exact Or.inl (hc ▸ List.mem_of_getElem? hd)

theorem Within.mono {k' : Nat} (h : Within k loads) (hk : k ≤ k') : Within k' loads :=
  fun a ha b hb => Nat.le_trans (h a ha b hb) (Nat.add_le_add_left hk b)

/-- **What comes to a least loaded place keeps the loads within their bound.** -/
theorem Within.take (h : Within (k + 1) loads) (hl : Least loads i least) :
    Within (k + 1) (loads.modify i (· + 1)) := by
  intro a ha b hb
  rcases mem_modify ha with ha | ⟨d, hd, rfl⟩ <;> rcases mem_modify hb with hb | ⟨e, he, rfl⟩
  · exact h a ha b hb
  · have := h a ha e (List.mem_of_getElem? he)
    omega
  · have := hl.le b hb
    have hleast : least = d := Option.some.inj (hl.at_place.symm.trans hd)
    omega
  · have : d = e := Option.some.inj (hd.symm.trans he)
    omega

/-- **What leaves a place widens the bound by one.** -/
theorem Within.leave (h : Within k loads) (i : Nat) : Within (k + 1) (loads.modify i (· - 1)) := by
  intro a ha b hb
  rcases mem_modify ha with ha | ⟨d, hd, rfl⟩ <;> rcases mem_modify hb with hb | ⟨e, he, rfl⟩
  · exact Nat.le_succ_of_le (h a ha b hb)
  · have := h a ha e (List.mem_of_getElem? he)
    omega
  · have := h d (List.mem_of_getElem? hd) b hb
    omega
  · have : d = e := Option.some.inj (hd.symm.trans he)
    omega

/-- **The least is no more than the average.** -/
theorem Least.mul_length_le (h : Least loads i least) : least * loads.length ≤ loads.sum := by
  have hsum : loads.length * least ≤ loads.sum := List.card_nsmul_le_sum loads least h.le
  rwa [Nat.mul_comm] at hsum

/-- **The place that takes has room**, as long as all together have. -/
theorem capped_take (hcap : ∀ c ∈ loads, c ≤ cap) (hl : Least loads i least) (hsum : loads.sum < cap * loads.length) :
    ∀ c ∈ loads.modify i (· + 1), c ≤ cap := by
  intro c hc
  rcases mem_modify hc with hc | ⟨d, hd, rfl⟩
  · exact hcap c hc
  · obtain rfl : least = d := Option.some.inj (hl.at_place.symm.trans hd)
    by_contra hover
    have hmul : cap * loads.length ≤ least * loads.length := Nat.mul_le_mul_right _ (by omega)
    have := hl.mul_length_le
    omega

theorem capped_leave (hcap : ∀ c ∈ loads, c ≤ cap) (i : Nat) : ∀ c ∈ loads.modify i (· - 1), c ≤ cap := by
  intro c hc
  rcases mem_modify hc with hc | ⟨d, hd, rfl⟩
  · exact hcap c hc
  · exact Nat.le_trans (Nat.sub_le d 1) (hcap d (List.mem_of_getElem? hd))

end LeastLoaded
