import Mathlib.Order.WellFounded
import Mathlib.Data.List.Range
import PyNetX.Lib.Run
/-!
# LeadsTo — what comes sooner or later

A schedule gives a system an input at every time, without end.  `P` leads to `Q` on it when a state of `P` is one of `Q`
or comes to one; `leadsTo_of_rank` shows it by a rank that no step makes greater and that a step that helps makes less,
on a schedule where such a step never stays out.
-/
namespace LeadsTo

open Run (run Along)

variable {σ ι α : Type}

/-- The state in front of the schedule's input `n`. -/
def after (step : σ → ι → σ) (s : σ) (is : Nat → ι) (n : Nat) : σ := run step s ((List.range n).map is)

/-- Whenever a state is in `P`, that one or a later one is in `Q`. -/
def Leads (step : σ → ι → σ) (s : σ) (is : Nat → ι) (P Q : σ → Prop) : Prop :=
  ∀ n, P (after step s is n) → ∃ m, n ≤ m ∧ Q (after step s is m)

variable {step : σ → ι → σ} {s : σ} {is : Nat → ι} {P Q R : σ → Prop}

theorem after_succ (n : Nat) : after step s is (n + 1) = step (after step s is n) (is n) := by
  rw [after, List.range_succ, List.map_append]
  exact Run.run_concat _ _

/-- What a schedule comes to depends on its front alone. -/
theorem after_congr {is' : Nat → ι} {n : Nat} (h : ∀ k < n, is k = is' k) : after step s is n = after step s is' n := by
  rw [after, after, List.map_congr_left fun k hk => h k (List.mem_range.1 hk)]

/-- A condition that every turn of the schedule meets is met along every front of it. -/
theorem along_range {G : σ → ι → Prop} (h : ∀ n, G (after step s is n) (is n)) :
    ∀ n, Along step G s ((List.range n).map is)
  | 0 => Run.along_nil
  | n + 1 => by
    rw [List.range_succ, List.map_append]
    exact Run.along_concat.2 ⟨along_range h n, h n⟩

theorem Leads.trans (hPQ : Leads step s is P Q) (hQR : Leads step s is Q R) : Leads step s is P R := by
  intro n hn
  obtain ⟨m, hm, hQ⟩ := hPQ n hn
  obtain ⟨k, hk, hR⟩ := hQR m hQ
  exact ⟨k, Nat.le_trans hm hk, hR⟩

/-- Until `Q` comes, `P` stays, and the rank falls with the first step that helps. -/
theorem falls_or_comes [Preorder α] {rank : σ → α} {helps : σ → ι → Prop}
    (hstep : ∀ s i, P s → Q (step s i) ∨
      (P (step s i) ∧ rank (step s i) ≤ rank s ∧ (helps s i → rank (step s i) < rank s)))
    {n : Nat} (hn : P (after step s is n)) : ∀ k, helps (after step s is (n + k)) (is (n + k)) →
      ∃ m, n ≤ m ∧ (Q (after step s is m) ∨
        P (after step s is m) ∧ rank (after step s is m) < rank (after step s is n)) := by
  -- `P` up to time `n + k`, with a rank no greater
  have hstays : ∀ k, (∃ m, n ≤ m ∧ Q (after step s is m)) ∨
      (P (after step s is (n + k)) ∧ rank (after step s is (n + k)) ≤ rank (after step s is n)) := by
    intro k
    induction k with
    | zero => exact Or.inr ⟨hn, le_refl _⟩
    | succ k ih =>
      refine ih.elim Or.inl fun ⟨hP, hle⟩ => ?_
      rw [← Nat.add_assoc, after_succ]
      refine (hstep _ (is (n + k)) hP).imp (fun hQ => ?_) (fun ⟨hP', hle', _⟩ => ⟨hP', le_trans hle' hle⟩)
      exact ⟨n + k + 1, by omega, by rwa [after_succ]⟩
  intro k hhelps
  rcases hstays k with ⟨m, hm, hQ⟩ | ⟨hP, hle⟩
  · exact ⟨m, hm, Or.inl hQ⟩
  · refine ⟨n + k + 1, by omega, ?_⟩
    rw [after_succ]
    exact (hstep _ (is (n + k)) hP).imp id fun ⟨hP', _, hlt⟩ => ⟨hP', lt_of_lt_of_le (hlt hhelps) hle⟩

/-- **The rule of the rank**, in a well-founded order. -/
theorem leadsTo_of_rank [Preorder α] [WellFoundedLT α] (rank : σ → α) (helps : σ → ι → Prop)
    (hstep : ∀ s i, P s → Q (step s i) ∨
      (P (step s i) ∧ rank (step s i) ≤ rank s ∧ (helps s i → rank (step s i) < rank s)))
    (hfair : ∀ n, P (after step s is n) → ∃ m, n ≤ m ∧ helps (after step s is m) (is m)) : Leads step s is P Q := by
  suffices h : ∀ a n, rank (after step s is n) = a → P (after step s is n) → ∃ m, n ≤ m ∧ Q (after step s is m) from
    fun n hn => h _ n rfl hn
  intro a
  induction a using WellFoundedLT.induction with
  | ind a ih =>
    rintro n rfl hn
    obtain ⟨m, hm, hhelps⟩ := hfair n hn
    obtain ⟨k, rfl⟩ := Nat.exists_eq_add_of_le hm
    obtain ⟨m', hm', hQ | ⟨hP, hlt⟩⟩ := falls_or_comes hstep hn k hhelps
    · exact ⟨m', hm', hQ⟩
    · obtain ⟨m'', hm'', hQ⟩ := ih _ hlt m' rfl hP
      exact ⟨m'', Nat.le_trans hm' hm'', hQ⟩

/-- A step function on the inputs that meet a condition, seen as one on all of them. -/
theorem after_subtype {G : ι → Prop} (hG : ∀ n, G (is n)) (n : Nat) :
    after (fun s (i : {i // G i}) => step s i.1) s (fun n => ⟨is n, hG n⟩) n = after step s is n := by
  induction n with
  | zero => rfl
  | succ n ih => rw [after_succ, after_succ, ih]

/-- **The rule of the rank, on a schedule whose inputs meet a condition.** -/
theorem leadsTo_of_rank_along [Preorder α] [WellFoundedLT α] {G : ι → Prop} (hG : ∀ n, G (is n)) (rank : σ → α)
    (helps : σ → ι → Prop)
    (hstep : ∀ s i, G i → P s → Q (step s i) ∨
      (P (step s i) ∧ rank (step s i) ≤ rank s ∧ (helps s i → rank (step s i) < rank s)))
    (hfair : ∀ n, P (after step s is n) → ∃ m, n ≤ m ∧ helps (after step s is m) (is m)) : Leads step s is P Q := by
  have h : Leads (fun s (i : {i // G i}) => step s i.1) s (fun n => ⟨is n, hG n⟩) P Q :=
    leadsTo_of_rank rank (fun s i => helps s i.1) (fun s i hP => hstep s i.1 i.2 hP) (fun n hP => by
      rw [after_subtype hG] at hP
      obtain ⟨m, hm, hhelps⟩ := hfair n hP
      exact ⟨m, hm, by rwa [after_subtype hG]⟩)
  intro n hP
  rw [← after_subtype hG] at hP
  obtain ⟨m, hm, hQ⟩ := h n hP
  exact ⟨m, hm, by rwa [after_subtype hG] at hQ⟩

/-- What would change at some later time if it were still the same changes. -/
theorem changes {β : Type} (f : σ → β) {n : Nat} (h : ∃ m, n ≤ m ∧
    (f (after step s is m) = f (after step s is n) → f (after step s is (m + 1)) ≠ f (after step s is m))) :
    ∃ m, n ≤ m ∧ f (after step s is (m + 1)) ≠ f (after step s is m) := by
  by_contra hnever
  have hsame : ∀ m, n ≤ m → f (after step s is (m + 1)) = f (after step s is m) := by
    intro m hm
    by_contra hne
    exact hnever ⟨m, hm, hne⟩
  have hconst : ∀ m, n ≤ m → f (after step s is m) = f (after step s is n) := by
    intro m hm
    induction m, hm using Nat.le_induction with
    | base => rfl
    | succ m hm ih => rw [hsame m hm, ih]
  obtain ⟨m, hm, hchange⟩ := h
  exact hchange (hconst m hm) (hsame m hm)

end LeadsTo
