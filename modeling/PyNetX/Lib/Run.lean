import Mathlib.Data.List.Basic
import Mathlib.Data.List.Infix
import Mathlib.Tactic.Common
/-!
# Run — a system that takes step after step

A system is a step function on its states; a run folds it over a list of inputs.  `run_invariant` lifts what every step
keeps to every run, and `along_invariant` what every step keeps that meets a condition on the state in front of it.
-/
namespace Run

variable {σ ι : Type}

/-- The state reached from `s` by the inputs, in order. -/
def run (step : σ → ι → σ) (s : σ) (is : List ι) : σ := is.foldl step s

variable {step : σ → ι → σ} {s : σ}

@[simp] theorem run_nil : run step s [] = s := rfl

@[simp] theorem run_cons (i : ι) (is : List ι) : run step s (i :: is) = run step (step s i) is := rfl

theorem run_append (is js : List ι) : run step s (is ++ js) = run step (run step s is) js :=
  List.foldl_append

theorem run_concat (is : List ι) (i : ι) : run step s (is ++ [i]) = step (run step s is) i := by
  rw [run_append]
  rfl

/-- **What holds at the start and is kept by every step holds after every run.** -/
theorem run_invariant {I : σ → Prop} (hstep : ∀ s i, I s → I (step s i)) : ∀ (is : List ι) (s : σ), I s →
    I (run step s is)
  | [], _, h => h
  | i :: is, s, h => run_invariant hstep is (step s i) (hstep s i h)

/-- A place in a list with one more element is the last one, or a place in front of it. -/
theorem split_concat {α : Type} {xs pre post : List α} {x y : α} (h : xs ++ [x] = pre ++ y :: post) :
    pre = xs ∧ y = x ∧ post = [] ∨ ∃ post', post = post' ++ [x] ∧ xs = pre ++ y :: post' := by
  rcases List.eq_nil_or_concat post with rfl | ⟨post', z, rfl⟩
  · obtain ⟨hpre, hlast⟩ := List.append_inj' h rfl
    exact Or.inl ⟨hpre.symm, (List.singleton_inj.1 hlast).symm, rfl⟩
  · have hcut : xs ++ [x] = (pre ++ y :: post') ++ [z] := by rw [h]; simp
    obtain ⟨hpre, hlast⟩ := List.append_inj' hcut rfl
    exact Or.inr ⟨post', by rw [List.singleton_inj.1 hlast, List.concat_eq_append], hpre⟩

/-- Every step of the run meets `G`, a condition on the state in front of it and on its input. -/
def Along (step : σ → ι → σ) (G : σ → ι → Prop) (s : σ) (is : List ι) : Prop :=
  ∀ pre i post, is = pre ++ i :: post → G (run step s pre) i

theorem along_nil {G : σ → ι → Prop} : Along step G s [] :=
  fun pre i post h => by cases pre <;> cases h

theorem along_cons {G : σ → ι → Prop} {i : ι} {is : List ι} :
    Along step G s (i :: is) ↔ G s i ∧ Along step G (step s i) is := by
  constructor
  · intro h
    exact ⟨h [] i is rfl, fun pre j post hj => h (i :: pre) j post (by rw [hj]; rfl)⟩
  · rintro ⟨hi, h⟩ pre j post hj
    cases pre with
    | nil => cases hj; exact hi
    | cons x pre => cases hj; exact h pre j post rfl

theorem Along.and {G H : σ → ι → Prop} {is : List ι} (hG : Along step G s is) (hH : Along step H s is) :
    Along step (fun s i => G s i ∧ H s i) s is :=
  fun pre i post h => ⟨hG pre i post h, hH pre i post h⟩

theorem along_concat {G : σ → ι → Prop} {is : List ι} {i : ι} :
    Along step G s (is ++ [i]) ↔ Along step G s is ∧ G (run step s is) i := by
  constructor
  · intro h
    exact ⟨fun pre j post hj => h pre j (post ++ [i]) (by rw [hj]; simp), h is i [] rfl⟩
  · rintro ⟨h, hi⟩ pre j post hj
    obtain ⟨rfl, rfl, -⟩ | ⟨post', -, hfront⟩ := split_concat hj
    · exact hi
    · exact h pre j post' hfront

theorem Along.of_front {G : σ → ι → Prop} {is js : List ι} (h : Along step G s is) (hp : js <+: is) :
    Along step G s js := by
  obtain ⟨ks, rfl⟩ := hp
  exact fun pre i post hi => h pre i (post ++ ks) (by rw [hi]; simp)

/-- **What every step keeps that meets the condition holds after every run whose steps all meet it.** -/
theorem along_invariant {I : σ → Prop} {G : σ → ι → Prop} (hstep : ∀ s i, I s → G s i → I (step s i)) (h0 : I s) :
    ∀ is : List ι, Along step G s is → I (run step s is) := by
  intro is
  induction is using List.reverseRecOn with
  | nil => intro _; exact h0
  | append_singleton is i ih =>
    intro h
    obtain ⟨his, hi⟩ := along_concat.1 h
    rw [run_concat]
    exact hstep _ i (ih his) hi

end Run
