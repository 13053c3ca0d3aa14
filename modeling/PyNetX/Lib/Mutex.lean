import Mathlib.Tactic.Common
/-!
# Mutex — a lock, and the threads inside what it guards

A lock is the thread that holds it, if one does.  `Guards m inside` says that it tells who is inside; a thread that
enters takes a free lock, one that leaves sets it free, and two are never inside.
-/
namespace Mutex

variable {τ : Type}

/-- The lock's holder is inside, and nobody else is. -/
def Guards (m : Option τ) (inside : τ → Prop) : Prop := ∀ t, inside t ↔ m = some t

variable {m : Option τ} {inside inside' : τ → Prop} {t u : τ}

theorem Guards.holder (h : Guards m inside) (ht : inside t) : m = some t := (h t).1 ht

/-- **Two threads are never inside.** -/
theorem Guards.unique (h : Guards m inside) (ht : inside t) (hu : inside u) : t = u :=
  Option.some.inj ((h.holder ht).symm.trans (h.holder hu))

theorem Guards.outside (h : Guards m inside) (hm : m = none) : ¬ inside t := fun ht => by
  rw [h.holder ht] at hm
  cases hm

theorem Guards.congr (h : Guards m inside) (hi : ∀ t, inside' t ↔ inside t) : Guards m inside' :=
  fun t => (hi t).trans (h t)

theorem Guards.enter (h : Guards none inside) (hin : inside' t) (hi : ∀ u, u ≠ t → (inside' u ↔ inside u)) :
    Guards (some t) inside' := by
  intro u
  by_cases hu : u = t
  · subst hu
    exact ⟨fun _ => rfl, fun _ => hin⟩
  · rw [hi u hu]
    exact ⟨fun hiu => absurd hiu (h.outside rfl), fun he => absurd (Option.some.inj he).symm hu⟩

theorem Guards.leave (h : Guards (some t) inside) (hout : ¬ inside' t) (hi : ∀ u, u ≠ t → (inside' u ↔ inside u)) :
    Guards none inside' := by
  intro u
  by_cases hu : u = t
  · subst hu
    exact ⟨fun hin => absurd hin hout, nofun⟩
  · rw [hi u hu]
    exact ⟨fun hiu => absurd (h.unique hiu ((h t).2 rfl)) hu, nofun⟩

end Mutex
