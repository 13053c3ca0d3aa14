import Mathlib.Tactic.Common
/-!
# Throwing — stateful programs that throw

Programs over `ExceptT ε (StateM σ)`: what was done before an exception stays done.  `exec` runs one from a state, and
its equations say how the run goes through `>>=`, `throw` and `tryCatch`.  A `Triple` says what holds when a program
returns and what holds when it throws.
-/
namespace Throwing

variable {ε σ α β : Type}

/-- A program that may throw `ε` and keeps its state when it does. -/
abbrev Prog (ε σ α : Type) := ExceptT ε (StateM σ) α

/-- How a program ends from a state, and the state it leaves. -/
def exec (x : Prog ε σ α) (s : σ) : Except ε α × σ := x.run.run s

theorem exec_pure (a : α) (s : σ) : exec (pure a : Prog ε σ α) s = (.ok a, s) := rfl

theorem exec_bind (x : Prog ε σ α) (f : α → Prog ε σ β) (s : σ) : exec (x >>= f) s =
    match exec x s with
    | (.ok a, s') => exec (f a) s'
    | (.error e, s') => (.error e, s') := by
  change (match exec x s with | (r, s') => (ExceptT.bindCont f r : StateM σ _) s') = _
  rcases exec x s with ⟨_ | _, s'⟩ <;> rfl

/-- **A handler runs on what was thrown**, in the state it was thrown in. -/
theorem exec_tryCatch (x : Prog ε σ α) (f : ε → Prog ε σ α) (s : σ) : exec (tryCatch x f) s =
    match exec x s with
    | (.ok a, s') => (.ok a, s')
    | (.error e, s') => exec (f e) s' := by
  change (match exec x s with
    | (r, s') => (match r with
      | .ok a => pure (Except.ok a)
      | .error e => (f e : StateM σ _)) s') = _
  rcases exec x s with ⟨_ | _, s'⟩ <;> rfl

theorem exec_tryCatch_bind (x : Prog ε σ α) (f : α → Prog ε σ β) (h : ε → Prog ε σ β) (s : σ) :
    exec (tryCatch (x >>= f) h) s =
      match exec x s with
      | (.ok a, s') => exec (tryCatch (f a) h) s'
      | (.error e, s') => exec (h e) s' := by
  rw [exec_tryCatch, exec_bind]
  rcases exec x s with ⟨_ | a, s'⟩
  · rfl
  · simp only [exec_tryCatch]

theorem exec_get_bind (f : σ → Prog ε σ β) (s : σ) : exec (get >>= f) s = exec (f s) s := rfl

theorem exec_modify_bind (g : σ → σ) (f : Unit → Prog ε σ β) (s : σ) : exec (modify g >>= f) s = exec (f ()) (g s) := rfl

/-! ## Triples -/

/-- From a state with `P`, the program returns with `Q`, or throws with `E`. -/
def Triple (P : σ → Prop) (x : Prog ε σ α) (Q : α → σ → Prop) (E : ε → σ → Prop) : Prop :=
  ∀ s, P s → match exec x s with
    | (.ok a, s') => Q a s'
    | (.error e, s') => E e s'

variable {P P' : σ → Prop} {Q R : α → σ → Prop} {E E' : ε → σ → Prop}

theorem Triple.threw {x : Prog ε σ α} {s s' : σ} {e : ε} (h : Triple P x Q E) (hs : P s)
    (hx : exec x s = (.error e, s')) : E e s' := by
  have he := h s hs
  rw [hx] at he
  exact he

theorem Triple.pure {a : α} (h : ∀ s, P s → Q a s) : Triple P (pure a : Prog ε σ α) Q E := h

theorem Triple.throw {e : ε} (h : ∀ s, P s → E e s) : Triple P (throw e : Prog ε σ α) Q E := h

theorem Triple.bind {x : Prog ε σ α} {f : α → Prog ε σ β} {Q : β → σ → Prop} (hx : Triple P x R E)
    (hf : ∀ a, Triple (R a) (f a) Q E) : Triple P (x >>= f) Q E := by
  intro s hs
  have hr := hx s hs
  rw [exec_bind]
  rcases he : exec x s with ⟨_ | a, s'⟩
  · rw [he] at hr
    exact hr
  · rw [he] at hr
    exact hf a s' hr

theorem Triple.get_bind {f : σ → Prog ε σ β} {Q : β → σ → Prop} (h : ∀ s, P s → Triple (fun s' => s' = s) (f s) Q E) :
    Triple P (get >>= f) Q E := by
  intro s hs
  rw [exec_get_bind]
  exact h s hs s rfl

theorem Triple.modify_bind {g : σ → σ} {f : Unit → Prog ε σ β} {Q : β → σ → Prop} (P' : σ → Prop)
    (h : ∀ s, P s → P' (g s)) (hf : Triple P' (f ()) Q E) : Triple P (modify g >>= f) Q E := by
  intro s hs
  rw [exec_modify_bind]
  exact hf (g s) (h s hs)

/-- **A handler starts from what holds where the exception was thrown.** -/
theorem Triple.tryCatch {x : Prog ε σ α} {f : ε → Prog ε σ α} (hx : Triple P x Q E)
    (hf : ∀ e, Triple (E e) (f e) Q E') : Triple P (tryCatch x f) Q E' := by
  intro s hs
  have hr := hx s hs
  rw [exec_tryCatch]
  rcases he : exec x s with ⟨e | a, s'⟩
  · rw [he] at hr
    exact hf e s' hr
  · rw [he] at hr
    exact hr

theorem Triple.imp {x : Prog ε σ α} (h : Triple P' x R E') (hp : ∀ s, P s → P' s) (hq : ∀ a s, R a s → Q a s)
    (he : ∀ e s, E' e s → E e s) : Triple P x Q E := by
  intro s hs
  have hr := h s (hp s hs)
  rcases hx : exec x s with ⟨e | a, s'⟩
  · rw [hx] at hr
    exact he e s' hr
  · rw [hx] at hr
    exact hq a s' hr

/-- The program keeps `I`, however it ends. -/
def Keeps (I : σ → Prop) (x : Prog ε σ α) : Prop := Triple I x (fun _ => I) (fun _ => I)

variable {I : σ → Prop}

theorem Keeps.pure {a : α} : Keeps I (pure a : Prog ε σ α) := Triple.pure (fun _ h => h)

theorem Keeps.throw {e : ε} : Keeps I (throw e : Prog ε σ α) := Triple.throw (fun _ h => h)

theorem Keeps.get : Keeps I (get : Prog ε σ σ) := fun _ h => h

theorem Keeps.modify {f : σ → σ} (hf : ∀ s, I s → I (f s)) : Keeps I (modify f : Prog ε σ Unit) := hf

theorem Keeps.bind {x : Prog ε σ α} {f : α → Prog ε σ β} (hx : Keeps I x) (hf : ∀ a, Keeps I (f a)) :
    Keeps I (x >>= f) :=
  Triple.bind hx hf

/-- What a program keeps is what the rest starts from. -/
theorem Keeps.bind_triple {x : Prog ε σ α} {f : α → Prog ε σ β} {Q : β → σ → Prop} (hx : Keeps I x)
    (hf : ∀ a, Triple I (f a) Q (fun _ => I)) : Triple I (x >>= f) Q (fun _ => I) :=
  Triple.bind hx hf

theorem Keeps.tryCatch {x : Prog ε σ α} {f : ε → Prog ε σ α} (hx : Keeps I x) (hf : ∀ e, Keeps I (f e)) :
    Keeps I (tryCatch x f) :=
  Triple.tryCatch hx hf

end Throwing
