import Mathlib.Data.List.Nodup
import PyNetX.Lib.LeadsTo
/-!
# Monitor — waiting for elements on a condition variable

Threads that find nothing to take block on a condition variable; a section that brings elements notifies behind its
release of the mutex, one thread for each element or all of them.  A woken thread looks again, and another one may have
come first.  Nobody sleeps on elements that nobody is on the way to: what is there is covered by the woken threads and
by the notifications that are due (`Move.covered`), and by those of all threads alone where there are no others
(`Move.flushed`).  On a schedule that lets the notifications and the woken threads go on, what is there is taken
(`View.leads`).
-/
namespace Monitor

variable {τ : Type}

/-- How many elements there are; the threads on the condition variable, those woken that have not looked yet; and the
notifications that are due, of one thread and of all. -/
structure State (τ : Type) where
  avail : Nat := 0
  blocked : List τ := []
  woken : List τ := []
  ones : Nat := 0
  alls : Nat := 0

/-- Where threads sleep, the elements are covered by the woken threads and by the notifications that are due. -/
def Covered (s : State τ) : Prop := s.blocked = [] ∨ s.avail ≤ s.woken.length + s.ones ∨ 0 < s.alls

/-- Where threads sleep, there is nothing, or a notification of all is due. -/
def Flushed (s : State τ) : Prop := s.blocked = [] ∨ s.avail = 0 ∨ 0 < s.alls

theorem Flushed.covered {s : State τ} (h : Flushed s) : Covered s := by
  refine Or.imp id (Or.imp_left fun hzero => ?_) h
  rw [hzero]
  exact Nat.zero_le _

section Moves

variable [DecidableEq τ]

/-- What happens at once: a section that leaves `avail` elements, no more new ones than it will notify for; a thread that
comes and takes or blocks; a notification; a thread that wakes without one; and a woken thread's look. -/
inductive Move : State τ → State τ → Prop where
  | brings {s : State τ} (avail ones alls : Nat) (h : avail ≤ s.avail + ones ∨ 0 < s.alls + alls) :
      Move s { s with avail := avail, ones := s.ones + ones, alls := s.alls + alls }
  | takes {s : State τ} (h : 0 < s.avail) : Move s { s with avail := s.avail - 1 }
  | blocks {s : State τ} (t : τ) (h : s.avail = 0) : Move s { s with blocked := s.blocked ++ [t] }
  | notifies {s : State τ} {t : τ} {n : Nat} (hn : s.ones = n + 1) (ht : t ∈ s.blocked) :
      Move s { s with blocked := s.blocked.erase t, woken := s.woken ++ [t], ones := n }
  | notifiesNobody {s : State τ} (n : Nat) (h : s.blocked = []) : Move s { s with ones := n }
  | notifiesAll {s : State τ} (n : Nat) :
      Move s { s with blocked := [], woken := s.woken ++ s.blocked, alls := n }
  | stirs {s : State τ} {t : τ} (ht : t ∈ s.blocked) :
      Move s { s with blocked := s.blocked.erase t, woken := s.woken ++ [t] }
  | looksTakes {s : State τ} {t : τ} (ht : t ∈ s.woken) (h : 0 < s.avail) :
      Move s { s with avail := s.avail - 1, woken := s.woken.erase t }
  | looksBlocks {s : State τ} {t : τ} (ht : t ∈ s.woken) (h : s.avail = 0) :
      Move s { s with blocked := s.blocked ++ [t], woken := s.woken.erase t }
  | looksLeaves {s : State τ} {t : τ} (ht : t ∈ s.woken) (h : s.avail = 0) :
      Move s { s with woken := s.woken.erase t }

variable {s s' : State τ}

theorem length_erase_woken {t : τ} (ht : t ∈ s.woken) : (s.woken.erase t).length + 1 = s.woken.length := by
  have := List.length_pos_of_mem ht
  rw [List.length_erase_of_mem ht]
  omega

/-- **Every move keeps the elements covered.** -/
theorem Move.covered (hm : Move s s') (h : Covered s) : Covered s' := by
  unfold Covered at h ⊢
  cases hm with
  | brings avail ones alls hb =>
    rcases h with h | h | h
    · exact Or.inl h
    · refine Or.inr (hb.imp (fun hb => ?_) id)
      simp only
      omega
    · exact Or.inr (Or.inr (Nat.add_pos_left h alls))
  | takes ht =>
    refine h.imp id (Or.imp_left fun h => ?_)
    simp only
    omega
  | blocks t h0 =>
    refine Or.inr (Or.inl ?_)
    rw [h0]
    exact Nat.zero_le _
  | notifies hn ht =>
    rcases h with h | h | h
    · rw [h] at ht
      cases ht
    · refine Or.inr (Or.inl ?_)
      simp only [List.length_append, List.length_singleton]
      omega
    · exact Or.inr (Or.inr h)
  | notifiesNobody n hb => exact Or.inl hb
  | notifiesAll n => exact Or.inl rfl
  | stirs ht =>
    rcases h with h | h | h
    · rw [h] at ht
      cases ht
    · refine Or.inr (Or.inl ?_)
      simp only [List.length_append, List.length_singleton]
      omega
    · exact Or.inr (Or.inr h)
  | looksTakes ht h0 =>
    have hlen := length_erase_woken ht
    refine h.imp id (Or.imp_left fun h => ?_)
    simp only
    omega
  | looksBlocks ht h0 | looksLeaves ht h0 =>
    refine Or.inr (Or.inl ?_)
    rw [h0]
    exact Nat.zero_le _

/-- **With notifications of all alone, nobody sleeps on anything** unless one is due. -/
theorem Move.flushed (hm : Move s s') (hones : s'.ones = 0) (h : Flushed s) : Flushed s' := by
  unfold Flushed at h ⊢
  cases hm with
  | brings avail ones alls hb =>
    simp only at hones
    rcases h with h | h | h
    · exact Or.inl h
    · refine Or.inr (hb.imp (fun hb => ?_) id)
      simp only
      omega
    · exact Or.inr (Or.inr (Nat.add_pos_left h alls))
  | takes ht =>
    refine h.imp id (Or.imp_left fun h => ?_)
    simp only
    omega
  | blocks t h0 => exact Or.inr (Or.inl h0)
  | notifies hn ht | stirs ht =>
    rcases h with h | h | h
    · rw [h] at ht
      cases ht
    · exact Or.inr (Or.inl h)
    · exact Or.inr (Or.inr h)
  | notifiesNobody n hb => exact Or.inl hb
  | notifiesAll n => exact Or.inl rfl
  | looksTakes ht h0 =>
    refine h.imp id (Or.imp_left fun h => ?_)
    simp only
    omega
  | looksBlocks ht h0 | looksLeaves ht h0 => exact Or.inr (Or.inl h0)

/-- Nothing that counts here has happened. -/
theorem Move.idle (s : State τ) : Move s s := .brings s.avail 0 0 (Or.inl (Nat.le_refl _))

/-- A section that brings nothing. -/
theorem Move.drops (s : State τ) {avail : Nat} (h : avail ≤ s.avail) : Move s { s with avail := avail } :=
  .brings avail 0 0 (Or.inl h)

/-! ## Where the threads are -/

/-- The threads that sleep and those that are woken are the ones that wait, each in one place. -/
structure Threads (blocked woken : List τ) (waits : τ → Prop) : Prop where
  nodup : (blocked ++ woken).Nodup
  mem : ∀ t, waits t ↔ t ∈ blocked ++ woken

variable {blocked woken blocked' woken' : List τ} {waits waits' : τ → Prop} {t : τ}

omit [DecidableEq τ] in
theorem threads_nil (h : ∀ t, ¬ waits t) : Threads [] [] waits :=
  ⟨List.nodup_nil, fun t => ⟨fun ht => absurd ht (h t), fun ht => absurd ht List.not_mem_nil⟩⟩

omit [DecidableEq τ] in
theorem Threads.perm (h : Threads blocked woken waits) (hp : (blocked' ++ woken').Perm (blocked ++ woken)) :
    Threads blocked' woken' waits :=
  ⟨hp.nodup_iff.2 h.nodup, fun t => (h.mem t).trans hp.mem_iff.symm⟩

omit [DecidableEq τ] in
theorem Threads.congr (h : Threads blocked woken waits) (hw : ∀ t, waits' t ↔ waits t) :
    Threads blocked woken waits' :=
  ⟨h.nodup, fun t => (hw t).trans (h.mem t)⟩

theorem perm_wake (ht : t ∈ blocked) : (blocked.erase t ++ (woken ++ [t])).Perm (blocked ++ woken) := by
  have hcut : (blocked ++ woken).Perm (t :: (blocked.erase t ++ woken)) :=
    (List.perm_cons_erase ht).append_right woken
  rw [← List.append_assoc]
  exact List.perm_append_comm.trans hcut.symm

omit [DecidableEq τ] in
/-- A thread that did not wait goes to sleep. -/
theorem Threads.sleeps (h : Threads blocked woken waits) (ht : ¬ waits t) (hw : ∀ u, waits' u ↔ u = t ∨ waits u) :
    Threads (blocked ++ [t]) woken waits' := by
  have hperm : (blocked ++ [t] ++ woken).Perm (t :: (blocked ++ woken)) := by
    rw [List.append_assoc]
    exact List.perm_middle
  refine ⟨hperm.nodup_iff.2 (List.nodup_cons.2 ⟨fun hmem => ht ((h.mem t).2 hmem), h.nodup⟩), fun u => ?_⟩
  rw [hw u, hperm.mem_iff, List.mem_cons, h.mem u]

/-- A woken thread waits no more. -/
theorem Threads.leaves (h : Threads blocked woken waits) (ht : t ∈ woken) :
    Threads blocked (woken.erase t) (fun u => waits u ∧ u ≠ t) := by
  obtain ⟨hb, hw, hdisjoint⟩ := List.nodup_append.1 h.nodup
  refine ⟨List.nodup_append.2 ⟨hb, hw.erase _, fun a ha b hbb => hdisjoint a ha b (List.mem_of_mem_erase hbb)⟩,
    fun u => ?_⟩
  rw [h.mem u, List.mem_append, List.mem_append, hw.mem_erase_iff]
  constructor
  · rintro ⟨hub | huw, hne⟩
    · exact Or.inl hub
    · exact Or.inr ⟨hne, huw⟩
  · rintro (hub | ⟨hne, huw⟩)
    · exact ⟨Or.inl hub, fun he => hdisjoint u hub t ht he⟩
    · exact ⟨Or.inr huw, hne⟩

end Moves

/-! ## What is there is taken -/

/-- A system seen through its condition variable: its state there, how many elements its threads have taken, and which of
its inputs are notifications and looks of a woken thread. -/
structure View (σ ι τ : Type) where
  monitor : σ → State τ
  taken : σ → Nat
  notifies : ι → Prop
  looks : ι → τ → Prop

namespace View

variable {σ ι : Type} (v : View σ ι τ)

/-- There are elements, threads wait for them, and `n` have been taken. -/
structure Waiting (n : Nat) (s : σ) : Prop where
  avail : 0 < (v.monitor s).avail
  waits : (v.monitor s).blocked ++ (v.monitor s).woken ≠ []
  taken : v.taken s = n

/-- One more has been taken, or there are none. -/
def Served (n : Nat) (s : σ) : Prop := n < v.taken s ∨ (v.monitor s).avail = 0

/-- How far the threads that wait are from a look. -/
def asleep (s : σ) : Nat := if (v.monitor s).woken = [] then 1 else 0

/-- The input that is wanted: a notification that is due while all sleep, or a woken thread's look. -/
def Helps (s : σ) (i : ι) : Prop :=
  ((v.monitor s).woken = [] ∧ 0 < (v.monitor s).ones + (v.monitor s).alls ∧ v.notifies i) ∨
    ∃ t ∈ (v.monitor s).woken, v.looks i t

/-- What an input comes to for threads that wait: one is served, or they wait on, and an input that is wanted has woken
one. -/
def GoesOn (n : Nat) (s s' : σ) (i : ι) : Prop :=
  v.Served n s' ∨ (v.Waiting n s' ∧ v.asleep s' ≤ v.asleep s ∧ (v.Helps s i → v.asleep s' < v.asleep s))

variable {v} {step : σ → ι → σ} {s₀ : σ} {is : Nat → ι} {I : σ → Prop}

open LeadsTo (after Leads)

variable (v step s₀ is) in
/-- A schedule on which a notification that is due comes, and a woken thread looks, sooner or later. -/
structure Fair : Prop where
  notifies : ∀ n, 0 < (v.monitor (after step s₀ is n)).ones + (v.monitor (after step s₀ is n)).alls →
    ∃ m, n ≤ m ∧ 0 < (v.monitor (after step s₀ is m)).ones + (v.monitor (after step s₀ is m)).alls ∧ v.notifies (is m)
  looks : ∀ n, (v.monitor (after step s₀ is n)).woken ≠ [] →
    ∃ m, n ≤ m ∧ ∃ t ∈ (v.monitor (after step s₀ is m)).woken, v.looks (is m) t

/-- **On a fair schedule an input that is wanted comes.** -/
theorem Fair.helps (hfair : v.Fair step s₀ is) {n k : Nat} (hcovered : Covered (v.monitor (after step s₀ is n)))
    (h : v.Waiting k (after step s₀ is n)) : ∃ m, n ≤ m ∧ v.Helps (after step s₀ is m) (is m) := by
  by_cases hwoken : (v.monitor (after step s₀ is n)).woken = []
  · -- all sleep, so that a notification is due
    have hdue : 0 < (v.monitor (after step s₀ is n)).ones + (v.monitor (after step s₀ is n)).alls := by
      have havail := h.avail
      have hwaits := h.waits
      rw [hwoken, List.append_nil] at hwaits
      rcases hcovered with hb | hc | ha
      · exact absurd hb hwaits
      · rw [hwoken, List.length_nil] at hc
        omega
      · omega
    obtain ⟨m, hm, hdue', hnotifies⟩ := hfair.notifies n hdue
    by_cases hw : (v.monitor (after step s₀ is m)).woken = []
    · exact ⟨m, hm, Or.inl ⟨hw, hdue', hnotifies⟩⟩
    · obtain ⟨m', hm', hlook⟩ := hfair.looks m hw
      exact ⟨m', Nat.le_trans hm hm', Or.inr hlook⟩
  · obtain ⟨m, hm, hlook⟩ := hfair.looks n hwoken
    exact ⟨m, hm, Or.inr hlook⟩

/-- **What is there is taken**: threads that wait for elements that are there are served, or the elements go. -/
theorem leads (hkeeps : ∀ s i, I s → I (step s i)) (hcovered : ∀ s, I s → Covered (v.monitor s)) (k : Nat)
    (hgoes : ∀ s i, I s → v.Waiting k s → v.GoesOn k s (step s i) i) (hfair : v.Fair step s₀ is) :
    Leads step s₀ is (fun s => I s ∧ v.Waiting k s) (v.Served k) := by
  refine LeadsTo.leadsTo_of_rank v.asleep v.Helps (fun s i h => ?_)
    (fun n h => hfair.helps (hcovered _ h.1) h.2)
  exact (hgoes s i h.1 h.2).imp id fun hstay => ⟨⟨hkeeps s i h.1, hstay.1⟩, hstay.2⟩

variable {n : Nat} {s s' : σ} {i : ι}

/-- Nothing that counts here has happened. -/
theorem GoesOn.of_same (h : v.Waiting n s) (hm : v.monitor s' = v.monitor s) (ht : v.taken s' = v.taken s)
    (hhelps : ¬ v.Helps s i) : v.GoesOn n s s' i := by
  refine Or.inr ⟨⟨by rw [hm]; exact h.avail, by rw [hm]; exact h.waits, ht.trans h.taken⟩, ?_, fun hh => absurd hh hhelps⟩
  rw [asleep, asleep, hm]

/-- The threads that wait are the same ones, perhaps in other places, and no fewer of them are woken. -/
theorem GoesOn.of_perm (h : v.Waiting n s) (ht : v.taken s' = v.taken s)
    (hwaits : ((v.monitor s').blocked ++ (v.monitor s').woken).Perm ((v.monitor s).blocked ++ (v.monitor s).woken))
    (hwoken : (v.monitor s').woken = [] → (v.monitor s).woken = [])
    (hhelps : v.Helps s i → (v.monitor s).woken = [] ∧ (v.monitor s').woken ≠ []) : v.GoesOn n s s' i := by
  by_cases havail : (v.monitor s').avail = 0
  · exact Or.inl (Or.inr havail)
  refine Or.inr ⟨⟨Nat.pos_of_ne_zero havail, fun hnone => h.waits ?_, ht.trans h.taken⟩, ?_, fun hh => ?_⟩
  · rw [hnone] at hwaits
    exact hwaits.nil_eq.symm
  · unfold asleep
    by_cases hw : (v.monitor s').woken = []
    · rw [if_pos hw, if_pos (hwoken hw)]
    · rw [if_neg hw]
      exact Nat.zero_le _
  · obtain ⟨hnone, hsome⟩ := hhelps hh
    rw [asleep, asleep, if_neg hsome, if_pos hnone]
    exact Nat.zero_lt_one

end View

end Monitor
