import PyNetX.Manager
/-!
# ManagerInv — the manager's representation invariant

What relates the two maps, the counts and the handler tables (`RepOk`).  `add` overwrites the entries of a descriptor
that is mapped already and does not undo them, and a rebuild that fails between two reactors leaves the two vectors of
different lengths; nothing else breaks the invariant.
-/
namespace PyNetX

open Run (run Along)
open Tally (tally)

namespace Manager

structure RepOk (m : Manager) : Prop where
  counts : ∀ i count, m.deviceCounts[i]? = some count → count = tally m.fdToReactor i
  keys : ∀ fd, fd ∈ m.fdToReactor ↔ fd ∈ m.fdToClient
  below : ∀ fd i, m.fdToReactor.lookup fd = some i → i < m.reactors.length
  sizes : m.reactors.length = m.deviceCounts.length
  alone : ∀ fd i, m.fdToReactor.lookup fd = some i →
    ∀ j r, m.reactors[j]? = some r → fd ∈ r.handlers → j = i

/-- The invariant that carries it: every handler is for a descriptor mapped to its reactor. -/
structure Tidy (m : Manager) : Prop where
  counts : ∀ i count, m.deviceCounts[i]? = some count → count = tally m.fdToReactor i
  keys : ∀ fd, fd ∈ m.fdToReactor ↔ fd ∈ m.fdToClient
  below : ∀ fd i, m.fdToReactor.lookup fd = some i → i < m.reactors.length
  sizes : m.reactors.length = m.deviceCounts.length
  nonneg : ∀ fd ∈ m.fdToReactor, 0 ≤ fd
  handled : ∀ j r, m.reactors[j]? = some r → ∀ fd ∈ r.handlers, m.fdToReactor.lookup fd = some j

theorem Tidy.repOk {m : Manager} (h : Tidy m) : RepOk m where
  counts := h.counts
  keys := h.keys
  below := h.below
  sizes := h.sizes
  alone := by
    intro fd i hi j r hr hfd
    rw [h.handled j r hr fd hfd] at hi
    exact Option.some.inj hi

end Manager

def Reactor.Takes (r : Reactor) (fd : Int) (expired : Bool) (kernel : Except String Unit) : Prop :=
  0 ≤ fd ∧ expired = false ∧ fd ∉ r.epoll ∧ kernel = .ok ()

theorem Reactor.add_ok_iff {r r' : Reactor} {fd : Int} {client : Nat} {expired : Bool} {kernel : Except String Unit} :
    r.add fd client expired kernel = .ok r' ↔
      r.Takes fd expired kernel ∧ r' = { handlers := r.handlers.insert fd client, epoll := insert fd r.epoll } := by
  unfold Reactor.add Reactor.Takes
  by_cases hfd : fd < 0
  · simp [hfd, Int.not_le.2 hfd]
  · by_cases hexpired : expired = true
    · simp [hfd, hexpired]
    · by_cases hheld : fd ∈ r.epoll
      · simp [hfd, hexpired, hheld]
      · cases kernel with
        | error e => simp [hfd, hexpired, hheld]
        | ok u => simp [hfd, hexpired, hheld, Int.not_lt.1 hfd, eq_comm]

namespace Manager

variable {m : Manager} {fd : Int} {client : Nat} {expired : Bool} {created kernel : Except String Unit}

/-- The manager after `fd` was placed at reactor `best`. -/
def placed (m : Manager) (fd : Int) (client best : Nat) (r : Reactor) : Manager where
  reactors := m.reactors.set best { handlers := r.handlers.insert fd client, epoll := insert fd r.epoll }
  deviceCounts := m.deviceCounts.modify best (· + 1)
  fdToReactor := m.fdToReactor.insert fd best
  fdToClient := m.fdToClient.insert fd client

/-- **What `place` does**: it changes nothing, or the least loaded reactor takes the descriptor. -/
theorem place_cases (m : Manager) (fd : Int) (client : Nat) (expired : Bool) (kernel : Except String Unit) :
    (∃ ended, ended ≠ .returned ∧ m.place fd client expired kernel = (m, ended) ∧
      ∀ r, m.reactors[minElement m.deviceCounts]? = some r → ¬ r.Takes fd expired kernel) ∨
    ∃ r, m.reactors[minElement m.deviceCounts]? = some r ∧ r.Takes fd expired kernel ∧
      m.place fd client expired kernel = (m.placed fd client (minElement m.deviceCounts) r, .returned) := by
  unfold place
  cases hr : m.reactors[minElement m.deviceCounts]? with
  | none => exact Or.inl ⟨.undefined, nofun, by simp only [hr], nofun⟩
  | some r =>
    cases hadd : r.add fd client expired kernel with
    | error what =>
      refine Or.inl ⟨.threw what, nofun, by simp only [hr, hadd], ?_⟩
      rintro r' hr' htakes
      obtain rfl := Option.some.inj hr'
      rw [Reactor.add_ok_iff.2 ⟨htakes, rfl⟩] at hadd
      cases hadd
    | ok r' =>
      obtain ⟨htakes, rfl⟩ := Reactor.add_ok_iff.1 hadd
      exact Or.inr ⟨r, rfl, htakes, by simp only [hr, hadd]; rfl⟩

theorem placed_reactor {best j : Nat} {r r' : Reactor} (hr : m.reactors[best]? = some r)
    (h : (m.placed fd client best r).reactors[j]? = some r') :
    (j = best ∧ r' = { handlers := r.handlers.insert fd client, epoll := insert fd r.epoll }) ∨
      (j ≠ best ∧ m.reactors[j]? = some r') := by
  simp only [placed] at h
  by_cases hj : best = j
  · subst hj
    rw [List.getElem?_set_self (List.getElem?_eq_some_iff.1 hr).1] at h
    exact Or.inl ⟨rfl, (Option.some.inj h).symm⟩
  · rw [List.getElem?_set_ne hj] at h
    exact Or.inr ⟨Ne.symm hj, h⟩

/-- **A descriptor that is not mapped is placed and the invariant kept.** -/
theorem Tidy.placed {best : Nat} {r : Reactor} (h : Tidy m) (hnew : fd ∉ m.fdToReactor)
    (hr : m.reactors[best]? = some r) (hfd : 0 ≤ fd) : Tidy (m.placed fd client best r) where
  counts := by
    intro i count hi
    simp only [Manager.placed, List.getElem?_modify] at hi ⊢
    rw [Tally.tally_insert_of_notMem hnew]
    obtain ⟨old, hold, rfl⟩ := Option.map_eq_some_iff.1 hi
    rw [h.counts i old hold]
    split <;> rfl
  keys := by
    intro fd'
    simp only [Manager.placed, AList.mem_insert, h.keys fd']
  below := by
    intro fd' i hi
    simp only [Manager.placed, List.length_set] at hi ⊢
    by_cases he : fd' = fd
    · subst he
      rw [AList.lookup_insert] at hi
      cases hi
      exact (List.getElem?_eq_some_iff.1 hr).1
    · rw [AList.lookup_insert_ne he] at hi
      exact h.below fd' i hi
  sizes := by simpa [Manager.placed] using h.sizes
  nonneg := by
    intro fd' hfd'
    rcases (AList.mem_insert _).1 hfd' with rfl | hold
    · exact hfd
    · exact h.nonneg fd' hold
  handled := by
    intro j r' hr' fd' hfd'
    have hkeep : ∀ r₀, m.reactors[j]? = some r₀ → fd' ∈ r₀.handlers →
        (m.fdToReactor.insert fd best).lookup fd' = some j := by
      intro r₀ hr₀ hmem
      have hlookup := h.handled j r₀ hr₀ fd' hmem
      have hne : fd' ≠ fd := by
        rintro rfl
        exact hnew (AList.lookup_isSome.1 (by rw [hlookup]; rfl))
      rw [AList.lookup_insert_ne hne]
      exact hlookup
    obtain ⟨rfl, rfl⟩ | ⟨_, hold⟩ := placed_reactor hr hr'
    · rcases (AList.mem_insert _).1 hfd' with rfl | hmem
      · exact AList.lookup_insert _
      · exact hkeep r hr hmem
    · exact hkeep r' hold hfd'

theorem Tidy.place (h : Tidy m) (hnew : fd ∈ m.fdToReactor → ∀ r,
    m.reactors[minElement m.deviceCounts]? = some r → ¬ r.Takes fd expired kernel) :
    Tidy (m.place fd client expired kernel).1 := by
  obtain ⟨ended, _, he, _⟩ | ⟨r, hr, htakes, he⟩ := place_cases m fd client expired kernel
  · rw [he]
    exact h
  · rw [he]
    exact h.placed (fun hmem => hnew hmem r hr htakes) hr htakes.1

theorem tidy_fresh (n : Nat) : Tidy { reactors := List.replicate n {}, deviceCounts := List.replicate n 0 } where
  counts := by
    intro i count hi
    rw [List.getElem?_replicate] at hi
    split at hi
    · exact (Option.some.inj hi).symm
    · cases hi
  keys := fun fd => by simp
  below := nofun
  sizes := by simp
  nonneg := nofun
  handled := by
    intro j r hr fd hfd
    rw [List.getElem?_replicate] at hr
    split at hr
    · obtain rfl := Option.some.inj hr
      cases hfd
    · cases hr

/-! ## The calls that take something out -/

theorem Reactor.mem_remove {r : Reactor} {fd' : Int} (h : fd' ∈ (r.remove fd).handlers) :
    fd' ∈ r.handlers ∧ (0 ≤ fd → fd' ≠ fd) := by
  unfold Reactor.remove at h
  split at h
  · rename_i hneg
    exact ⟨h, fun hfd => by omega⟩
  · obtain ⟨hne, hold⟩ := AList.mem_erase.1 h
    exact ⟨hold, fun _ => hne⟩

theorem of_getElem?_modify {rs : List Reactor} {f : Reactor → Reactor} {i j : Nat} {r : Reactor}
    (h : (rs.modify i f)[j]? = some r) : ∃ r₀, rs[j]? = some r₀ ∧ r = if i = j then f r₀ else r₀ := by
  rw [List.getElem?_modify] at h
  obtain ⟨r₀, hr₀, rfl⟩ := Option.map_eq_some_iff.1 h
  exact ⟨r₀, hr₀, by split <;> rfl⟩

theorem Tidy.remove (h : Tidy m) (fd : Int) : Tidy (m.remove fd) := by
  unfold Manager.remove
  split
  · exact h
  · rename_i idx hidx
    have hmem : fd ∈ m.fdToReactor := AList.lookup_isSome.1 (by rw [hidx]; rfl)
    refine ⟨?_, ?_, ?_, by simpa using h.sizes, fun fd' hfd' => h.nonneg fd' (AList.mem_erase.1 hfd').2, ?_⟩
    · intro i count hi
      rw [List.getElem?_modify] at hi
      obtain ⟨old, hold, rfl⟩ := Option.map_eq_some_iff.1 hi
      rw [h.counts i old hold, Tally.tally_erase hidx]
      split <;> simp
    · intro fd'
      rw [AList.mem_erase, AList.mem_erase, h.keys fd']
    · intro fd' i hi
      have hne : fd' ≠ fd := by
        rintro rfl
        simp at hi
      rw [AList.lookup_erase_ne hne] at hi
      simpa using h.below fd' i hi
    · intro j r hr fd' hfd'
      obtain ⟨r₀, hr₀, rfl⟩ := of_getElem?_modify hr
      have hkeep : fd' ∈ r₀.handlers → fd' ≠ fd → (m.fdToReactor.erase fd).lookup fd' = some j := by
        intro hold hne
        rw [AList.lookup_erase_ne hne]
        exact h.handled j r₀ hr₀ fd' hold
      split at hfd'
      · obtain ⟨hold, hne⟩ := Reactor.mem_remove hfd'
        exact hkeep hold (hne (h.nonneg fd hmem))
      · rename_i hj
        apply hkeep hfd'
        rintro rfl
        have hmapped := h.handled j r₀ hr₀ _ hfd'
        rw [hidx] at hmapped
        exact hj (Option.some.inj hmapped)

theorem Tidy.of_handlers {rs : List Reactor} (h : Tidy m) (hlen : rs.length = m.reactors.length)
    (hsub : ∀ (j : Nat) (r : Reactor), rs[j]? = some r → ∃ r₀ : Reactor, m.reactors[j]? = some r₀ ∧
      ∀ fd ∈ r.handlers, fd ∈ r₀.handlers) :
    Tidy { m with reactors := rs } where
  counts := h.counts
  keys := h.keys
  below := fun fd i hi => by simpa [hlen] using h.below fd i hi
  sizes := hlen.trans h.sizes
  nonneg := h.nonneg
  handled := by
    intro j r hr fd hfd
    obtain ⟨r₀, hr₀, hmem⟩ := hsub j r hr
    exact h.handled j r₀ hr₀ fd (hmem fd hfd)

theorem Tidy.socketClosed (h : Tidy m) (fd : Int) : Tidy (m.socketClosed fd) := by
  refine h.of_handlers (by simp) (fun j r hr => ?_)
  rw [List.getElem?_map] at hr
  obtain ⟨r₀, hr₀, rfl⟩ := Option.map_eq_some_iff.1 hr
  exact ⟨r₀, hr₀, fun fd' hfd' => hfd'⟩

theorem Tidy.reactorRemove (h : Tidy m) (i : Nat) (fd : Int) : Tidy (m.reactorRemove i fd) := by
  refine h.of_handlers (by simp) (fun j r hr => ?_)
  obtain ⟨r₀, hr₀, rfl⟩ := of_getElem?_modify hr
  refine ⟨r₀, hr₀, fun fd' hfd' => ?_⟩
  split at hfd'
  · exact (Reactor.mem_remove hfd').1
  · exact hfd'

/-! ## The calls that put something in -/

theorem readd_cons {env : Rebuild} (e : Σ _ : Int, Nat) (rest : List (Σ _ : Int, Nat)) :
    readd env (e :: rest) m =
      if env.alive e.1 < 2 then readd env rest m
      else
        match m.place e.1 e.2 (env.alive e.1 < 3) (env.kernel e.1) with
        | (m, .returned) => readd env rest m
        | (m, ended) => (m, ended) := rfl

theorem mem_placed {best : Nat} {r : Reactor} {fd' : Int} :
    fd' ∈ (m.placed fd client best r).fdToReactor ↔ fd' = fd ∨ fd' ∈ m.fdToReactor := AList.mem_insert _

theorem Tidy.readd {env : Rebuild} : ∀ (l : List (Σ _ : Int, Nat)) (m : Manager), Tidy m → l.NodupKeys →
    (∀ e ∈ l, e.1 ∉ m.fdToReactor) → Tidy (readd env l m).1
  | [], _, h, _, _ => h
  | e :: rest, m, h, hnodup, hnew => by
    have hrest : ∀ e' ∈ rest, e'.1 ∉ m.fdToReactor := fun e' he' => hnew e' (List.mem_cons_of_mem _ he')
    obtain ⟨hfresh, hnodup⟩ := List.nodupKeys_cons.1 hnodup
    rw [readd_cons]
    split
    · exact Tidy.readd rest m h hnodup hrest
    · obtain ⟨ended, hended, he, _⟩ | ⟨r, hr, htakes, he⟩ :=
        place_cases m e.1 e.2 (env.alive e.1 < 3) (env.kernel e.1)
      · rw [he]
        cases ended with
        | returned => exact absurd rfl hended
        | threw | undefined => exact h
      · rw [he]
        refine Tidy.readd rest _ (h.placed (hnew e List.mem_cons_self) hr htakes.1) hnodup (fun e' he' => ?_)
        rw [mem_placed, not_or]
        refine ⟨fun hsame => hfresh ?_, hrest e' he'⟩
        rw [← hsame]
        exact List.mem_map_of_mem he'

theorem construct_ok (env : Rebuild) : ∀ (left i : Nat), (∀ j < left, env.created (i + j) = .ok ()) →
    construct env left i = (i + left, .returned)
  | 0, _, _ => rfl
  | left + 1, i, h => by
    have hi : env.created i = .ok () := h 0 (Nat.succ_pos left)
    rw [construct, hi]
    simp only
    rw [construct_ok env left (i + 1) (fun j hj => by simpa [Nat.add_right_comm, Nat.add_assoc] using h (j + 1) (by omega))]
    congr 1
    omega

theorem construct_failed (env : Rebuild) : ∀ (left i : Nat), ¬ (∀ j < left, env.created (i + j) = .ok ()) →
    ∃ k what, i ≤ k ∧ k < i + left ∧ construct env left i = (k, .threw what)
  | 0, _, h => absurd (fun j hj => absurd hj (Nat.not_lt_zero j)) h
  | left + 1, i, h => by
    rw [construct]
    cases hi : env.created i with
    | error what => exact ⟨i, what, Nat.le_refl i, by omega, rfl⟩
    | ok u =>
      obtain ⟨k, what, hle, hlt, he⟩ := construct_failed env left (i + 1) (fun hall => h (fun j hj => by
        cases j with
        | zero => exact hi
        | succ j => simpa [Nat.add_right_comm, Nat.add_assoc] using hall j (by omega)))
      exact ⟨k, what, by omega, by omega, he⟩

/-- What a rebuild registers anew. -/
def live (env : Rebuild) (m : Manager) : List (Σ _ : Int, Nat) :=
  (env.walk m.fdToClient.entries).filter (fun e => 0 < env.alive e.1)

theorem live_nodup (env : Rebuild) (m : Manager) : (live env m).NodupKeys :=
  (((env.walk_perm _).map Sigma.fst).nodup_iff.2 m.fdToClient.nodupKeys).sublist
    (List.filter_sublist.map Sigma.fst)

/-- **What a rebuild comes to**: nothing, an empty manager, fewer reactors than counts, or a run of its last loop. -/
theorem setReactorCount_cases (m : Manager) (newCount : Nat) (env : Rebuild) :
    (newCount = 0 ∧ m.setReactorCount newCount env = (m, .threw "new_count must be greater than 0")) ∨
    (newCount ≠ 0 ∧ ∃ what, env.room = .error what ∧ m.setReactorCount newCount env = ({}, .threw what)) ∨
    (newCount ≠ 0 ∧ env.room = .ok () ∧ (¬ ∀ i < newCount, env.created i = .ok ()) ∧ ∃ k what, k < newCount ∧
      m.setReactorCount newCount env =
        ({ reactors := List.replicate k {}, deviceCounts := List.replicate newCount 0 }, .threw what)) ∨
    (newCount ≠ 0 ∧ env.room = .ok () ∧ (∀ i < newCount, env.created i = .ok ()) ∧
      m.setReactorCount newCount env = readd env (live env m)
        { reactors := List.replicate newCount {}, deviceCounts := List.replicate newCount 0 }) := by
  unfold setReactorCount
  by_cases hzero : newCount = 0
  · exact Or.inl ⟨hzero, if_pos hzero⟩
  · rw [if_neg hzero]
    cases hroom : env.room with
    | error what => exact Or.inr (Or.inl ⟨hzero, what, rfl, rfl⟩)
    | ok u =>
      by_cases hall : ∀ i < newCount, env.created i = .ok ()
      · have hdone := construct_ok env newCount 0 (fun j hj => by simpa using hall j hj)
        rw [Nat.zero_add] at hdone
        exact Or.inr (Or.inr (Or.inr ⟨hzero, rfl, hall, by simp only [hdone]; rfl⟩))
      · obtain ⟨k, what, _, hk, he⟩ := construct_failed env newCount 0
          (fun h => hall (fun i hi => by simpa using h i hi))
        exact Or.inr (Or.inr (Or.inl ⟨hzero, rfl, hall, k, what, by omega, by simp only [he]⟩))

theorem tidy_empty : Tidy {} where
  counts := nofun
  keys := fun fd => by simp
  below := nofun
  sizes := rfl
  nonneg := nofun
  handled := nofun

/-- A call that the invariant survives: it does not put in anew a descriptor that is mapped, and does not fail between
two reactors. -/
def Fits (m : Manager) : ManagerCall → Prop
  | .add fd client _ kernel => fd ∈ m.fdToReactor → client ≠ none →
      ∀ r, m.reactors[minElement m.deviceCounts]? = some r → ¬ r.Takes fd false kernel
  | .setReactorCount newCount env => newCount ≠ 0 → env.room = .ok () → ∀ i < newCount, env.created i = .ok ()
  | _ => True

/-- `add` is a `place`, after the construction of a first reactor if there is none. -/
theorem add_cases (m : Manager) (fd : Int) (client : Option Nat) (created kernel : Except String Unit) :
    ((client = none ∨ m.reactors = []) ∧ ∃ what, m.add fd client created kernel = (m, .threw what)) ∨
    (∃ c, client = some c ∧ m.reactors = [] ∧ m.add fd client created kernel =
      { m with reactors := [{}], deviceCounts := m.deviceCounts ++ [0] }.place fd c false kernel) ∨
    (∃ c, client = some c ∧ m.reactors ≠ [] ∧ m.add fd client created kernel = m.place fd c false kernel) := by
  unfold Manager.add
  cases client with
  | none => exact Or.inl ⟨Or.inl rfl, _, rfl⟩
  | some c =>
    by_cases hempty : m.reactors = []
    · simp only [if_pos hempty]
      cases created with
      | error what => exact Or.inl ⟨Or.inr hempty, what, rfl⟩
      | ok u => exact Or.inr (Or.inl ⟨c, rfl, hempty, rfl⟩)
    · simp only [if_neg hempty]
      exact Or.inr (Or.inr ⟨c, rfl, hempty, rfl⟩)

theorem Tidy.first (h : Tidy m) (fd : Int) (hempty : m.reactors = []) :
    fd ∉ m.fdToReactor ∧ Tidy { m with reactors := [{}], deviceCounts := m.deviceCounts ++ [0] } := by
  have hnone : ∀ fd, m.fdToReactor.lookup fd = none := by
    intro fd
    cases hl : m.fdToReactor.lookup fd with
    | none => rfl
    | some i =>
      have hlt := h.below fd i hl
      rw [hempty] at hlt
      exact absurd hlt (Nat.not_lt_zero i)
  have hcounts : m.deviceCounts = [] := List.length_eq_zero_iff.1 (by rw [← h.sizes, hempty]; rfl)
  refine ⟨AList.lookup_eq_none.1 (hnone fd), ?_, h.keys, fun fd i hi => ?_, ?_, h.nonneg, ?_⟩
  · intro i count hi
    rw [hcounts, List.nil_append] at hi
    rw [Tally.tally_eq_zero (fun fd => by rw [hnone fd]; nofun)]
    obtain ⟨_, he⟩ := List.getElem?_eq_some_iff.1 hi
    rw [← he, List.getElem_singleton]
  · rw [hnone fd] at hi
    cases hi
  · simp [hcounts]
  · intro j r hr fd hfd
    obtain ⟨_, he⟩ := List.getElem?_eq_some_iff.1 hr
    rw [List.getElem_singleton] at he
    rw [← he] at hfd
    exact absurd hfd (AList.notMem_empty _)

/-- **A call that fits keeps the invariant.** -/
theorem Tidy.step (h : Tidy m) (call : ManagerCall) (hfits : Fits m call) : Tidy (call.step m) := by
  cases call with
  | add fd client created kernel =>
    simp only [ManagerCall.step]
    obtain ⟨_, what, he⟩ | ⟨c, hc, hempty, he⟩ | ⟨c, hc, hne, he⟩ := add_cases m fd client created kernel
    · rw [he]
      exact h
    · rw [he]
      obtain ⟨hnew, hfirst⟩ := h.first fd hempty
      exact hfirst.place (fun hmem => absurd hmem hnew)
    · rw [he]
      exact h.place (fun hmem => hfits hmem (by rw [hc]; nofun))
  | remove fd => exact h.remove fd
  | setReactorCount newCount env =>
    simp only [ManagerCall.step]
    obtain ⟨_, he⟩ | ⟨_, what, _, he⟩ | ⟨hzero, hroom, hnot, _⟩ | ⟨_, _, _, he⟩ := setReactorCount_cases m newCount env
    · rw [he]
      exact h
    · rw [he]
      exact tidy_empty
    · exact absurd (hfits hzero hroom) hnot
    · rw [he]
      exact Tidy.readd _ _ (tidy_fresh newCount) (live_nodup env m) (fun e _ => AList.notMem_empty _)
  | socketClosed fd => exact h.socketClosed fd
  | reactorRemove i fd => exact h.reactorRemove i fd

/-- **A call that does not fit breaks the invariant.** -/
theorem RepOk.not_step (h : RepOk m) (call : ManagerCall) (hfits : ¬ Fits m call) : ¬ RepOk (call.step m) := by
  cases call with
  | add fd client created kernel =>
    simp only [Fits, not_forall] at hfits
    obtain ⟨hmem, hclient, r, hr, htakes⟩ := hfits
    obtain ⟨i, hi⟩ := Option.isSome_iff_exists.1 (AList.lookup_isSome.2 hmem)
    have hlt := h.below fd i hi
    have hne : m.reactors ≠ [] := fun hempty => by
      rw [hempty] at hlt
      exact Nat.not_lt_zero i hlt
    obtain ⟨hnone, _⟩ | ⟨_, _, hempty, _⟩ | ⟨c, _, _, he⟩ := add_cases m fd client created kernel
    · exact (hnone.elim hclient hne).elim
    · exact absurd hempty hne
    · obtain ⟨_, _, _, hrefused⟩ | ⟨r', _, _, hplace⟩ := place_cases m fd c false kernel
      · exact absurd (hrefused r hr) htakes
      · intro h'
        simp only [ManagerCall.step, he, hplace] at h'
        -- the count of the descriptor's old reactor is one too high
        obtain ⟨count, hcount⟩ : ∃ count, m.deviceCounts[i]? = some count :=
          ⟨_, List.getElem?_eq_getElem (h.sizes ▸ hlt)⟩
        have hold := h.counts i count hcount
        have hnew := h'.counts i (if minElement m.deviceCounts = i then count + 1 else count) (by
          simp only [placed, List.getElem?_modify, hcount]
          split <;> rfl)
        simp only [placed, Tally.tally_insert] at hnew
        rw [Tally.tally_erase hi, if_pos rfl] at hold
        split at hnew <;> omega
  | setReactorCount newCount env =>
    simp only [Fits] at hfits
    intro h'
    simp only [ManagerCall.step] at h'
    obtain ⟨hzero, _⟩ | ⟨_, what, hroom, _⟩ | ⟨_, _, _, k, what, hk, he⟩ | ⟨_, _, hall, _⟩ :=
      setReactorCount_cases m newCount env
    · exact hfits (fun hne => absurd hzero hne)
    · exact hfits (fun _ hok => by rw [hroom] at hok; cases hok)
    · rw [he] at h'
      have hsizes := h'.sizes
      simp only [List.length_replicate] at hsizes
      omega
    · exact hfits (fun _ _ => hall)
  | remove | socketClosed | reactorRemove => exact absurd trivial hfits

/-- **The representation invariant holds after every call of a run exactly when every call fits.** -/
theorem repOk_iff (calls : List ManagerCall) :
    (∀ pre, pre <+: calls → RepOk (runManager pre)) ↔ Along ManagerCall.step Fits {} calls := by
  constructor
  · rintro h pre call post rfl
    by_contra hfits
    have hpre := h pre ⟨_, rfl⟩
    have hnext := h (pre ++ [call]) ⟨post, by simp⟩
    rw [runManager, Run.run_concat] at hnext
    exact hpre.not_step call hfits hnext
  · intro h pre hpre
    exact (Run.along_invariant (I := Tidy) (fun m call hm hfits => hm.step call hfits) tidy_empty pre
      (h.of_front hpre)).repOk

/-- A descriptor is added, its socket closed without `remove`, and its number added again. -/
def addsTwice : List ManagerCall :=
  [.add 5 (some 0) (.ok ()) (.ok ()), .socketClosed 5, .add 5 (some 0) (.ok ()) (.ok ())]

/-- **The count drifts.** -/
theorem addsTwice_not_repOk : ¬ ∀ (calls : List ManagerCall) pre, pre <+: calls → RepOk (runManager pre) := by
  intro h
  exact absurd ((h addsTwice addsTwice (List.prefix_refl _)).counts 0 2 (by decide)) (by decide)

end Manager

end PyNetX
