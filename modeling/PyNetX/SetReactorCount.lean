import PyNetX.ManagerInv
/-!
# SetReactorCount — what a rebuild keeps of the registrations

`set_reactor_count` that returns has moved every descriptor whose client lives to one of the new reactors, the loads
even; one that throws after it has cleared the maps has lost what it did not register again.
-/
namespace PyNetX

namespace Manager

/-! ## The least loaded reactor -/

theorem minElement_firstLeast {counts : List Nat} (h : counts ≠ []) :
    FirstLeast (fun j => counts.getD j 0) counts.length (minElement counts) := by
  have hlt : minElement counts < counts.length := by
    obtain ⟨c, hc⟩ := Option.isSome_iff_exists.1 (List.isSome_min?_of_ne_nil h)
    obtain ⟨hmem, hle⟩ := List.min?_eq_some_iff.1 hc
    exact List.findIdx_lt_length_of_exists ⟨c, hmem, by simpa using hle⟩
  have hmin : ∀ c ∈ counts, counts[minElement counts] ≤ c := by
    have hp := List.findIdx_getElem (w := hlt)
    rw [List.all_eq_true] at hp
    exact fun c hc => of_decide_eq_true (hp c hc)
  have hgetD : ∀ j (hj : j < counts.length), counts.getD j 0 = counts[j] := fun j hj => by
    rw [List.getD_eq_getElem?_getD, List.getElem?_eq_getElem hj]
    rfl
  refine ⟨hlt, fun j hj => ?_, fun j hj => ?_⟩
  · rw [hgetD _ hlt, hgetD j hj]
    exact hmin _ (List.getElem_mem hj)
  · have hj' : j < counts.length := Nat.lt_trans hj hlt
    have hnot := List.not_of_lt_findIdx hj
    simp only [List.all_eq_false, decide_eq_true_eq, Nat.not_le] at hnot
    obtain ⟨c, hc, hlt'⟩ := hnot
    rw [hgetD _ hlt, hgetD j hj']
    exact Nat.lt_of_le_of_lt (hmin c hc) hlt'

/-! ## The loop that registers again -/

/-- A manager in the middle of a rebuild to `n` reactors. -/
structure Rebuilt (n : Nat) (m : Manager) : Prop extends Tidy m where
  length : m.reactors.length = n
  epoll : ∀ (j : Nat) (r : Reactor), m.reactors[j]? = some r → ∀ fd, fd ∈ r.epoll ↔ fd ∈ r.handlers
  client : ∀ fd (j : Nat) (r : Reactor), m.fdToReactor.lookup fd = some j → m.reactors[j]? = some r →
    r.handlers.lookup fd = m.fdToClient.lookup fd
  loads : ∀ (j : Nat) (r : Reactor), m.reactors[j]? = some r → m.deviceCounts[j]? = some r.handlers.entries.length
  even : ∀ (i j count count' : Nat), m.deviceCounts[i]? = some count → m.deviceCounts[j]? = some count' → count ≤ count' + 1

variable {m : Manager} {n : Nat} {env : Rebuild} {fd : Int} {client : Nat}

theorem rebuilt_fresh (n : Nat) :
    Rebuilt n { reactors := List.replicate n {}, deviceCounts := List.replicate n 0 } where
  toTidy := tidy_fresh n
  length := List.length_replicate
  epoll := by
    intro j r hr fd
    obtain ⟨_, he⟩ := List.getElem?_eq_some_iff.1 hr
    rw [List.getElem_replicate] at he
    rw [← he]
    exact iff_of_false (Finset.notMem_empty fd) (AList.notMem_empty fd)
  client := nofun
  loads := by
    intro j r hr
    obtain ⟨hj, he⟩ := List.getElem?_eq_some_iff.1 hr
    rw [List.getElem_replicate] at he
    rw [List.length_replicate] at hj
    rw [← he, List.getElem?_replicate, if_pos hj]
    rfl
  even := by
    intro i j count count' hi hj
    obtain ⟨_, he⟩ := List.getElem?_eq_some_iff.1 hi
    rw [List.getElem_replicate] at he
    omega

/-- **A round of the loop keeps the loads even**, its reactor being least loaded. -/
theorem Rebuilt.placed {r : Reactor} (h : Rebuilt n m) (hnew : fd ∉ m.fdToReactor) (hfd : 0 ≤ fd)
    (hr : m.reactors[minElement m.deviceCounts]? = some r) :
    Rebuilt n (m.placed fd client (minElement m.deviceCounts) r) where
  toTidy := h.toTidy.placed hnew hr hfd
  length := by simpa [Manager.placed] using h.length
  epoll := by
    intro j r' hr' fd'
    obtain ⟨rfl, rfl⟩ | ⟨_, hold⟩ := placed_reactor hr hr'
    · rw [Finset.mem_insert, AList.mem_insert, h.epoll _ r hr fd']
    · exact h.epoll j r' hold fd'
  client := by
    intro fd' j r' hj hr'
    simp only [Manager.placed] at hj ⊢
    by_cases he : fd' = fd
    · subst he
      rw [AList.lookup_insert] at hj ⊢
      obtain ⟨_, rfl⟩ | ⟨hne, _⟩ := placed_reactor hr hr'
      · exact AList.lookup_insert _
      · exact absurd (Option.some.inj hj).symm hne
    · rw [AList.lookup_insert_ne he] at hj ⊢
      obtain ⟨rfl, rfl⟩ | ⟨_, hold⟩ := placed_reactor hr hr'
      · rw [AList.lookup_insert_ne he]
        exact h.client fd' _ r hj hr
      · exact h.client fd' j r' hj hold
  loads := by
    intro j r' hr'
    simp only [Manager.placed, List.getElem?_modify]
    obtain ⟨rfl, rfl⟩ | ⟨hne, hold⟩ := placed_reactor hr hr'
    · have hfresh : fd ∉ r.handlers := fun hmem =>
        hnew (AList.lookup_isSome.1 (by rw [h.handled _ r hr fd hmem]; rfl))
      rw [h.loads _ r hr, AList.entries_insert_of_notMem hfresh]
      simp
    · simp [h.loads j r' hold, Ne.symm hne]
  even := by
    have hcounts : m.deviceCounts ≠ [] := fun hnil => by
      have hlt := (List.getElem?_eq_some_iff.1 hr).1
      rw [h.sizes, hnil] at hlt
      exact Nat.not_lt_zero _ hlt
    have hleast := minElement_firstLeast hcounts
    intro i j count count' hi hj
    simp only [Manager.placed, List.getElem?_modify] at hi hj
    obtain ⟨old, hold, rfl⟩ := Option.map_eq_some_iff.1 hi
    obtain ⟨old', hold', rfl⟩ := Option.map_eq_some_iff.1 hj
    have heven := h.even i j old old' hold hold'
    have hle : minElement m.deviceCounts = i → old ≤ old' := by
      rintro rfl
      have hmin := hleast.least j (List.getElem?_eq_some_iff.1 hold').1
      simpa [List.getD_eq_getElem?_getD, hold, hold'] using hmin
    split <;> split <;> omega

/-- The loop does not stop at this entry: it skips it, or a reactor takes it. -/
def Passes (env : Rebuild) (e : Σ _ : Int, Nat) : Prop :=
  2 ≤ env.alive e.1 → 0 ≤ e.1 ∧ 3 ≤ env.alive e.1 ∧ env.kernel e.1 = .ok ()

theorem Rebuilt.best (h : Rebuilt n m) (hn : n ≠ 0) : ∃ r, m.reactors[minElement m.deviceCounts]? = some r := by
  have hcounts : m.deviceCounts ≠ [] := fun hnil => by
    have hlen := h.length
    rw [h.sizes, hnil] at hlen
    exact hn hlen.symm
  have hlt := (minElement_firstLeast hcounts).lt
  rw [← h.sizes] at hlt
  exact ⟨_, List.getElem?_eq_getElem hlt⟩

theorem readd_passes_one (h : Rebuilt n m) (hn : n ≠ 0) {e : Σ _ : Int, Nat} (rest : List (Σ _ : Int, Nat))
    (hnew : e.1 ∉ m.fdToReactor) (hpass : Passes env e) : ∃ m', Rebuilt n m' ∧
      readd env (e :: rest) m = readd env rest m' ∧ (∀ fd, fd ∈ m'.fdToReactor → fd = e.1 ∨ fd ∈ m.fdToReactor) ∧
      ∀ fd c, m'.fdToClient.lookup fd = some c ↔
        m.fdToClient.lookup fd = some c ∨ (⟨fd, c⟩ = e ∧ 3 ≤ env.alive fd) := by
  rw [readd_cons]
  by_cases halive : env.alive e.1 < 2
  · refine ⟨m, h, if_pos halive, fun fd hfd => Or.inr hfd, fun fd c => ⟨Or.inl, ?_⟩⟩
    rintro (hold | ⟨rfl, hlives⟩)
    · exact hold
    · exact absurd hlives (by simp only at halive; omega)
  · obtain ⟨hfd, hlives, hkernel⟩ := hpass (Nat.not_lt.1 halive)
    obtain ⟨r, hr⟩ := h.best hn
    have hfree : e.1 ∉ r.epoll := fun hheld =>
      hnew (AList.lookup_isSome.1 (by rw [h.handled _ r hr _ ((h.epoll _ r hr _).1 hheld)]; rfl))
    obtain ⟨_, _, _, hrefused⟩ | ⟨r', hr', _, he⟩ :=
      place_cases m e.1 e.2 (env.alive e.1 < 3) (env.kernel e.1)
    · exact absurd ⟨hfd, by simpa using hlives, hfree, hkernel⟩ (hrefused r hr)
    · refine ⟨_, h.placed hnew hfd hr', by rw [if_neg halive, he], fun fd => mem_placed.1, fun fd c => ?_⟩
      have hclient : e.1 ∉ m.fdToClient := fun hmem => hnew ((h.keys _).2 hmem)
      simp only [Manager.placed]
      by_cases hsame : fd = e.1
      · subst hsame
        rw [AList.lookup_insert, AList.lookup_eq_none.2 hclient]
        constructor
        · rintro hc
          obtain rfl := Option.some.inj hc
          exact Or.inr ⟨rfl, hlives⟩
        · rintro (hnone | ⟨hc, _⟩)
          · cases hnone
          · rw [← hc]
      · rw [AList.lookup_insert_ne hsame]
        refine ⟨Or.inl, ?_⟩
        rintro (hold | ⟨hc, _⟩)
        · exact hold
        · exact absurd (congrArg Sigma.fst hc) hsame

/-- **The loop goes through the entries that do not stop it**, and registers those whose clients live. -/
theorem readd_passes (hn : n ≠ 0) (rest : List (Σ _ : Int, Nat)) : ∀ (front : List (Σ _ : Int, Nat)) (m : Manager),
    Rebuilt n m → (front ++ rest).NodupKeys → (∀ e ∈ front ++ rest, e.1 ∉ m.fdToReactor) →
    (∀ e ∈ front, Passes env e) → ∃ m', Rebuilt n m' ∧ readd env (front ++ rest) m = readd env rest m' ∧
      (∀ e ∈ rest, e.1 ∉ m'.fdToReactor) ∧ ∀ fd c, m'.fdToClient.lookup fd = some c ↔
        m.fdToClient.lookup fd = some c ∨ (⟨fd, c⟩ ∈ front ∧ 3 ≤ env.alive fd)
  | [], m, h, _, hnew, _ => ⟨m, h, rfl, hnew, fun fd c => by simp⟩
  | e :: front, m, h, hnodup, hnew, hpass => by
    rw [List.cons_append] at hnodup hnew ⊢
    obtain ⟨hfresh, hnodup⟩ := List.nodupKeys_cons.1 hnodup
    obtain ⟨m₁, h₁, he₁, hmem₁, hlookup₁⟩ := readd_passes_one h hn (front ++ rest) (hnew e List.mem_cons_self)
      (hpass e List.mem_cons_self)
    obtain ⟨m', h', he', hmem', hlookup'⟩ := readd_passes hn rest front m₁ h₁ hnodup
      (fun e' he' hmem => by
        rcases hmem₁ e'.1 hmem with hsame | hold
        · exact hfresh (hsame ▸ List.mem_map_of_mem he')
        · exact hnew e' (List.mem_cons_of_mem _ he') hold)
      (fun e' he' => hpass e' (List.mem_cons_of_mem _ he'))
    refine ⟨m', h', he₁.trans he', hmem', fun fd c => ?_⟩
    rw [hlookup' fd c, hlookup₁ fd c, List.mem_cons, or_and_right, or_assoc]

theorem readd_stops {e : Σ _ : Int, Nat} (rest : List (Σ _ : Int, Nat)) (hstop : ¬ Passes env e) :
    ∃ ended, ended ≠ .returned ∧ readd env (e :: rest) m = (m, ended) := by
  simp only [Passes, not_forall] at hstop
  obtain ⟨halive, hstop⟩ := hstop
  rw [readd_cons, if_neg (Nat.not_lt.2 halive)]
  obtain ⟨ended, hended, he, _⟩ | ⟨r, _, htakes, _⟩ := place_cases m e.1 e.2 (env.alive e.1 < 3) (env.kernel e.1)
  · refine ⟨ended, hended, ?_⟩
    rw [he]
    cases ended with
    | returned => exact absurd rfl hended
    | threw | undefined => rfl
  · exact absurd ⟨htakes.1, by simpa using htakes.2.1, htakes.2.2.2⟩ hstop

/-! ## The whole call -/

/-- What a call that returns owes: each registered descriptor with a live client is registered with one of the
`n` reactors, with that one alone and for the same client; nothing else is; the loads differ by at most one. -/
structure Moved (n : Nat) (env : Rebuild) (m m' : Manager) : Prop where
  length : m'.reactors.length = n
  registered : ∀ fd c, m'.fdToClient.lookup fd = some c ↔ m.fdToClient.lookup fd = some c ∧ 3 ≤ env.alive fd
  once : ∀ fd c, m'.fdToClient.lookup fd = some c → ∃ (j : Nat) (r : Reactor), m'.reactors[j]? = some r ∧
    m'.fdToReactor.lookup fd = some j ∧ r.handlers.lookup fd = some c ∧ fd ∈ r.epoll ∧
    ∀ (j' : Nat) (r' : Reactor), m'.reactors[j']? = some r' → fd ∈ r'.handlers ∨ fd ∈ r'.epoll → j' = j
  only : ∀ (j : Nat) (r : Reactor), m'.reactors[j]? = some r → ∀ fd, fd ∈ r.handlers ∨ fd ∈ r.epoll → fd ∈ m'.fdToClient
  even : ∀ (j j' : Nat) (r r' : Reactor), m'.reactors[j]? = some r → m'.reactors[j']? = some r' →
    r.handlers.entries.length ≤ r'.handlers.entries.length + 1

/-- What a call that throws owes: the registered descriptors with live clients are those from before. -/
def Atomic (env : Rebuild) (m m' : Manager) : Prop :=
  ∀ fd c, 3 ≤ env.alive fd → (m'.fdToClient.lookup fd = some c ↔ m.fdToClient.lookup fd = some c)

/-- No live descriptor is lost: there is none, or the reactors are all made and no descriptor behind the first one that
is refused, nor this one, has a live client. -/
def LosesNone (m : Manager) (newCount : Nat) (env : Rebuild) : Prop :=
  newCount = 0 ∨ (∀ e ∈ live env m, env.alive e.1 < 3) ∨
    (env.room = .ok () ∧ (∀ i < newCount, env.created i = .ok ()) ∧ ∀ front e back,
      live env m = front ++ e :: back → ¬ Passes env e → ∀ e' ∈ e :: back, env.alive e'.1 < 3)

theorem mem_live {c : Nat} : ⟨fd, c⟩ ∈ live env m ↔ m.fdToClient.lookup fd = some c ∧ 0 < env.alive fd := by
  rw [live, List.mem_filter, (env.walk_perm _).mem_iff, decide_eq_true_eq]
  exact and_congr_left' AList.mem_lookup_iff.symm

theorem Rebuilt.moved {m' : Manager} (h : Rebuilt n m')
    (hlookup : ∀ fd c, m'.fdToClient.lookup fd = some c ↔ ⟨fd, c⟩ ∈ live env m ∧ 3 ≤ env.alive fd) :
    Moved n env m m' where
  length := h.length
  registered := by
    intro fd c
    rw [hlookup fd c, mem_live]
    constructor
    · exact fun hc => ⟨hc.1.1, hc.2⟩
    · exact fun hc => ⟨⟨hc.1, by omega⟩, hc.2⟩
  once := by
    intro fd c hc
    have hmem : fd ∈ m'.fdToReactor := (h.keys fd).2 (AList.lookup_isSome.1 (by rw [hc]; rfl))
    obtain ⟨j, hj⟩ := Option.isSome_iff_exists.1 (AList.lookup_isSome.2 hmem)
    have hr := List.getElem?_eq_getElem (h.below fd j hj)
    have hhandler := h.client fd j _ hj hr
    rw [hc] at hhandler
    refine ⟨j, _, hr, hj, hhandler, (h.epoll j _ hr fd).2 (AList.lookup_isSome.1 (by rw [hhandler]; rfl)), ?_⟩
    intro j' r' hr' hfd
    have hheld : fd ∈ r'.handlers := hfd.elim id (h.epoll j' r' hr' fd).1
    have hj' := h.handled j' r' hr' fd hheld
    rw [hj] at hj'
    exact (Option.some.inj hj').symm
  only := by
    intro j r hr fd hfd
    have hheld : fd ∈ r.handlers := hfd.elim id (h.epoll j r hr fd).1
    rw [← h.keys fd]
    exact AList.lookup_isSome.1 (by rw [h.handled j r hr fd hheld]; rfl)
  even := fun j j' r r' hr hr' => h.even j j' _ _ (h.loads j r hr) (h.loads j' r' hr')

theorem exists_first_not {α : Type} (P : α → Prop) : ∀ l : List α,
    (∀ e ∈ l, P e) ∨ ∃ front e back, l = front ++ e :: back ∧ (∀ y ∈ front, P y) ∧ ¬ P e
  | [] => Or.inl (fun _ he => by cases he)
  | e :: l => by
    by_cases he : P e
    · rcases exists_first_not P l with hall | ⟨front, x, back, rfl, hfront, hx⟩
      · exact Or.inl (List.forall_mem_cons.2 ⟨he, hall⟩)
      · exact Or.inr ⟨e :: front, x, back, rfl, List.forall_mem_cons.2 ⟨he, hfront⟩, hx⟩
    · exact Or.inr ⟨[], e, l, rfl, (fun _ hy => by cases hy), he⟩

/-- **The last loop**: it returns with everything moved, or stops at the first entry it cannot register. -/
theorem readd_cases (m : Manager) (env : Rebuild) (hn : n ≠ 0) :
    ((∀ e ∈ live env m, Passes env e) ∧ ∃ m', readd env (live env m)
      { reactors := List.replicate n {}, deviceCounts := List.replicate n 0 } = (m', .returned) ∧ Moved n env m m') ∨
    ∃ front e back, live env m = front ++ e :: back ∧ (∀ y ∈ front, Passes env y) ∧ ¬ Passes env e ∧
      ∃ m' ended, ended ≠ .returned ∧ readd env (live env m)
        { reactors := List.replicate n {}, deviceCounts := List.replicate n 0 } = (m', ended) ∧
      ∀ fd c, m'.fdToClient.lookup fd = some c ↔ ⟨fd, c⟩ ∈ front ∧ 3 ≤ env.alive fd := by
  have hnodup := live_nodup env m
  rcases exists_first_not (Passes env) (live env m) with hall | ⟨front, e, back, hsplit, hfront, he⟩
  · obtain ⟨m', h', hrun, _, hlookup⟩ := readd_passes hn [] (live env m) _ (rebuilt_fresh n)
      (by rw [List.append_nil]; exact hnodup) (fun _ _ => AList.notMem_empty _) hall
    rw [List.append_nil] at hrun
    exact Or.inl ⟨hall, m', hrun, h'.moved (fun fd c => by simpa using hlookup fd c)⟩
  · rw [hsplit] at hnodup
    obtain ⟨m', _, hrun, _, hlookup⟩ := readd_passes hn (e :: back) front _ (rebuilt_fresh n) hnodup
      (fun _ _ => AList.notMem_empty _) hfront
    obtain ⟨ended, hended, hstop⟩ := readd_stops (m := m') back he
    exact Or.inr ⟨front, e, back, hsplit, hfront, he, m', ended, hended, by rw [hsplit, hrun, hstop],
      fun fd c => by simpa using hlookup fd c⟩

/-- A call that leaves nothing registered keeps what it should exactly when nothing registered is live. -/
theorem atomic_of_empty (env : Rebuild) (m : Manager) {m' : Manager} (hempty : m'.fdToClient = ∅) :
    Atomic env m m' ↔ ∀ e ∈ live env m, env.alive e.1 < 3 := by
  constructor
  · rintro h ⟨fd, c⟩ he
    by_contra hlives
    have hback := (h fd c (Nat.not_lt.1 hlives)).2 (mem_live.1 he).1
    rw [hempty, AList.lookup_empty] at hback
    cases hback
  · intro h fd c hlives
    rw [hempty, AList.lookup_empty]
    refine iff_of_false nofun (fun hc => ?_)
    have hdead := h ⟨fd, c⟩ (mem_live.2 ⟨hc, by omega⟩)
    simp only at hdead
    omega

/-- A loop that stops keeps what it should exactly when no live descriptor is at its stop or behind. -/
theorem atomic_of_stop {m' : Manager} {front back : List (Σ _ : Int, Nat)} {e : Σ _ : Int, Nat}
    (hsplit : live env m = front ++ e :: back)
    (hlookup : ∀ fd c, m'.fdToClient.lookup fd = some c ↔ ⟨fd, c⟩ ∈ front ∧ 3 ≤ env.alive fd) :
    Atomic env m m' ↔ ∀ e' ∈ e :: back, env.alive e'.1 < 3 := by
  have hnodup := live_nodup env m
  rw [hsplit] at hnodup
  constructor
  · rintro h ⟨fd, c⟩ he
    by_contra hlives
    have hmem : ⟨fd, c⟩ ∈ live env m := by
      rw [hsplit]
      exact List.mem_append_right _ he
    have hfront := ((hlookup fd c).1 ((h fd c (Nat.not_lt.1 hlives)).2 (mem_live.1 hmem).1)).1
    -- it would be in the list twice
    exact (List.disjoint_of_nodup_append (hnodup.of_map _)) hfront he
  · intro h fd c hlives
    rw [hlookup fd c]
    constructor
    · rintro ⟨hfront, _⟩
      have hmem : ⟨fd, c⟩ ∈ live env m := by
        rw [hsplit]
        exact List.mem_append_left _ hfront
      exact (mem_live.1 hmem).1
    · intro hc
      have hmem : ⟨fd, c⟩ ∈ live env m := mem_live.2 ⟨hc, by omega⟩
      rw [hsplit, List.mem_append] at hmem
      rcases hmem with hfront | hback
      · exact ⟨hfront, hlives⟩
      · have hdead := h _ hback
        simp only at hdead
        omega

/-- **`set_reactor_count` moves the registrations and keeps them when it throws exactly when it loses no live
descriptor**; when it returns it has moved them all. -/
theorem setReactorCount_iff (m : Manager) (newCount : Nat) (env : Rebuild) :
    (((m.setReactorCount newCount env).2 = .returned → Moved newCount env m (m.setReactorCount newCount env).1) ∧
      ((m.setReactorCount newCount env).2 ≠ .returned → Atomic env m (m.setReactorCount newCount env).1)) ↔
    LosesNone m newCount env := by
  unfold LosesNone
  obtain ⟨hzero, he⟩ | ⟨hn, what, hroom, he⟩ | ⟨hn, hroom, hnot, k, what, hk, he⟩ | ⟨hn, hroom, hall, he⟩ :=
    setReactorCount_cases m newCount env
  · rw [he]
    exact iff_of_true ⟨nofun, fun _ _ _ _ => Iff.rfl⟩ (Or.inl hzero)
  · rw [he]
    have hatomic : Atomic env m {} ↔ _ := atomic_of_empty env m rfl
    simp only [ne_eq, reduceCtorEq, not_false_eq_true, true_implies, false_implies, true_and, hatomic, hn, hroom,
      false_and, or_false, false_or]
  · rw [he]
    have hatomic : Atomic env m { reactors := List.replicate k {}, deviceCounts := List.replicate newCount 0 } ↔ _ :=
      atomic_of_empty env m rfl
    simp only [ne_eq, reduceCtorEq, not_false_eq_true, true_implies, false_implies, true_and, hatomic, hn, hnot,
      false_and, and_false, or_false, false_or]
  · rw [he]
    obtain ⟨hpass, m', hrun, hmoved⟩ | ⟨front, e, back, hsplit, hfront, hstop, m', ended, hended, hrun, hlookup⟩ :=
      readd_cases m env hn
    · rw [hrun]
      refine iff_of_true ⟨fun _ => hmoved, fun hthrew => absurd rfl hthrew⟩
        (Or.inr (Or.inr ⟨hroom, hall, fun front e back hsplit hstop => absurd (hpass e ?_) hstop⟩))
      rw [hsplit]
      exact List.mem_append_right _ List.mem_cons_self
    · rw [hrun]
      simp only [ne_eq, hended, not_false_eq_true, true_implies, false_implies, true_and, atomic_of_stop hsplit hlookup,
        hn, hroom, false_or]
      constructor
      · refine fun hdead => Or.inr ⟨hall, fun front' e' back' hsplit' hstop' => ?_⟩
        -- no entry in front of the first that stops the loop stops it
        rw [hsplit] at hsplit'
        rcases List.append_eq_append_iff.1 hsplit' with ⟨between, _, hback⟩ | ⟨between, hfront', hback⟩
        · exact fun x hx => hdead x (by rw [hback]; exact List.mem_append_right _ hx)
        · cases between with
          | nil => exact fun x hx => hdead x (by rw [← List.nil_append (e :: back), ← hback]; exact hx)
          | cons x between =>
            obtain rfl : e' = x := (List.cons.inj hback).1
            exact absurd (hfront e' (by rw [hfront']; simp)) hstop'
      · rintro (hdead | ⟨_, hdead⟩)
        · exact fun e' he' => hdead e' (by rw [hsplit]; exact List.mem_append_right _ he')
        · exact hdead front e back hsplit hstop

/-- One registered descriptor. -/
def oneDevice : Manager := runManager [.add 5 (some 0) (.ok ()) (.ok ())]

theorem oneDevice_repOk : RepOk oneDevice := by
  refine (tidy_empty.step (.add 5 (some 0) (.ok ()) (.ok ())) ?_).repOk
  exact fun hmem => absurd hmem (AList.notMem_empty _)

/-- The kernel refuses every descriptor. -/
def refusesAll : Rebuild := { kernel := fun _ => .error "No space left on device" }

/-- **A rebuild that cannot register a live descriptor again loses it.** -/
theorem rebuild_loses_device : ¬ ∀ (m : Manager) (newCount : Nat) (env : Rebuild), RepOk m →
    ((m.setReactorCount newCount env).2 = .returned → Moved newCount env m (m.setReactorCount newCount env).1) ∧
      ((m.setReactorCount newCount env).2 ≠ .returned → Atomic env m (m.setReactorCount newCount env).1) := by
  intro h
  have hatomic := (h oneDevice 2 refusesAll oneDevice_repOk).2 (by decide) 5 0 (by decide)
  exact absurd (hatomic.2 (by decide)) (by decide)

end Manager

end PyNetX
