import PyNetX.Lib.LeastLoaded
import PyNetX.SetReactorCount
/-!
# ReactorLoad — how many descriptors a reactor serves

The manager gives a descriptor to a reactor with the least count and never moves one between two rebuilds: the reactors'
loads stay as near to each other as removals leave them (`loads_near`).  And `init` picks as many reactors as the devices
that it is told of need, so none has to serve more than it is meant to while no more are registered (`init_capacity`).
-/
namespace PyNetX

open Run (run Along)
open Tally (tally)
open LeastLoaded (Within Least)

namespace Manager

/-- `MAX_PER` of `init`. -/
def maxPer : Nat := 5000

/-- `hw` of `init`, where `std::thread::hardware_concurrency` returns `hardwareConcurrency`. -/
def cores (hardwareConcurrency : Nat) : Nat := if hardwareConcurrency = 0 then 4 else hardwareConcurrency

/-- `needed` of `init`, in `size_t`. -/
def needed (totalDevices : Nat) : Nat := (totalDevices + maxPer - 1) % 2 ^ 64 / maxPer

def init (m : Manager) (totalDevices hardwareConcurrency : Nat) (env : Rebuild) : Manager × CallEnd :=
  m.setReactorCount (min (cores hardwareConcurrency) (max 1 (needed totalDevices))) env

/-- How many `remove`s there were since the reactors were last set up. -/
def removals (calls : List ManagerCall) : Nat :=
  calls.foldl (fun k call =>
    match call with
    | .remove _ => k + 1
    | .setReactorCount newCount _ => if newCount = 0 then k else 0
    | _ => k) 0

/-- A call that fits, and keeps to what `init` was told: the reactors are not set up again, and nothing is added to
`total` descriptors. -/
def KeepsPlan (total : Nat) (m : Manager) (call : ManagerCall) : Prop :=
  Fits m call ∧
    match call with
    | .add .. => m.fdToReactor.entries.length < total
    | .setReactorCount newCount _ => newCount = 0
    | _ => True

variable {m : Manager} {fd : Int} {client : Nat} {expired : Bool} {kernel : Except String Unit}

theorem minElement_least {counts : List Nat} (h : counts ≠ []) :
    ∃ least, Least counts (minElement counts) least := by
  have hfirst := minElement_firstLeast h
  have hgetD : ∀ j (hj : j < counts.length), counts.getD j 0 = counts[j] := fun j hj => by
    rw [List.getD_eq_getElem?_getD, List.getElem?_eq_getElem hj]
    rfl
  refine ⟨counts.get ⟨minElement counts, hfirst.lt⟩, List.getElem?_eq_getElem hfirst.lt, fun c hc => ?_⟩
  obtain ⟨j, hj, rfl⟩ := List.mem_iff_getElem.1 hc
  have hle := hfirst.least j hj
  simp only [hgetD _ hfirst.lt, hgetD j hj] at hle
  exact hle

/-! ## The loads stay near each other -/

/-- The counts are within `k + 1` of each other, and a manager without reactors has counted nothing. -/
structure Near (k : Nat) (m : Manager) : Prop where
  within : Within (k + 1) m.deviceCounts
  bare : m.reactors = [] → ∀ c ∈ m.deviceCounts, c = 0

theorem near_zeros (k : Nat) {m : Manager} (h : ∀ c ∈ m.deviceCounts, c = 0) : Near k m := by
  refine ⟨fun a ha b hb => ?_, fun _ => h⟩
  rw [h a ha]
  exact Nat.zero_le _

theorem Near.mono {k k' : Nat} (h : Near k m) (hk : k ≤ k') : Near k' m :=
  ⟨h.within.mono (Nat.succ_le_succ hk), h.bare⟩

theorem Near.place {k : Nat} (h : Near k m) : Near k (m.place fd client expired kernel).1 := by
  obtain ⟨ended, _, he, _⟩ | ⟨r, hr, _, he⟩ := place_cases m fd client expired kernel
  · rw [he]
    exact h
  · rw [he]
    refine ⟨?_, fun hnone => ?_⟩
    · by_cases hempty : m.deviceCounts = []
      · have hcounts : (m.placed fd client (minElement m.deviceCounts) r).deviceCounts = [] := by simp [placed, hempty]
        rw [hcounts]
        exact fun _ ha => absurd ha List.not_mem_nil
      · obtain ⟨least, hleast⟩ := minElement_least hempty
        exact h.within.take hleast
    · -- it was placed at a reactor
      rw [(List.set_eq_nil_iff _ _).1 hnone] at hr
      cases hr

theorem Near.add {k : Nat} (h : Near k m) (fd : Int) (client : Option Nat) (created kernel : Except String Unit) :
    Near k (m.add fd client created kernel).1 := by
  obtain ⟨_, what, he⟩ | ⟨c, _, hempty, he⟩ | ⟨c, _, _, he⟩ := add_cases m fd client created kernel
  · rw [he]
    exact h
  · rw [he]
    refine (near_zeros k (fun c hc => ?_)).place
    rcases List.mem_append.1 hc with hc | hc
    · exact h.bare hempty c hc
    · exact List.mem_singleton.1 hc
  · rw [he]
    exact h.place

theorem Near.remove {k : Nat} (h : Near k m) (fd : Int) : Near (k + 1) (m.remove fd) := by
  unfold Manager.remove
  split
  · exact h.mono (Nat.le_succ k)
  · rename_i idx _
    refine ⟨h.within.leave idx, fun hnone c hc => ?_⟩
    have hbare := h.bare (List.modify_eq_nil_iff.1 hnone)
    rcases LeastLoaded.mem_modify hc with hc | ⟨d, hd, rfl⟩
    · exact hbare c hc
    · rw [hbare d (List.mem_of_getElem? hd)]

theorem Near.readd {k : Nat} {env : Rebuild} : ∀ (l : List (Σ _ : Int, Nat)) (m : Manager), Near k m →
    Near k (readd env l m).1
  | [], _, h => h
  | e :: rest, m, h => by
    have hplace : Near k (m.place e.1 e.2 (env.alive e.1 < 3) (env.kernel e.1)).1 := h.place
    rw [readd_cons]
    split
    · exact Near.readd rest m h
    · split
      · rename_i m' he
        rw [he] at hplace
        exact Near.readd rest m' hplace
      · rename_i m' ended _ he
        rw [he] at hplace
        exact hplace

/-- **A call keeps the loads near each other**, by one less for each removal. -/
theorem Near.step {k : Nat} (h : Near k m) (call : ManagerCall) :
    Near (match call with
      | .remove _ => k + 1
      | .setReactorCount newCount _ => if newCount = 0 then k else 0
      | _ => k) (call.step m) := by
  cases call with
  | add fd client created kernel => exact h.add fd client created kernel
  | remove fd => exact h.remove fd
  | setReactorCount newCount env =>
    have hzeros : ∀ (n : Nat) (c : Nat), c ∈ List.replicate n 0 → c = 0 := fun n c hc => List.eq_of_mem_replicate hc
    simp only [ManagerCall.step]
    obtain ⟨hzero, he⟩ | ⟨hn, what, _, he⟩ | ⟨hn, _, _, k', what, _, he⟩ | ⟨hn, _, _, he⟩ :=
      setReactorCount_cases m newCount env
    · rw [he, if_pos hzero]
      exact h
    · rw [he, if_neg hn]
      exact near_zeros 0 (hzeros 0)
    · rw [he, if_neg hn]
      exact near_zeros 0 (hzeros newCount)
    · rw [he, if_neg hn]
      exact Near.readd _ _ (near_zeros 0 (hzeros newCount))
  | socketClosed fd => exact ⟨h.within, fun hnone => h.bare (List.map_eq_nil_iff.1 hnone)⟩
  | reactorRemove i fd =>
    exact ⟨h.within, fun hnone => h.bare (List.modify_eq_nil_iff.1 hnone)⟩

theorem near_run (calls : List ManagerCall) : Near (removals calls) (runManager calls) := by
  induction calls using List.reverseRecOn with
  | nil => exact near_zeros 0 (fun _ hc => absurd hc List.not_mem_nil)
  | append_singleton calls call ih =>
    rw [runManager, Run.run_concat, removals, List.foldl_append]
    exact ih.step call

theorem tidy_run {calls : List ManagerCall} (hfits : Along ManagerCall.step Fits {} calls) : Tidy (runManager calls) :=
  Run.along_invariant (I := Tidy) (fun _ call hm hfits => hm.step call hfits) tidy_empty calls hfits

/-- **A reactor's load is its count.** -/
theorem Tidy.count {i : Nat} (h : Tidy m) (hi : i < m.reactors.length) :
    m.deviceCounts[i]? = some (tally m.fdToReactor i) := by
  obtain ⟨count, hcount⟩ : ∃ count, m.deviceCounts[i]? = some count :=
    ⟨_, List.getElem?_eq_getElem (h.sizes ▸ hi)⟩
  rw [hcount, h.counts i count hcount]

/-- **The reactors' loads stay near each other.**  As long as every call fits, one reactor serves more descriptors than
another by one at most and by the removals since the reactors were set up. -/
theorem loads_near (calls : List ManagerCall) (hfits : Along ManagerCall.step Fits {} calls) :
    ∀ i j, i < (runManager calls).reactors.length → j < (runManager calls).reactors.length →
      tally (runManager calls).fdToReactor i ≤ tally (runManager calls).fdToReactor j + 1 + removals calls := by
  intro i j hi hj
  have htidy := tidy_run hfits
  have hwithin := (near_run calls).within _ (List.mem_of_getElem? (htidy.count hi)) _
    (List.mem_of_getElem? (htidy.count hj))
  omega

theorem fits_add {client : Option Nat} {created : Except String Unit} (hnew : fd ∉ m.fdToReactor) :
    Fits m (.add fd client created kernel) := fun hmem => absurd hmem hnew

/-- Two reactors, three devices, and one of these leaves. -/
def threeDevices : List ManagerCall :=
  [.setReactorCount 2 { walk := List.reverse, walk_perm := List.reverse_perm }, .add 5 (some 0) (.ok ()) (.ok ()),
    .add 6 (some 1) (.ok ()) (.ok ()), .add 7 (some 2) (.ok ()) (.ok ()), .remove 6]

theorem loads_near_three : tally (runManager threeDevices).fdToReactor 0 ≤
    tally (runManager threeDevices).fdToReactor 1 + 1 + removals threeDevices :=
  loads_near threeDevices (Run.along_cons.2 ⟨fun _ _ _ _ => rfl, Run.along_cons.2 ⟨fits_add (by decide),
    Run.along_cons.2 ⟨fits_add (by decide), Run.along_cons.2 ⟨fits_add (by decide),
    Run.along_cons.2 ⟨trivial, Run.along_nil⟩⟩⟩⟩⟩) 0 1 (by decide) (by decide)

/-! ## The devices that `init` is told of -/

theorem Tidy.sum (h : Tidy m) : m.deviceCounts.sum = m.fdToReactor.entries.length := by
  have hcounts : m.deviceCounts = (List.range m.reactors.length).map (tally m.fdToReactor) := by
    refine List.ext_getElem? (fun i => ?_)
    rw [List.getElem?_map]
    by_cases hi : i < m.reactors.length
    · rw [h.count hi, List.getElem?_range hi]
      rfl
    · rw [List.getElem?_eq_none (h.sizes ▸ Nat.le_of_not_lt hi), List.getElem?_eq_none (by simpa using hi)]
      rfl
  rw [hcounts, Tally.sum_tally m.fdToReactor h.below]

/-- `n` reactors that can serve `total` descriptors, `cap` each, and none of them more. -/
structure Planned (n total cap : Nat) (m : Manager) : Prop extends Tidy m where
  room : total ≤ cap * n
  length : m.reactors.length = n
  capped : ∀ c ∈ m.deviceCounts, c ≤ cap

variable {n total cap : Nat}

theorem Planned.place (h : Planned n total cap m) (hroom : m.fdToReactor.entries.length < total)
    (hnew : fd ∈ m.fdToReactor → ∀ r, m.reactors[minElement m.deviceCounts]? = some r → ¬ r.Takes fd expired kernel) :
    Planned n total cap (m.place fd client expired kernel).1 := by
  have htidy : (m.place fd client expired kernel).1.Tidy := h.toTidy.place hnew
  obtain ⟨ended, _, he, _⟩ | ⟨r, hr, _, he⟩ := place_cases m fd client expired kernel
  · rw [he]
    exact h
  · rw [he] at htidy ⊢
    refine ⟨htidy, h.room, List.length_set.trans h.length, ?_⟩
    have hne : m.deviceCounts ≠ [] := by
      intro hempty
      have hnone : m.reactors = [] := List.length_eq_zero_iff.1 (by rw [h.sizes, hempty]; rfl)
      rw [hnone] at hr
      cases hr
    obtain ⟨least, hleast⟩ := minElement_least hne
    refine LeastLoaded.capped_take h.capped hleast ?_
    rw [h.toTidy.sum, ← h.sizes, h.length]
    exact Nat.lt_of_lt_of_le hroom h.room

theorem Planned.remove (h : Planned n total cap m) (fd : Int) : Planned n total cap (m.remove fd) := by
  have htidy := h.toTidy.remove fd
  unfold Manager.remove at htidy ⊢
  split
  · exact h
  · rename_i idx he
    rw [he] at htidy
    exact ⟨htidy, h.room, (List.length_modify ..).trans h.length, LeastLoaded.capped_leave h.capped idx⟩

/-- **A call that keeps the plan leaves no reactor with more than its share.** -/
theorem Planned.step (h : Planned n total cap m) (hn : n ≠ 0) (call : ManagerCall) (hkeep : KeepsPlan total m call) :
    Planned n total cap (call.step m) := by
  cases call with
  | add fd client created kernel =>
    simp only [ManagerCall.step]
    obtain ⟨_, what, he⟩ | ⟨c, _, hempty, _⟩ | ⟨c, hc, _, he⟩ := add_cases m fd client created kernel
    · rw [he]
      exact h
    · exact absurd (h.length ▸ congrArg List.length hempty) hn
    · rw [he]
      exact h.place hkeep.2 (fun hmem => hkeep.1 hmem (by rw [hc]; exact Option.some_ne_none c))
  | remove fd => exact h.remove fd
  | setReactorCount newCount env =>
    have hzero : newCount = 0 := hkeep.2
    simp only [ManagerCall.step, Manager.setReactorCount, if_pos hzero]
    exact h
  | socketClosed fd => exact ⟨h.toTidy.socketClosed fd, h.room, (List.length_map _).trans h.length, h.capped⟩
  | reactorRemove i fd =>
    exact ⟨h.toTidy.reactorRemove i fd, h.room, (List.length_modify ..).trans h.length, h.capped⟩

/-- **A rebuild keeps to the plan** on its way, if it has no more to register than the plan allows. -/
theorem Planned.readd {env : Rebuild} : ∀ (l : List (Σ _ : Int, Nat)) (m : Manager), Planned n total cap m →
    l.NodupKeys → (∀ e ∈ l, e.1 ∉ m.fdToReactor) → m.fdToReactor.entries.length + l.length ≤ total →
      Planned n total cap (Manager.readd env l m).1
  | [], _, h, _, _, _ => h
  | e :: rest, m, h, hnodup, hnew, hroom => by
    have hrest : ∀ e' ∈ rest, e'.1 ∉ m.fdToReactor := fun e' he' => hnew e' (List.mem_cons_of_mem _ he')
    have hlen : m.fdToReactor.entries.length + rest.length < total := by
      rw [List.length_cons] at hroom
      omega
    obtain ⟨hfresh, hnodup⟩ := List.nodupKeys_cons.1 hnodup
    have hplace : Planned n total cap (m.place e.1 e.2 (env.alive e.1 < 3) (env.kernel e.1)).1 :=
      h.place (by omega) fun hmem => absurd hmem (hnew e List.mem_cons_self)
    rw [readd_cons]
    split
    · exact Planned.readd rest m h hnodup hrest (Nat.le_of_lt hlen)
    · obtain ⟨ended, hended, he, _⟩ | ⟨r, _, _, he⟩ := place_cases m e.1 e.2 (env.alive e.1 < 3) (env.kernel e.1)
      · rw [he]
        cases ended with
        | returned => exact absurd rfl hended
        | threw | undefined => exact h
      · rw [he] at hplace ⊢
        refine Planned.readd rest _ hplace hnodup (fun e' he' => ?_) ?_
        · rw [mem_placed, not_or]
          refine ⟨fun hsame => hfresh ?_, hrest e' he'⟩
          rw [← hsame]
          exact List.mem_map_of_mem he'
        · have hmore : (m.placed e.1 e.2 (minElement m.deviceCounts) r).fdToReactor.entries.length =
              m.fdToReactor.entries.length + 1 := by
            simp only [placed]
            rw [AList.entries_insert_of_notMem (hnew e List.mem_cons_self), List.length_cons]
          omega

/-- What a reactor serves at most: `MAX_PER`, or its part of all devices where the cores are too few. -/
def share (totalDevices hardwareConcurrency : Nat) : Nat :=
  max maxPer ((totalDevices + cores hardwareConcurrency - 1) / cores hardwareConcurrency)

theorem cores_pos (hardwareConcurrency : Nat) : 0 < cores hardwareConcurrency := by
  unfold cores
  split <;> omega

theorem le_ceil_mul (a : Nat) {b : Nat} (hb : 0 < b) : a ≤ (a + b - 1) / b * b := by
  have hdiv := Nat.div_add_mod (a + b - 1) b
  have hmod := Nat.mod_lt (a + b - 1) hb
  rw [Nat.mul_comm b] at hdiv
  omega

/-- **The reactors that `init` asks for can serve the devices**, each its share. -/
theorem share_room (totalDevices hardwareConcurrency : Nat) (hsize : totalDevices + maxPer - 1 < 2 ^ 64) :
    totalDevices ≤ share totalDevices hardwareConcurrency *
      min (cores hardwareConcurrency) (max 1 (needed totalDevices)) := by
  rcases Nat.le_total (cores hardwareConcurrency) (max 1 (needed totalDevices)) with h | h
  · rw [Nat.min_eq_left h]
    exact Nat.le_trans (le_ceil_mul totalDevices (cores_pos hardwareConcurrency))
      (Nat.mul_le_mul_right _ (Nat.le_max_right _ _))
  · rw [Nat.min_eq_right h]
    have hneeded : totalDevices ≤ needed totalDevices * maxPer := by
      rw [needed, Nat.mod_eq_of_lt hsize]
      exact le_ceil_mul totalDevices (by decide)
    calc totalDevices ≤ maxPer * needed totalDevices := by rw [Nat.mul_comm]; exact hneeded
      _ ≤ share totalDevices hardwareConcurrency * max 1 (needed totalDevices) :=
        Nat.mul_le_mul (Nat.le_max_left _ _) (Nat.le_max_right _ _)

/-- **`init` leaves as many reactors as the plan asks for.** -/
theorem planned_init {totalDevices hardwareConcurrency : Nat} {env : Rebuild}
    (hsize : totalDevices + maxPer - 1 < 2 ^ 64) (hold : m.fdToClient.entries.length ≤ totalDevices)
    (hreturned : (m.init totalDevices hardwareConcurrency env).2 = .returned) :
    Planned (min (cores hardwareConcurrency) (max 1 (needed totalDevices))) totalDevices
      (share totalDevices hardwareConcurrency) (m.init totalDevices hardwareConcurrency env).1 := by
  have hcores := cores_pos hardwareConcurrency
  unfold Manager.init at hreturned ⊢
  obtain ⟨hzero, _⟩ | ⟨_, what, _, he⟩ | ⟨_, _, _, k, what, _, he⟩ | ⟨_, _, _, he⟩ := setReactorCount_cases m
    (min (cores hardwareConcurrency) (max 1 (needed totalDevices))) env
  · omega
  · rw [he] at hreturned
    cases hreturned
  · rw [he] at hreturned
    cases hreturned
  · rw [he]
    have hlive : (live env m).length ≤ totalDevices := by
      refine Nat.le_trans (List.length_filter_le _ _) ?_
      rw [(env.walk_perm _).length_eq]
      exact hold
    refine Planned.readd _ _ ?_ (live_nodup env m) (fun e _ => AList.notMem_empty _) (by simpa using hlive)
    exact ⟨tidy_fresh _, share_room _ _ hsize, List.length_replicate, fun c hc => by
      rw [List.eq_of_mem_replicate hc]
      exact Nat.zero_le _⟩

/-- **No reactor serves more than `MAX_PER` devices**, or than an even share where the cores are too few, from an `init`
on, as long as every call fits and no more devices are registered at a time than `init` was told of. -/
theorem init_capacity (m : Manager) (totalDevices hardwareConcurrency : Nat) (env : Rebuild) (calls : List ManagerCall)
    (hsize : totalDevices + maxPer - 1 < 2 ^ 64) (hold : m.fdToClient.entries.length ≤ totalDevices)
    (hreturned : (m.init totalDevices hardwareConcurrency env).2 = .returned)
    (hkeep : Along ManagerCall.step (KeepsPlan totalDevices) (m.init totalDevices hardwareConcurrency env).1 calls) :
    ∀ i, tally (run ManagerCall.step (m.init totalDevices hardwareConcurrency env).1 calls).fdToReactor i ≤
      share totalDevices hardwareConcurrency := by
  intro i
  have hcores := cores_pos hardwareConcurrency
  have hplanned := Run.along_invariant (I := Planned _ totalDevices (share totalDevices hardwareConcurrency))
    (fun _ call hm hkeep => hm.step (by omega) call hkeep) (planned_init hsize hold hreturned) calls hkeep
  by_cases hi : i < (run ManagerCall.step (m.init totalDevices hardwareConcurrency env).1 calls).reactors.length
  · exact hplanned.capped _ (List.mem_of_getElem? (hplanned.toTidy.count hi))
  · rw [Tally.tally_eq_zero (fun fd hfd => hi (hplanned.below fd i hfd))]
    exact Nat.zero_le _

/-- A device comes, leaves, and another comes. -/
def comesAndGoes : List ManagerCall :=
  [.add 5 (some 0) (.ok ()) (.ok ()), .remove 5, .add 6 (some 1) (.ok ()) (.ok ())]

theorem init_capacity_two :
    tally (run ManagerCall.step (Manager.init {} 2 8 {}).1 comesAndGoes).fdToReactor 0 ≤ share 2 8 :=
  init_capacity {} 2 8 {} comesAndGoes (by decide) (by decide) (by decide)
    (Run.along_cons.2 ⟨⟨fits_add (by decide), by decide⟩, Run.along_cons.2 ⟨⟨trivial, trivial⟩,
      Run.along_cons.2 ⟨⟨fits_add (by decide), by decide⟩, Run.along_nil⟩⟩⟩) 0

end Manager

end PyNetX
