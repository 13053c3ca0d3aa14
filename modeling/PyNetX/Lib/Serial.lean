import Mathlib.Data.List.Basic
import Mathlib.Logic.Function.Basic
import PyNetX.Lib.Mutex
import PyNetX.Lib.Run
/-!
# Serial — calls in turns, under a lock

Threads share a resource.  Each takes the lock, makes calls one after another, every call in turns, and sets the lock
free.  Whatever the order in which the threads take their turns, the resource and the results are those of the calls made
one after another, each in one go (`sound_run`), and the calls of one hold of the lock follow each other.
-/
namespace Serial

open Run (run Along)

variable {ρ κ ι σ ο τ : Type}

/-- A kind of call: where it starts, or what it comes to at once; and what a turn with an input does to the resource and
to the call's locals, if the input is one for them. -/
structure Program (ρ κ ι σ ο : Type) where
  start : κ → σ ⊕ ο
  turn : ρ → σ → ι → Option (ρ × (σ ⊕ ο))

variable (P : Program ρ κ ι σ ο)

/-- A call goes on with one input. -/
def Program.next (x : ρ × (σ ⊕ ο)) (i : ι) : ρ × (σ ⊕ ο) :=
  match x with
  | (r, .inr o) => (r, .inr o)
  | (r, .inl l) => (P.turn r l i).getD (r, .inl l)

/-- A call in one go. -/
def Program.exec (r : ρ) (call : κ) (inputs : List ι) : ρ × (σ ⊕ ο) := run P.next (r, P.start call) inputs

theorem Program.exec_concat (r : ρ) (call : κ) (inputs : List ι) (i : ι) :
    P.exec r call (inputs ++ [i]) = P.next (P.exec r call inputs) i := Run.run_concat inputs i

/-- Every input is one for the call where it then is. -/
def Program.Fits (r : ρ) (call : κ) (inputs : List ι) : Prop :=
  Along P.next (fun x i => ∃ l, x.2 = .inl l ∧ (P.turn x.1 l i).isSome = true) (r, P.start call) inputs

/-- Where a thread is: `entry` counts the holds of the lock. -/
inductive Pc (κ ι σ : Type) where
  | outside
  | waits
  | between (entry : Nat)
  | inside (entry : Nat) (call : κ) (inputs : List ι) (locals : σ)

def Pc.hold? : Pc κ ι σ → Option Nat
  | .outside | .waits => none
  | .between entry | .inside entry _ _ _ => some entry

def Pc.call? : Pc κ ι σ → Option (κ × List ι)
  | .inside _ call inputs _ => some (call, inputs)
  | _ => none

/-- A call that has ended: who made it, in which hold of the lock, and what it came to. -/
structure Ended (κ ι ο τ : Type) where
  thread : τ
  entry : Nat
  call : κ
  inputs : List ι
  result : ο

structure Threads (ρ κ ι σ ο τ : Type) where
  shared : ρ
  holder : Option τ := none
  pcs : τ → Pc κ ι σ := fun _ => .outside
  entries : Nat := 0
  ended : List (Ended κ ι ο τ) := []

inductive Turn (κ ι τ : Type) where
  | ask (t : τ)
  | enter (t : τ)
  | call (t : τ) (call : κ)
  | go (t : τ) (i : ι)
  | leave (t : τ)

namespace Threads

variable [DecidableEq τ]

def goto (s : Threads ρ κ ι σ ο τ) (t : τ) (pc : Pc κ ι σ) : Threads ρ κ ι σ ο τ :=
  { s with pcs := Function.update s.pcs t pc }

/-- A call goes on, or has ended. -/
def settle (s : Threads ρ κ ι σ ο τ) (t : τ) (entry : Nat) (call : κ) (inputs : List ι) : σ ⊕ ο → Threads ρ κ ι σ ο τ
  | .inl locals => s.goto t (.inside entry call inputs locals)
  | .inr result => { s.goto t (.between entry) with ended := s.ended ++ [⟨t, entry, call, inputs, result⟩] }

def step (s : Threads ρ κ ι σ ο τ) : Turn κ ι τ → Threads ρ κ ι σ ο τ
  | .ask t =>
    match s.pcs t with
    | .outside => s.goto t .waits
    | _ => s
  | .enter t =>
    match s.pcs t, s.holder with
    | .waits, none => { s.goto t (.between s.entries) with holder := some t, entries := s.entries + 1 }
    | _, _ => s
  | .call t call =>
    match s.pcs t with
    | .between entry => s.settle t entry call [] (P.start call)
    | _ => s
  | .go t i =>
    match s.pcs t with
    | .inside entry call inputs locals =>
      match P.turn s.shared locals i with
      | none => s
      | some (r, x) => { s with shared := r }.settle t entry call (inputs ++ [i]) x
    | _ => s
  | .leave t =>
    match s.pcs t with
    | .between _ => { s.goto t .outside with holder := none }
    | _ => s

end Threads

/-- The holder's call, if one is under way. -/
def Threads.underWay (s : Threads ρ κ ι σ ο τ) : Option (κ × List ι) := s.holder.bind fun t => (s.pcs t).call?

/-- What a call that has ended makes of the resource, in one go. -/
def Ended.after (r : ρ) (e : Ended κ ι ο τ) : ρ := (P.exec r e.call e.inputs).1

/-- In one go, a call comes to the same. -/
structure Ended.Comes (r : ρ) (e : Ended κ ι ο τ) : Prop where
  fits : P.Fits r e.call e.inputs
  comes : (P.exec r e.call e.inputs).2 = .inr e.result

/-- The resource after the calls that have ended, one after another. -/
def serial (r₀ : ρ) (es : List (Ended κ ι ο τ)) : ρ := run (Ended.after P) r₀ es

variable {P} {r₀ r : ρ} {s : Threads ρ κ ι σ ο τ} {t : τ} {entry : Nat} {call : κ} {inputs : List ι}

/-- The threads are where a serial run of the calls has them. -/
structure Sound (P : Program ρ κ ι σ ο) (r₀ : ρ) (s : Threads ρ κ ι σ ο τ) : Prop where
  guards : Mutex.Guards s.holder fun t => (s.pcs t).hold?.isSome = true
  ended : Along (Ended.after P) (Ended.Comes P) r₀ s.ended
  idle : (∀ t, (s.pcs t).call? = none) → s.shared = serial P r₀ s.ended
  inside : ∀ t entry call inputs locals, s.pcs t = .inside entry call inputs locals →
    P.Fits (serial P r₀ s.ended) call inputs ∧ P.exec (serial P r₀ s.ended) call inputs = (s.shared, .inl locals)
  entry : ∀ t n, (s.pcs t).hold? = some n → n + 1 = s.entries ∧ ∀ e ∈ s.ended, e.entry = n → e.thread = t
  below : ∀ e ∈ s.ended, e.entry < s.entries
  sorted : s.ended.Pairwise fun e e' => e.entry ≤ e'.entry ∧ (e.entry = e'.entry → e.thread = e'.thread)

theorem sound_start (r₀ : ρ) : Sound P r₀ ({ shared := r₀ } : Threads ρ κ ι σ ο τ) where
  guards _ := ⟨fun h => (by cases h), fun h => (by cases h)⟩
  ended := Run.along_nil
  idle _ := rfl
  inside _ _ _ _ _ h := by cases h
  entry _ _ h := by cases h
  below _ h := absurd h List.not_mem_nil
  sorted := List.Pairwise.nil

/-- The one who holds the lock is alone in a call. -/
theorem Sound.alone (h : Sound P r₀ s) (ht : (s.pcs t).hold? = some entry) {u : τ} (hu : u ≠ t) :
    (s.pcs u).hold? = none := by
  cases hentry : (s.pcs u).hold? with
  | none => rfl
  | some n => exact absurd (h.guards.unique (by simp [hentry]) (by simp [ht])) hu

/-- **The resource is that of a serial run**, of the calls that have ended and of what is done of the one under way. -/
theorem Sound.shared (h : Sound P r₀ s) :
    (s.underWay = none ∧ s.shared = serial P r₀ s.ended) ∨
      ∃ call inputs locals, s.underWay = some (call, inputs) ∧ P.Fits (serial P r₀ s.ended) call inputs ∧
        P.exec (serial P r₀ s.ended) call inputs = (s.shared, .inl locals) := by
  have hinside : ∀ t, (s.pcs t).call? ≠ none → s.holder = some t := fun t ht => by
    refine h.guards.holder ?_
    cases hpc : s.pcs t with
    | inside => rfl
    | outside | waits | between => rw [hpc] at ht; exact absurd rfl ht
  cases hholder : s.holder with
  | none =>
    refine Or.inl ⟨by rw [Threads.underWay, hholder]; rfl, h.idle fun t => ?_⟩
    by_contra ht
    rw [hinside t ht] at hholder
    cases hholder
  | some t =>
    have hunder : s.underWay = (s.pcs t).call? := by rw [Threads.underWay, hholder]; rfl
    rw [hunder]
    cases hpc : s.pcs t with
    | inside n call inputs locals => exact Or.inr ⟨call, inputs, locals, rfl, h.inside t n call inputs locals hpc⟩
    | outside | waits | between =>
      refine Or.inl ⟨rfl, h.idle fun u => ?_⟩
      by_contra hu
      obtain rfl : t = u := Option.some.inj (hholder.symm.trans (hinside u hu))
      rw [hpc] at hu
      exact hu rfl

theorem serial_concat (es : List (Ended κ ι ο τ)) (e : Ended κ ι ο τ) :
    serial P r₀ (es ++ [e]) = e.after P (serial P r₀ es) := Run.run_concat es e

/-- A call that has ended comes to the same, behind the calls that had ended before it. -/
theorem Sound.comes (h : Sound P r₀ s) {es : List (Ended κ ι ο τ)} {e : Ended κ ι ο τ} (he : es ++ [e] <+: s.ended) :
    Along (Ended.after P) (Ended.Comes P) r₀ es ∧ e.Comes P (serial P r₀ es) :=
  Run.along_concat.1 (h.ended.of_front he)

variable [DecidableEq τ]

theorem goto_self (pc : Pc κ ι σ) : (s.goto t pc).pcs t = pc := Function.update_self ..

theorem goto_other {u : τ} (hu : u ≠ t) (pc : Pc κ ι σ) : (s.goto t pc).pcs u = s.pcs u := Function.update_of_ne hu ..

/-- The holder stays the holder, wherever in its hold it goes. -/
theorem Sound.guards_goto (h : Sound P r₀ s) (ht : (s.pcs t).hold? = some entry) {pc : Pc κ ι σ}
    (hpc : pc.hold? = some entry) : Mutex.Guards s.holder fun u => ((s.goto t pc).pcs u).hold?.isSome = true := by
  refine h.guards.congr fun u => ?_
  by_cases hu : u = t
  · subst hu
    rw [goto_self, hpc, ht]
  · rw [goto_other hu]

/-- Nobody but the holder is in a hold, wherever the holder goes. -/
theorem Sound.only (h : Sound P r₀ s) (ht : (s.pcs t).hold? = some entry) {pc : Pc κ ι σ} {u : τ} {n : Nat}
    (hu : ((s.goto t pc).pcs u).hold? = some n) : u = t := by
  by_contra hut
  rw [goto_other hut, h.alone ht hut] at hu
  cases hu

/-- **The holder's call goes on, or ends.** -/
theorem Sound.settle (h : Sound P r₀ s) (ht : (s.pcs t).hold? = some entry) {x : σ ⊕ ο}
    (hfits : P.Fits (serial P r₀ s.ended) call inputs) (hexec : P.exec (serial P r₀ s.ended) call inputs = (r, x)) :
    Sound P r₀ (({ s with shared := r } : Threads ρ κ ι σ ο τ).settle t entry call inputs x) := by
  obtain ⟨hentries, hmine⟩ := h.entry t entry ht
  cases x with
  | inl locals =>
    refine ⟨h.guards_goto ht rfl, h.ended, fun hnone => ?_, fun u n k is l hu => ?_, fun u n hu => ?_, h.below, h.sorted⟩
    · have hcall := hnone t
      rw [Threads.settle, goto_self] at hcall
      cases hcall
    · obtain rfl : u = t := h.only ht (congrArg Pc.hold? hu)
      rw [Threads.settle, goto_self] at hu
      cases hu
      exact ⟨hfits, hexec⟩
    · obtain rfl : u = t := h.only ht hu
      rw [Threads.settle, goto_self] at hu
      cases hu
      exact ⟨hentries, hmine⟩
  | inr result =>
    have hcomes : Ended.Comes P (serial P r₀ s.ended) (⟨t, entry, call, inputs, result⟩ : Ended κ ι ο τ) :=
      ⟨hfits, congrArg Prod.snd hexec⟩
    refine ⟨h.guards_goto ht rfl, Run.along_concat.2 ⟨h.ended, hcomes⟩, fun _ => ?_, fun u n k is l hu => ?_,
      fun u n hu => ?_, fun e he => ?_, ?_⟩
    · rw [Threads.settle, serial_concat, Ended.after, hexec]
      rfl
    · obtain rfl : u = t := h.only ht (congrArg Pc.hold? hu)
      rw [Threads.settle, goto_self] at hu
      cases hu
    · obtain rfl : u = t := h.only ht hu
      rw [Threads.settle, goto_self] at hu
      cases hu
      refine ⟨hentries, fun e he hn => ?_⟩
      rcases List.mem_append.1 he with he | he
      · exact hmine e he hn
      · rw [List.mem_singleton.1 he]
    · rcases List.mem_append.1 he with he | he
      · exact h.below e he
      · rw [List.mem_singleton.1 he]
        exact Nat.lt_of_succ_le (Nat.le_of_eq hentries)
    · refine List.pairwise_append.2 ⟨h.sorted, List.pairwise_singleton _ _, fun e he e' he' => ?_⟩
      rw [List.mem_singleton.1 he']
      have hle : e.entry ≤ entry := Nat.le_of_lt_succ (Nat.lt_of_lt_of_eq (h.below e he) hentries.symm)
      exact ⟨hle, hmine e he⟩

/-- Between two calls of the holder nothing is under way. -/
theorem Sound.between (h : Sound P r₀ s) (hpc : s.pcs t = .between entry) : s.shared = serial P r₀ s.ended := by
  refine h.idle fun u => ?_
  by_cases hu : u = t
  · rw [hu, hpc]
    rfl
  · have hout := h.alone (t := t) (by rw [hpc]; rfl) hu
    cases hu' : s.pcs u with
    | inside => rw [hu'] at hout; cases hout
    | outside | waits | between => rfl

theorem inside_of_goto {pc : Pc κ ι σ} (hpc : pc.call? = none) {u : τ} {n : Nat} {k : κ} {is : List ι} {l : σ}
    (hu : (s.goto t pc).pcs u = .inside n k is l) : s.pcs u = .inside n k is l := by
  by_cases hut : u = t
  · subst hut
    rw [goto_self] at hu
    rw [hu] at hpc
    cases hpc
  · rwa [goto_other hut] at hu

theorem idle_of_goto {pc : Pc κ ι σ} (ht : (s.pcs t).call? = none) (h : ∀ u, ((s.goto t pc).pcs u).call? = none)
    (u : τ) : (s.pcs u).call? = none := by
  by_cases hu : u = t
  · rwa [hu]
  · rw [← goto_other hu pc]
    exact h u

/-- **The threads take a turn.** -/
theorem Sound.step (h : Sound P r₀ s) (turn : Turn κ ι τ) : Sound P r₀ (s.step P turn) := by
  cases turn with
  | ask t =>
    rw [Threads.step]
    split
    · rename_i hpc
      have hentry : ∀ u, ((s.goto t .waits).pcs u).hold? = (s.pcs u).hold? := fun u => by
        by_cases hu : u = t
        · subst hu
          rw [goto_self, hpc]
          rfl
        · rw [goto_other hu]
      exact ⟨h.guards.congr fun u => by rw [hentry], h.ended, fun hnone => h.idle (idle_of_goto (by rw [hpc]; rfl) hnone),
        fun u n k is l hu => h.inside u n k is l (inside_of_goto rfl hu),
        fun u n hu => h.entry u n (by rwa [hentry] at hu), h.below, h.sorted⟩
    · exact h
  | enter t =>
    rw [Threads.step]
    split
    · rename_i hpc hfree
      have hout : ∀ u, (s.pcs u).hold? = none := fun u => by
        have hnot := h.guards.outside hfree (t := u)
        rwa [Bool.not_eq_true, Option.isSome_eq_false_iff, Option.isNone_iff_eq_none] at hnot
      have honly : ∀ u n, ((s.goto t (.between s.entries)).pcs u).hold? = some n → u = t ∧ n = s.entries := by
        intro u n hu
        by_cases hut : u = t
        · subst hut
          rw [goto_self] at hu
          exact ⟨rfl, (Option.some.inj hu).symm⟩
        · rw [goto_other hut, hout] at hu
          cases hu
      have hguards : Mutex.Guards (some t) fun u =>
          ((s.goto t (.between s.entries)).pcs u).hold?.isSome = true := by
        refine (hfree ▸ h.guards).enter ?_ fun u hu => by rw [goto_other hu]
        rw [goto_self]
        rfl
      refine ⟨hguards, h.ended, fun hnone => h.idle (idle_of_goto (by rw [hpc]; rfl) hnone),
        fun u n k is l hu => h.inside u n k is l (inside_of_goto rfl hu), fun u n hu => ?_,
        fun e he => Nat.lt_succ_of_lt (h.below e he), h.sorted⟩
      obtain ⟨rfl, rfl⟩ := honly u n hu
      exact ⟨rfl, fun e he hn => absurd (h.below e he) (by rw [hn]; exact Nat.lt_irrefl _)⟩
    · exact h
  | call t call =>
    rw [Threads.step]
    split
    · rename_i entry hpc
      have ht : (s.pcs t).hold? = some entry := by rw [hpc]; rfl
      refine h.settle ht Run.along_nil ?_
      rw [← h.between hpc]
      rfl
    · exact h
  | go t i =>
    rw [Threads.step]
    split
    · rename_i entry call inputs locals hpc
      have ht : (s.pcs t).hold? = some entry := by rw [hpc]; rfl
      cases hturn : P.turn s.shared locals i with
      | none => exact h
      | some res =>
        obtain ⟨r, x⟩ := res
        obtain ⟨hfits, hexec⟩ := h.inside t entry call inputs locals hpc
        have hnow : run P.next (serial P r₀ s.ended, P.start call) inputs = (s.shared, .inl locals) := hexec
        refine h.settle ht (Run.along_concat.2 ⟨hfits, locals, ?_, ?_⟩) ?_
        · rw [hnow]
        · rw [hnow, hturn]
          rfl
        · rw [P.exec_concat, hexec]
          simp only [Program.next, hturn, Option.getD_some]
    · exact h
  | leave t =>
    rw [Threads.step]
    split
    · rename_i entry hpc
      have ht : (s.pcs t).hold? = some entry := by rw [hpc]; rfl
      have hholder : s.holder = some t := h.guards.holder (by rw [ht]; rfl)
      have hnobody : ∀ u, ((s.goto t .outside).pcs u).hold? = none := fun u => by
        by_cases hu : u = t
        · rw [hu, goto_self]
          rfl
        · rw [goto_other hu]
          exact h.alone ht hu
      have hguards : Mutex.Guards none fun u => ((s.goto t .outside).pcs u).hold?.isSome = true := by
        refine (hholder ▸ h.guards).leave ?_ fun u hu => by rw [goto_other hu]
        rw [hnobody]
        exact Bool.false_ne_true
      exact ⟨hguards, h.ended, fun hnone => h.idle (idle_of_goto (by rw [hpc]; rfl) hnone),
        fun u n k is l hu => h.inside u n k is l (inside_of_goto rfl hu),
        fun u n hu => absurd ((hnobody u).symm.trans hu) (Option.some_ne_none n).symm, h.below, h.sorted⟩
    · exact h

/-- **Calls in turns are calls in one go**, whatever the order of the turns. -/
theorem sound_run (turns : List (Turn κ ι τ)) :
    Sound P r₀ (run (Threads.step P) ({ shared := r₀ } : Threads ρ κ ι σ ο τ) turns) :=
  Run.run_invariant (fun _ turn h => h.step turn) turns _ (sound_start r₀)

/-- A turn ends no call, or one, behind which nothing is under way. -/
theorem Sound.step_ended (h : Sound P r₀ s) (turn : Turn κ ι τ) : (s.step P turn).ended = s.ended ∨
    ∃ e, (s.step P turn).ended = s.ended ++ [e] ∧ (s.step P turn).shared = serial P r₀ (s.ended ++ [e]) := by
  cases turn with
  | ask t | enter t | leave t =>
    rw [Threads.step]
    split <;> exact Or.inl rfl
  | call t call =>
    rw [Threads.step]
    split
    · rename_i entry hpc
      have hexec : P.exec (serial P r₀ s.ended) call [] = (s.shared, P.start call) := by rw [h.between hpc]; rfl
      cases hstart : P.start call with
      | inl locals => exact Or.inl rfl
      | inr result => exact Or.inr ⟨_, rfl, by rw [serial_concat, Ended.after, hexec]; rfl⟩
    · exact Or.inl rfl
  | go t i =>
    rw [Threads.step]
    split
    · rename_i entry call inputs locals hpc
      cases hturn : P.turn s.shared locals i with
      | none => exact Or.inl rfl
      | some res =>
        obtain ⟨r, x⟩ := res
        have hexec : P.exec (serial P r₀ s.ended) call (inputs ++ [i]) = (r, x) := by
          rw [P.exec_concat, (h.inside t entry call inputs locals hpc).2]
          simp only [Program.next, hturn, Option.getD_some]
        cases x with
        | inl locals' => exact Or.inl rfl
        | inr result => exact Or.inr ⟨_, rfl, by rw [serial_concat, Ended.after, hexec]; rfl⟩
    · exact Or.inl rfl

/-- At some time in the run the calls `es` had ended, and nothing was under way. -/
def Once (P : Program ρ κ ι σ ο) (r₀ : ρ) (turns : List (Turn κ ι τ)) (es : List (Ended κ ι ο τ)) : Prop :=
  ∃ front, front <+: turns ∧ (run (Threads.step P) ({ shared := r₀ } : Threads ρ κ ι σ ο τ) front).ended = es ∧
    (run (Threads.step P) ({ shared := r₀ } : Threads ρ κ ι σ ο τ) front).shared = serial P r₀ es

/-- **Every front of the calls that have ended was once all of them.** -/
theorem once_of_ended (turns : List (Turn κ ι τ)) : ∀ {es : List (Ended κ ι ο τ)},
    es <+: (run (Threads.step P) ({ shared := r₀ } : Threads ρ κ ι σ ο τ) turns).ended → Once P r₀ turns es := by
  induction turns using List.reverseRecOn with
  | nil =>
    intro es hes
    exact ⟨[], List.prefix_refl _, (List.prefix_nil.1 hes).symm, by rw [List.prefix_nil.1 hes]; rfl⟩
  | append_singleton turns turn ih =>
    intro es hes
    have hbefore (hes : es <+: (run (Threads.step P) ({ shared := r₀ } : Threads ρ κ ι σ ο τ) turns).ended) :
        Once P r₀ (turns ++ [turn]) es := by
      obtain ⟨front, hprefix, hreached⟩ := ih hes
      exact ⟨front, hprefix.trans (List.prefix_append _ _), hreached⟩
    rw [Run.run_concat] at hes
    have hsound : Sound P r₀ (run (Threads.step P) ({ shared := r₀ } : Threads ρ κ ι σ ο τ) turns) := sound_run turns
    obtain hsame | ⟨e, hended, hshared⟩ := hsound.step_ended turn
    · exact hbefore (hsame ▸ hes)
    · rw [hended] at hes
      rcases List.prefix_concat_iff.1 hes with rfl | hes
      · exact ⟨_, List.prefix_refl _, by rw [Run.run_concat, hended], by rw [Run.run_concat, hshared]⟩
      · exact hbefore hes

end Serial
