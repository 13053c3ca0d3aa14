import Mathlib.Data.List.Basic
import Mathlib.Data.List.Infix
import Mathlib.Tactic.Common
/-!
# Outbox — what is made is sent in time

A component makes messages in some of its acts and sends them in others.  Its acts are `Prompt` when it sends what it
made, in that order and nothing twice, and has sent everything whenever it calls outside and when it ends.  Prompt
pieces make a prompt whole (`Prompt.append`).
-/
namespace Outbox

variable {α ε : Type} {made sent : α → List ε} {calls : α → Prop}

/-- At every moment a prefix of what was made has been sent; in front of a call, and at the end, all of it. -/
structure Prompt (made sent : α → List ε) (calls : α → Prop) (acts : List α) : Prop where
  inOrder : ∀ pre post, acts = pre ++ post → pre.flatMap sent <+: pre.flatMap made
  beforeCalls : ∀ pre a post, acts = pre ++ a :: post → calls a → pre.flatMap sent = pre.flatMap made
  atEnd : acts.flatMap sent = acts.flatMap made

theorem prompt_nil : Prompt made sent calls [] where
  inOrder pre post h := by
    obtain ⟨rfl, -⟩ := List.append_eq_nil_iff.1 h.symm
    exact List.prefix_rfl
  beforeCalls pre a post h := absurd h.symm (List.append_ne_nil_of_right_ne_nil pre (List.cons_ne_nil a post))
  atEnd := rfl

/-- **Prompt pieces make a prompt whole.** -/
theorem Prompt.append {xs ys : List α} (hx : Prompt made sent calls xs) (hy : Prompt made sent calls ys) :
    Prompt made sent calls (xs ++ ys) where
  inOrder pre post h := by
    obtain ⟨pre', rfl, hys⟩ | ⟨post', hxs, -⟩ := List.append_eq_append_iff.1 h
    · rw [List.flatMap_append, List.flatMap_append, hx.atEnd]
      exact (List.prefix_append_right_inj _).2 (hy.inOrder pre' post hys)
    · exact hx.inOrder pre post' hxs
  beforeCalls pre a post h ha := by
    obtain ⟨pre', rfl, hys⟩ | ⟨post', hxs, hpost⟩ := List.append_eq_append_iff.1 h
    · rw [List.flatMap_append, List.flatMap_append, hx.atEnd, hy.beforeCalls pre' a post hys ha]
    · cases post' with
      | nil =>
        rw [List.append_nil] at hxs
        rw [← hxs]
        exact hx.atEnd
      | cons b post' =>
        cases hpost
        exact hx.beforeCalls pre a post' hxs ha
  atEnd := by rw [List.flatMap_append, List.flatMap_append, hx.atEnd, hy.atEnd]

theorem flatMap_front_eq_nil {f : α → List ε} {acts pre post : List α} (h : acts = pre ++ post)
    (hf : ∀ a ∈ acts, f a = []) : pre.flatMap f = [] :=
  List.flatMap_eq_nil_iff.2 fun a ha => hf a (h ▸ List.mem_append_left post ha)

/-- Acts that make and send nothing. -/
theorem prompt_of_silent {acts : List α} (h : ∀ a ∈ acts, made a = [] ∧ sent a = []) : Prompt made sent calls acts where
  inOrder pre post hacts := by
    rw [flatMap_front_eq_nil hacts (fun a ha => (h a ha).2)]
    exact List.nil_prefix
  beforeCalls pre a post hacts _ := by
    rw [flatMap_front_eq_nil hacts (fun a ha => (h a ha).1), flatMap_front_eq_nil hacts (fun a ha => (h a ha).2)]
  atEnd := by
    rw [flatMap_front_eq_nil (List.append_nil acts).symm (fun a ha => (h a ha).1),
      flatMap_front_eq_nil (List.append_nil acts).symm (fun a ha => (h a ha).2)]

/-- **An act that makes messages, and then the sending of them all**, with no call in between. -/
theorem prompt_flush {a : α} {acts : List α} (ha : sent a = [] ∧ ¬ calls a)
    (hacts : ∀ b ∈ acts, made b = [] ∧ ¬ calls b) (hsent : acts.flatMap sent = made a) :
    Prompt made sent calls (a :: acts) where
  inOrder pre post h := by
    cases pre with
    | nil => exact List.prefix_rfl
    | cons b pre =>
      obtain ⟨rfl, hpre⟩ := List.cons.inj h
      have hmade : pre.flatMap made = [] := flatMap_front_eq_nil hpre (fun c hc => (hacts c hc).1)
      rw [List.flatMap_cons, List.flatMap_cons, ha.1, hmade, List.nil_append, List.append_nil, ← hsent, hpre]
      exact ⟨post.flatMap sent, List.flatMap_append.symm⟩
  beforeCalls pre b post h hb := by
    cases pre with
    | nil => exact absurd ((List.cons.inj h).1 ▸ hb) ha.2
    | cons c pre =>
      have hmem : b ∈ acts := by
        rw [(List.cons.inj h).2]
        simp
      exact absurd hb (hacts b hmem).2
  atEnd := by
    rw [List.flatMap_cons, List.flatMap_cons, ha.1, List.nil_append, hsent,
      flatMap_front_eq_nil (List.append_nil acts).symm (fun c hc => (hacts c hc).1), List.append_nil]

end Outbox
