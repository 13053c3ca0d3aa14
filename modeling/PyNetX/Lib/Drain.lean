import Mathlib.Data.List.Basic
import Mathlib.Tactic.Common
/-!
# Drain — an incremental consumer of a chunked stream

A `Pass` looks at a whole buffer and either takes tokens off its front or finds nothing to take.  `drain` repeats it
until it finds nothing; `feed` appends chunk after chunk, draining after each one.  What a pass conserves, a whole
feed conserves (`feed_conserves`), and what a feed leaves behind, a further drain leaves alone (`feed_stable`).
-/
namespace Drain

variable {α τ : Type}

/-- A pass over a buffer: `none` when nothing can be taken, otherwise the tokens taken off the front, in order, and
the strictly shorter rest.  `span` is the input a token stands for. -/
structure Pass (α τ : Type) where
  run : List α → Option (List τ × List α)
  span : τ → List α
  conserves : ∀ {b ts b'}, run b = some (ts, b') → b = ts.flatMap span ++ b'
  shrinks : ∀ {b ts b'}, run b = some (ts, b') → b'.length < b.length

variable (P : Pass α τ)

/-- The pass, repeated until it takes nothing more. -/
def drain (b : List α) : List τ × List α :=
  match _h : P.run b with
  | none => ([], b)
  | some (ts, b') => (ts ++ (drain b').1, (drain b').2)
termination_by b.length
decreasing_by all_goals exact P.shrinks _h

theorem drain_none {b : List α} (h : P.run b = none) : drain P b = ([], b) := by
  rw [drain]
  split
  · rfl
  · rename_i ts b' h'
    rw [h] at h'
    cases h'

theorem drain_some {b b' : List α} {ts : List τ} (h : P.run b = some (ts, b')) :
    drain P b = (ts ++ (drain P b').1, (drain P b').2) := by
  rw [drain]
  split
  · rename_i h'
    rw [h] at h'
    cases h'
  · rename_i ts₁ b₁ h'
    rw [h] at h'
    cases h'
    rfl

/-- **Induction along the passes** of `drain`. -/
theorem drain_induction {C : List α → Prop} (none : ∀ b, P.run b = none → C b)
    (some : ∀ b ts b', P.run b = some (ts, b') → C b' → C b) (b : List α) : C b := by
  generalize hn : b.length = n
  induction n using Nat.strongRecOn generalizing b with
  | _ n ih =>
    cases h : P.run b with
    | none => exact none b h
    | some r => exact some b r.1 r.2 h (ih _ (hn ▸ P.shrinks h) _ rfl)

/-- **Draining loses nothing.** -/
theorem drain_conserves (b : List α) : (drain P b).1.flatMap P.span ++ (drain P b).2 = b := by
  induction b using drain_induction P with
  | none b h => rw [drain_none P h]; rfl
  | some b ts b' h ih =>
    rw [drain_some P h, List.flatMap_append, List.append_assoc, ih]
    exact (P.conserves h).symm

/-- **What a drain leaves is stable**: another pass takes nothing. -/
theorem drain_stable (b : List α) : P.run (drain P b).2 = none := by
  induction b using drain_induction P with
  | none b h => rw [drain_none P h]; exact h
  | some b ts b' h ih => rw [drain_some P h]; exact ih

theorem drain_forall {Q : τ → Prop} (hQ : ∀ b ts b', P.run b = some (ts, b') → ∀ t ∈ ts, Q t) (b : List α) :
    ∀ t ∈ (drain P b).1, Q t := by
  induction b using drain_induction P with
  | none b h => rw [drain_none P h]; intro t ht; cases ht
  | some b ts b' h ih =>
    rw [drain_some P h]
    intro t ht
    rcases List.mem_append.1 ht with ht | ht
    · exact hQ b ts b' h t ht
    · exact ih t ht

/-- The chunks, appended to the buffer one by one and drained after each. -/
def feed (b : List α) : List (List α) → List τ × List α
  | [] => ([], b)
  | r :: rs => ((drain P (b ++ r)).1 ++ (feed (drain P (b ++ r)).2 rs).1, (feed (drain P (b ++ r)).2 rs).2)

theorem feed_append : ∀ (b : List α) (rs rs' : List (List α)),
    feed P b (rs ++ rs') = ((feed P b rs).1 ++ (feed P (feed P b rs).2 rs').1, (feed P (feed P b rs).2 rs').2)
  | _, [], _ => rfl
  | b, r :: rs, rs' => by
    simp only [List.cons_append, feed, feed_append _ rs rs', List.append_assoc]

theorem feed_concat (b : List α) (rs : List (List α)) (r : List α) :
    feed P b (rs ++ [r]) = ((feed P b rs).1 ++ (drain P ((feed P b rs).2 ++ r)).1,
      (drain P ((feed P b rs).2 ++ r)).2) := by
  rw [feed_append]
  simp only [feed, List.append_nil]

/-- **A feed loses nothing**: the buffer and the chunks are the tokens' spans, in order, and the rest. -/
theorem feed_conserves : ∀ (b : List α) (rs : List (List α)),
    (feed P b rs).1.flatMap P.span ++ (feed P b rs).2 = b ++ rs.flatten
  | b, [] => by simp [feed]
  | b, r :: rs => by
    simp only [feed, List.flatMap_append, List.append_assoc, List.flatten_cons]
    rw [feed_conserves _ rs, ← List.append_assoc, drain_conserves, List.append_assoc]

theorem feed_stable {b : List α} (hb : P.run b = none) : ∀ rs : List (List α), P.run (feed P b rs).2 = none
  | [] => hb
  | r :: rs => feed_stable (drain_stable P (b ++ r)) rs

theorem feed_forall {Q : τ → Prop} (hQ : ∀ b ts b', P.run b = some (ts, b') → ∀ t ∈ ts, Q t) :
    ∀ (b : List α) (rs : List (List α)), ∀ t ∈ (feed P b rs).1, Q t
  | _, [] => fun t ht => by cases ht
  | b, r :: rs => fun t ht => by
    rcases List.mem_append.1 ht with ht | ht
    · exact drain_forall P hQ (b ++ r) t ht
    · exact feed_forall hQ _ rs t ht

/-- **The chunk that brings the first token**: everything before it only grew the buffer. -/
theorem feed_first : ∀ (b : List α) (rs : List (List α)), (feed P b rs).1 ≠ [] →
    ∃ pre r post, rs = pre ++ r :: post ∧ feed P b pre = ([], b ++ pre.flatten) ∧
      (drain P (b ++ pre.flatten ++ r)).1 ≠ []
  | b, [], h => absurd rfl h
  | b, r :: rs, h => by
    by_cases hr : (drain P (b ++ r)).1 = []
    · have hd : (drain P (b ++ r)).2 = b ++ r := by
        have := drain_conserves P (b ++ r)
        rwa [hr, List.flatMap_nil, List.nil_append] at this
      simp only [feed, hr, List.nil_append] at h
      obtain ⟨pre, r', post, rfl, hpre, hne⟩ := feed_first _ rs h
      rw [hd] at hpre hne
      refine ⟨r :: pre, r', post, rfl, ?_, ?_⟩
      · simp only [feed, hr, hd, hpre, List.nil_append, List.flatten_cons, List.append_assoc]
      · rwa [List.flatten_cons, ← List.append_assoc]
    · exact ⟨[], r, rs, rfl, by simp [feed], by simpa using hr⟩

theorem feed_nils {b : List α} (hb : P.run b = none) : ∀ rs : List (List α), rs.flatten = [] → feed P b rs = ([], b)
  | [], _ => rfl
  | r :: rs, h => by
    obtain ⟨rfl, hrs⟩ : r = [] ∧ rs.flatten = [] := by simpa using h
    simp only [feed, List.append_nil, drain_none P hb, feed_nils hb rs hrs]

end Drain
