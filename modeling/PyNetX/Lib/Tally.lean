import Mathlib.Algebra.BigOperators.Group.Finset.Basic
import Mathlib.Algebra.Order.Ring.Nat
import Mathlib.Data.List.AList
import Mathlib.Tactic.Common
/-!
# Tally — how many keys of a finite map have a value

What `insert` and `erase` do to the count, and what a lookup says of it.
-/
namespace Tally

variable {α β : Type} [DecidableEq β]

/-- The keys of `m` that `b` is the value of, counted. -/
def tally (m : AList (fun _ : α => β)) (b : β) : Nat := m.entries.countP (fun e => e.2 = b)

variable [DecidableEq α] {m : AList (fun _ : α => β)} {a : α} {b c : β}

/-- **A key's leaving takes one from its value's count**, and from no other. -/
theorem tally_erase (h : m.lookup a = some b) :
    tally m c = tally (m.erase a) c + if b = c then 1 else 0 := by
  have hmem : a ∈ m.entries.keys := AList.mem_keys.1 (AList.lookup_isSome.1 (by rw [h]; rfl))
  obtain ⟨b', front, back, hfront, hsplit, herase⟩ := List.exists_of_kerase hmem
  have hb : b' = b := by
    have hlookup : m.entries.dlookup a = some b := h
    rw [hsplit, List.dlookup_append, List.dlookup_eq_none.2 hfront, Option.none_or, List.dlookup_cons_eq] at hlookup
    exact Option.some.inj hlookup
  subst hb
  have hcount : (m.erase a).entries = front ++ back := herase
  unfold tally
  rw [hcount, hsplit]
  simp only [List.countP_append, List.countP_cons, decide_eq_true_eq]
  omega

theorem tally_erase_of_notMem (h : a ∉ m) : tally (m.erase a) c = tally m c := by
  have hentries : (m.erase a).entries = m.entries := List.kerase_of_notMem_keys h
  rw [tally, hentries, tally]

/-- **An insertion takes the key's old value out of the count and puts its new one in.** -/
theorem tally_insert : tally (m.insert a b) c = tally (m.erase a) c + if b = c then 1 else 0 := by
  unfold tally
  rw [AList.entries_insert, List.countP_cons]
  simp only [decide_eq_true_eq]
  rfl

theorem tally_insert_of_notMem (h : a ∉ m) : tally (m.insert a b) c = tally m c + if b = c then 1 else 0 := by
  rw [tally_insert, tally_erase_of_notMem h]

theorem tally_eq_zero (h : ∀ a, m.lookup a ≠ some b) : tally m b = 0 := by
  refine List.countP_eq_zero.2 (fun e he heq => h e.1 ?_)
  simp only [decide_eq_true_eq] at heq
  rw [← heq]
  exact AList.mem_lookup_iff.2 he

/-- **Counted value by value, the keys are all there.** -/
theorem sum_tally (m : AList (fun _ : α => Nat)) {n : Nat} (h : ∀ a i, m.lookup a = some i → i < n) :
    ((List.range n).map (tally m)).sum = m.entries.length := by
  have htally : ∀ i, tally m i = Multiset.count i (m.entries.map (fun e => e.2) : List Nat) := by
    intro i
    rw [Multiset.coe_count, List.count_eq_countP, List.countP_map, tally]
    refine List.countP_congr (fun e _ => ?_)
    simp
  have hvalues : ∀ i ∈ (m.entries.map (fun e => e.2) : Multiset Nat), i ∈ Finset.range n := by
    intro i hi
    obtain ⟨e, he, rfl⟩ := List.mem_map.1 (Multiset.mem_coe.1 hi)
    exact Finset.mem_range.2 (h e.1 e.2 (AList.mem_lookup_iff.2 he))
  have hcard := Multiset.sum_count_eq_card hvalues
  rw [Multiset.coe_card, List.length_map] at hcard
  rw [← hcard, List.map_congr_left (fun i _ => htally i)]
  rfl

end Tally
