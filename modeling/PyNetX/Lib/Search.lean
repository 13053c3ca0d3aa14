import Mathlib.Data.List.Basic
import Mathlib.Data.List.DropRight
import Mathlib.Data.List.Infix
import Mathlib.Data.Nat.Find
import Mathlib.Tactic.Common
/-!
# Search — the first occurrence of a pattern, and splitting at it

`find pat l` is the offset of the first occurrence of `pat` in `l` (`List.dropInfix?` read as an offset), and
`splitOn pat l` cuts `l` at the successive first occurrences: the closed segments in front of each, and the open rest.
Both are about lists over any type with decidable equality.
-/
namespace Search

variable {α : Type} [DecidableEq α] {pat l : List α}

/-- The offset of the first occurrence of `pat` in `l`. -/
def find (pat l : List α) : Option Nat := (l.dropInfix? pat).map (fun r => r.1.length)

theorem find_eq_some_iff {k : Nat} : find pat l = some k ↔
    (∃ a b, l = a ++ pat ++ b ∧ a.length = k) ∧ ∀ a b, l = a ++ pat ++ b → k ≤ a.length := by
  unfold find
  rw [Option.map_eq_some_iff]
  constructor
  · rintro ⟨⟨a, b⟩, h, rfl⟩
    obtain ⟨⟨p, hl, hp⟩, hmin⟩ := List.dropInfix?_eq_some_iff.1 h
    obtain rfl := eq_of_beq hp
    exact ⟨⟨a, b, hl, rfl⟩, fun a' b' h' => hmin a' p b' h' (beq_self_eq_true p)⟩
  · rintro ⟨⟨a, b, hl, rfl⟩, hmin⟩
    refine ⟨(a, b), List.dropInfix?_eq_some_iff.2 ⟨⟨pat, hl, beq_self_eq_true pat⟩, fun a' p b' h' hp => ?_⟩, rfl⟩
    obtain rfl := eq_of_beq hp
    exact hmin a' b' h'

theorem find_eq_none_iff : find pat l = none ↔ ¬ pat <:+: l := by
  constructor
  · rintro h ⟨a, b, hl⟩
    have hex : ∃ n, ∃ a b, l = a ++ pat ++ b ∧ a.length = n := ⟨a.length, a, b, hl.symm, rfl⟩
    classical
    obtain ⟨a', b', hl', hn⟩ := Nat.find_spec hex
    have : find pat l = some (Nat.find hex) :=
      find_eq_some_iff.2 ⟨⟨a', b', hl', hn⟩, fun x y hxy => Nat.find_min' hex ⟨x, y, hxy, rfl⟩⟩
    rw [h] at this
    cases this
  · intro h
    cases hf : find pat l with
    | none => rfl
    | some k =>
      obtain ⟨⟨a, b, hl, -⟩, -⟩ := find_eq_some_iff.1 hf
      exact absurd ⟨a, b, hl.symm⟩ h

theorem find_split {k : Nat} (h : find pat l = some k) : l = l.take k ++ pat ++ l.drop (k + pat.length) := by
  obtain ⟨⟨a, b, hl, rfl⟩, -⟩ := find_eq_some_iff.1 h
  subst hl
  simp [List.append_assoc]

theorem find_le {k : Nat} (h : find pat l = some k) : k + pat.length ≤ l.length := by
  obtain ⟨⟨a, b, rfl, rfl⟩, -⟩ := find_eq_some_iff.1 h
  simp only [List.length_append]
  omega

/-- **A hit stays where it is when more input arrives.** -/
theorem find_append {k : Nat} (r : List α) (h : find pat l = some k) : find pat (l ++ r) = some k := by
  obtain ⟨⟨a, b, hl, hk⟩, hmin⟩ := find_eq_some_iff.1 h
  refine find_eq_some_iff.2 ⟨⟨a, b ++ r, by simp [hl, List.append_assoc], hk⟩, fun a' b' h' => ?_⟩
  by_contra hlt
  have hle : (a' ++ pat).length ≤ l.length := by
    have := find_le h
    simp only [List.length_append]
    omega
  obtain ⟨c, hc⟩ : a' ++ pat <+: l := List.prefix_of_prefix_length_le ⟨b', h'.symm⟩ ⟨r, rfl⟩ hle
  exact hlt (hmin a' c hc.symm)

theorem find_of_append {k : Nat} {r : List α} (h : find pat (l ++ r) = some k) (hk : k + pat.length ≤ l.length) :
    find pat l = some k := by
  cases hl : find pat l with
  | some j => rw [find_append r hl] at h; exact h
  | none =>
    obtain ⟨⟨a, b, hab, rfl⟩, -⟩ := find_eq_some_iff.1 h
    have : a ++ pat <+: l :=
      List.prefix_of_prefix_length_le ⟨b, hab.symm⟩ ⟨r, rfl⟩ (by simpa [List.length_append] using hk)
    obtain ⟨c, hc⟩ := this
    exact absurd ⟨a, c, hc⟩ (find_eq_none_iff.1 hl)

theorem find_none_of_infix {m : List α} (h : find pat l = none) (hm : m <:+: l) : find pat m = none :=
  find_eq_none_iff.2 (fun hp => find_eq_none_iff.1 h (hp.trans hm))

theorem find_none_of_append_left {r : List α} (h : find pat (l ++ r) = none) : find pat l = none :=
  find_none_of_infix h (List.prefix_append l r).isInfix

theorem find_none_of_append_right {r : List α} (h : find pat (r ++ l) = none) : find pat l = none :=
  find_none_of_infix h (List.suffix_append r l).isInfix

theorem find_nil_of_ne_nil (hp : pat ≠ []) : find pat [] = none :=
  find_eq_none_iff.2 (fun h => hp (List.eq_nil_of_infix_nil h))

theorem find_none_of_closed (hp : pat ≠ []) {f : List α} (h : find pat (f ++ pat) = some f.length) :
    find pat f = none := by
  cases hf : find pat f with
  | none => rfl
  | some k =>
    have hpos : 0 < pat.length := List.length_pos_iff.2 hp
    have hle := find_le hf
    rw [find_append pat hf] at h
    obtain rfl := Option.some.inj h
    omega

theorem find_none_of_short {f w : List α} (hf : find pat (f ++ pat) = some f.length) {z : List α}
    (hw : w <+: f ++ pat ++ z) (hlt : w.length < (f ++ pat).length) : find pat w = none := by
  cases hk : find pat w with
  | none => rfl
  | some k =>
    obtain ⟨x, hx⟩ := hw
    have hwhole := find_append x hk
    rw [hx, find_append z hf] at hwhole
    obtain rfl := Option.some.inj hwhole
    have := find_le hk
    rw [List.length_append] at hlt
    omega

omit [DecidableEq α] in
/-- **An element the pattern has not is in no occurrence**: every occurrence stands in front of it or behind it. -/
theorem occurrence_cases {a b a' b' : List α} {c : α} (hc : c ∉ pat) (h : a ++ c :: b = a' ++ pat ++ b') :
    (∃ x, a = a' ++ pat ++ x) ∨ ∃ x, a' = a ++ c :: x ∧ b = x ++ pat ++ b' := by
  obtain ⟨x, hx, hb⟩ | ⟨x, hx, -⟩ := List.append_eq_append_iff.1 h
  · cases x with
    | nil => exact Or.inl ⟨[], by simpa using hx.symm⟩
    | cons d x =>
      obtain ⟨rfl, rfl⟩ := List.cons.inj hb
      obtain ⟨y, -, hy⟩ | ⟨y, hy, hz⟩ := List.append_eq_append_iff.1 hx
      · exact absurd (by rw [hy]; simp) hc
      · cases y with
        | nil => exact absurd (by rw [← List.nil_append pat, ← hz]; simp) hc
        | cons e y =>
          obtain ⟨rfl, rfl⟩ := List.cons.inj hz
          exact Or.inr ⟨y, hy, rfl⟩
  · exact Or.inl ⟨x, hx⟩

/-- **An element the pattern has not splits the search.** -/
theorem find_append_cons {c : α} (hc : c ∉ pat) (a b : List α) :
    find pat (a ++ c :: b) = (find pat a).or ((find pat b).map (· + (a.length + 1))) := by
  cases ha : find pat a with
  | some k => exact find_append _ ha
  | none =>
    rw [Option.none_or]
    cases hb : find pat b with
    | none =>
      rw [Option.map_none, find_eq_none_iff]
      rintro ⟨a', b', h⟩
      obtain ⟨x, hx⟩ | ⟨x, -, hx⟩ := occurrence_cases hc h.symm
      · exact find_eq_none_iff.1 ha ⟨a', x, hx.symm⟩
      · exact find_eq_none_iff.1 hb ⟨x, b', hx.symm⟩
    | some k =>
      obtain ⟨⟨u, v, hu, rfl⟩, hmin⟩ := find_eq_some_iff.1 hb
      refine find_eq_some_iff.2 ⟨⟨a ++ c :: u, v, by simp [hu], by simp; omega⟩, fun a' b' h => ?_⟩
      obtain ⟨x, hx⟩ | ⟨x, rfl, hx⟩ := occurrence_cases hc h
      · exact absurd ⟨a', x, hx.symm⟩ (find_eq_none_iff.1 ha)
      · have := hmin x b' hx
        simp only [List.length_append, List.length_cons]
        omega

theorem find_append_foreign (hp : pat ≠ []) : ∀ {a : List α} (b : List α), (∀ c ∈ a, c ∉ pat) →
    find pat (a ++ b) = (find pat b).map (· + a.length)
  | [], b, _ => by simp
  | c :: a, b, h => by
    have hstep := find_append_cons (h c List.mem_cons_self) [] (a ++ b)
    rw [List.nil_append, find_nil_of_ne_nil hp, Option.none_or,
      find_append_foreign hp b (fun d hd => h d (List.mem_cons_of_mem c hd)), Option.map_map] at hstep
    rw [List.cons_append, hstep]
    congr 1

/-- The segments closed by an occurrence of `pat` (without it), and the open rest. -/
def splitOn (pat l : List α) : List (List α) × List α := go l.length l
where
  go : Nat → List α → List (List α) × List α
    | 0, l => ([], l)
    | n + 1, l =>
      match find pat l with
      | none => ([], l)
      | some k =>
        let r := go n (l.drop (k + pat.length))
        (l.take k :: r.1, r.2)

theorem splitOn_go_stable (hp : pat ≠ []) : ∀ (n m : Nat) (l : List α), l.length ≤ n → l.length ≤ m →
    splitOn.go pat n l = splitOn.go pat m l
  | 0, 0, l, _, _ => rfl
  | 0, m + 1, l, h, _ => by
    obtain rfl : l = [] := List.eq_nil_of_length_eq_zero (by omega)
    simp only [splitOn.go, find_nil_of_ne_nil hp]
  | n + 1, 0, l, _, h => by
    obtain rfl : l = [] := List.eq_nil_of_length_eq_zero (by omega)
    simp only [splitOn.go, find_nil_of_ne_nil hp]
  | n + 1, m + 1, l, hn, hm => by
    simp only [splitOn.go]
    cases hk : find pat l with
    | none => rfl
    | some k =>
      have hle := find_le hk
      have hpos : 0 < pat.length := List.length_pos_iff.2 hp
      simp only
      rw [splitOn_go_stable hp n m (l.drop (k + pat.length)) (by rw [List.length_drop]; omega)
        (by rw [List.length_drop]; omega)]

theorem splitOn_of_none (h : find pat l = none) : splitOn pat l = ([], l) := by
  unfold splitOn
  cases hl : l.length with
  | zero => rfl
  | succ n => simp only [splitOn.go, h]

theorem splitOn_of_some (hp : pat ≠ []) {k : Nat} (h : find pat l = some k) :
    splitOn pat l = (l.take k :: (splitOn pat (l.drop (k + pat.length))).1,
      (splitOn pat (l.drop (k + pat.length))).2) := by
  have hle := find_le h
  have hpos : 0 < pat.length := List.length_pos_iff.2 hp
  unfold splitOn
  obtain ⟨n, hn⟩ : ∃ n, l.length = n + 1 := ⟨l.length - 1, by omega⟩
  rw [hn]
  simp only [splitOn.go, h]
  rw [splitOn_go_stable hp n (l.drop (k + pat.length)).length _ (by rw [List.length_drop]; omega) (Nat.le_refl _)]

theorem splitOn_induction (hp : pat ≠ []) {P : List α → Prop} (none : ∀ l, find pat l = none → P l)
    (some : ∀ l k, find pat l = some k → P (l.drop (k + pat.length)) → P l) (l : List α) : P l := by
  generalize hn : l.length = n
  induction n using Nat.strongRecOn generalizing l with
  | _ n ih =>
    cases h : find pat l with
    | none => exact none l h
    | some k =>
      have hle := find_le h
      have hpos : 0 < pat.length := List.length_pos_iff.2 hp
      exact some l k h (ih _ (by rw [← hn, List.length_drop]; omega) _ rfl)

/-- **Splitting loses nothing**: the closed segments with their markers, then the rest. -/
theorem splitOn_conserves (hp : pat ≠ []) (l : List α) :
    (splitOn pat l).1.flatMap (· ++ pat) ++ (splitOn pat l).2 = l := by
  induction l using splitOn_induction hp with
  | none l h => rw [splitOn_of_none h]; rfl
  | some l k h ih =>
    rw [splitOn_of_some hp h]
    simp only [List.flatMap_cons, List.append_assoc]
    rw [ih]
    exact (by simpa [List.append_assoc] using (find_split h).symm)

theorem splitOn_rest (hp : pat ≠ []) (l : List α) : find pat (splitOn pat l).2 = none := by
  induction l using splitOn_induction hp with
  | none l h => rw [splitOn_of_none h]; exact h
  | some l k h ih => rw [splitOn_of_some hp h]; exact ih

theorem splitOn_cons (hp : pat ≠ []) {f : List α} (hf : find pat (f ++ pat) = some f.length) (r : List α) :
    splitOn pat (f ++ pat ++ r) = (f :: (splitOn pat r).1, (splitOn pat r).2) := by
  have h := find_append r hf
  rw [splitOn_of_some hp h]
  have ht : (f ++ pat ++ r).take f.length = f := by rw [List.append_assoc, List.take_left]
  have hd : (f ++ pat ++ r).drop (f.length + pat.length) = r := by
    rw [← List.length_append, List.drop_left]
  rw [ht, hd]

theorem splitOn_flatMap (hp : pat ≠ []) : ∀ (fs : List (List α)) (r : List α),
    (∀ f ∈ fs, find pat (f ++ pat) = some f.length) →
      splitOn pat (fs.flatMap (· ++ pat) ++ r) = (fs ++ (splitOn pat r).1, (splitOn pat r).2)
  | [], r, _ => rfl
  | f :: fs, r, h => by
    have ih := splitOn_flatMap hp fs r (fun g hg => h g (List.mem_cons_of_mem f hg))
    rw [List.flatMap_cons, List.append_assoc, splitOn_cons hp (h f List.mem_cons_self), ih]
    rfl

theorem splitOn_closed (hp : pat ≠ []) (l : List α) :
    ∀ f ∈ (splitOn pat l).1, find pat (f ++ pat) = some f.length := by
  induction l using splitOn_induction hp with
  | none l h => rw [splitOn_of_none h]; intro f hf; cases hf
  | some l k h ih =>
    rw [splitOn_of_some hp h]
    intro f hf
    rcases List.mem_cons.1 hf with rfl | hf
    · have hlen : (l.take k).length = k := by
        rw [List.length_take]
        have := find_le h
        omega
      rw [hlen]
      refine find_of_append (r := l.drop (k + pat.length)) ?_ (by rw [List.length_append, hlen])
      rw [← find_split h]
      exact h
    · exact ih f hf

/-- **Splitting goes on where it stopped.** -/
theorem splitOn_append (hp : pat ≠ []) (l r : List α) : splitOn pat (l ++ r) =
    ((splitOn pat l).1 ++ (splitOn pat ((splitOn pat l).2 ++ r)).1, (splitOn pat ((splitOn pat l).2 ++ r)).2) := by
  conv => lhs; rw [← splitOn_conserves hp l, List.append_assoc]
  exact splitOn_flatMap hp _ _ (splitOn_closed hp l)

/-! ## An occurrence on a boundary -/

omit [DecidableEq α] in
/-- The pattern stands on the boundary of `x` and `y`: `front` of it ends `x`, `back` begins `y`. -/
structure Crosses (pat x y front back : List α) : Prop where
  whole : pat = front ++ back
  front_ne : front ≠ []
  back_ne : back ≠ []
  left : front <:+ x
  right : back <+: y

omit [DecidableEq α] in
theorem Crosses.front_lt {x y front back : List α} (h : Crosses pat x y front back) : front.length < pat.length := by
  have := List.length_pos_iff.2 h.back_ne
  rw [h.whole, List.length_append]
  omega

theorem find_append_ne_none_iff {x y : List α} : find pat (x ++ y) ≠ none ↔
    find pat x ≠ none ∨ find pat y ≠ none ∨ ∃ front back, Crosses pat x y front back := by
  have hoccurs : ∀ l : List α, find pat l ≠ none ↔ pat <:+: l := fun l => by rw [ne_eq, find_eq_none_iff, not_not]
  rw [hoccurs, hoccurs, hoccurs, List.infix_append_iff_ne_nil]
  refine or_congr_right (or_congr_right ?_)
  constructor
  · rintro ⟨front, back, hf, hb, hwhole, hleft, hright⟩
    exact ⟨front, back, hwhole, hf, hb, hleft, hright⟩
  · rintro ⟨front, back, hwhole, hf, hb, hleft, hright⟩
    exact ⟨front, back, hf, hb, hwhole, hleft, hright⟩

omit [DecidableEq α] in
theorem suffix_drop_iff {front x : List α} {k : Nat} :
    front <:+ x.drop k ↔ front <:+ x ∧ front.length ≤ x.length - k := by
  constructor
  · intro h
    exact ⟨h.trans (List.drop_suffix k x), by simpa using h.length_le⟩
  · rintro ⟨h, hlen⟩
    exact List.suffix_of_suffix_length_le h (List.drop_suffix k x) (by simpa using hlen)

/-- **A search of the last `w` elements with the new ones behind them**, `x` being what was there before the new ones
`y`: it shows what is in `y`, what is on the boundary of `x` and `y` if the window reaches that far back, and what is
only on the boundary of all elements and the new ones once more. -/
theorem find_window_iff {w : Nat} {x y : List α} (hw : pat.length ≤ w) (hx : find pat x = none) :
    find pat ((x ++ y).drop ((x ++ y).length - w) ++ y) ≠ none ↔
      find pat y ≠ none ∨ (∃ front back, Crosses pat x y front back ∧ front.length + y.length ≤ w) ∨
        ∃ front back, Crosses pat (x ++ y) y front back := by
  have hcut : (x ++ y).drop ((x ++ y).length - w) =
      x.drop (x.length + y.length - w) ++ y.drop (y.length - w) := by
    rw [List.drop_append, List.length_append]
    congr 2
    omega
  have hold : find pat (x.drop (x.length + y.length - w)) = none :=
    find_none_of_infix hx (List.drop_suffix _ _).isInfix
  rw [find_append_ne_none_iff]
  constructor
  · rintro (h | h | ⟨front, back, h⟩)
    · rw [hcut, find_append_ne_none_iff] at h
      rcases h with h | h | ⟨front, back, h⟩
      · exact absurd hold h
      · exact Or.inl (fun hy => h ( find_none_of_infix hy (List.drop_suffix _ _).isInfix))
      · obtain ⟨hleft, hlen⟩ := suffix_drop_iff.1 h.left
        have hpos := List.length_pos_iff.2 h.front_ne
        have hreach : front.length + y.length ≤ w := by
          have := hleft.length_le
          omega
        have hall : y.drop (y.length - w) = y := by rw [Nat.sub_eq_zero_of_le (by omega), List.drop_zero]
        exact Or.inr (Or.inl ⟨front, back, ⟨h.whole, h.front_ne, h.back_ne, hleft, hall ▸ h.right⟩, hreach⟩)
    · exact Or.inl h
    · exact Or.inr (Or.inr ⟨front, back, h.whole, h.front_ne, h.back_ne, (suffix_drop_iff.1 h.left).1, h.right⟩)
  · rintro (h | ⟨front, back, h, hlen⟩ | ⟨front, back, h⟩)
    · exact Or.inr (Or.inl h)
    · have hpos := List.length_pos_iff.2 h.front_ne
      have hall : y.drop (y.length - w) = y := by rw [Nat.sub_eq_zero_of_le (by omega), List.drop_zero]
      have hleft : front <:+ x.drop (x.length + y.length - w) := by
        refine suffix_drop_iff.2 ⟨h.left, ?_⟩
        have := h.left.length_le
        omega
      rw [hcut, hall]
      exact Or.inl (find_append_ne_none_iff.2 (Or.inr (Or.inr
        ⟨front, back, h.whole, h.front_ne, h.back_ne, hleft, h.right⟩)))
    · have hleft : front <:+ (x ++ y).drop ((x ++ y).length - w) := by
        refine suffix_drop_iff.2 ⟨h.left, ?_⟩
        have := h.left.length_le
        have := h.front_lt
        omega
      exact Or.inr (Or.inr ⟨front, back, h.whole, h.front_ne, h.back_ne, hleft, h.right⟩)

/-! ## How many occurrences -/

/-- How many segments an occurrence closes. -/
def closes (pat l : List α) : Nat := (splitOn pat l).1.length

theorem closes_of_some (hp : pat ≠ []) {k : Nat} (h : find pat l = some k) :
    closes pat l = closes pat (l.drop (k + pat.length)) + 1 := by
  rw [closes, splitOn_of_some hp h]
  rfl

theorem closes_of_none (h : find pat l = none) : closes pat l = 0 := by rw [closes, splitOn_of_none h]; rfl

theorem closes_eq_zero_iff (hp : pat ≠ []) : closes pat l = 0 ↔ find pat l = none := by
  cases h : find pat l with
  | none => simp [closes_of_none h]
  | some k => simp [closes_of_some hp h]

/-- **An element the pattern has not splits the count.** -/
theorem closes_append_cons (hp : pat ≠ []) {c : α} (hc : c ∉ pat) (a b : List α) :
    closes pat (a ++ c :: b) = closes pat a + closes pat b := by
  induction a using splitOn_induction hp with
  | none a ha =>
    rw [closes_of_none ha, Nat.zero_add]
    cases hb : find pat b with
    | none => rw [closes_of_none hb, closes_of_none (by rw [find_append_cons hc, ha, hb]; rfl)]
    | some k =>
      have hwhole : find pat (a ++ c :: b) = some (k + (a.length + 1)) := by rw [find_append_cons hc, ha, hb]; rfl
      have hdrop : (a ++ c :: b).drop (k + (a.length + 1) + pat.length) = b.drop (k + pat.length) := by
        rw [List.drop_append, List.drop_eq_nil_of_le (by omega), List.nil_append,
          show k + (a.length + 1) + pat.length - a.length = k + pat.length + 1 by omega, List.drop_succ_cons]
      rw [closes_of_some hp hb, closes_of_some hp hwhole, hdrop]
  | some a k ha ih =>
    have hle := find_le ha
    rw [closes_of_some hp ha, closes_of_some hp (find_append (c :: b) ha), List.drop_append_of_le_length hle, ih]
    omega

theorem find_cons_of_ne {p x : α} {ps l : List α} (hx : p ≠ x) :
    find (p :: ps) (x :: l) = (find (p :: ps) l).map (· + 1) := by
  cases hl : find (p :: ps) l with
  | none =>
    rw [Option.map_none, find_eq_none_iff, List.infix_cons_iff, not_or]
    exact ⟨fun hpre => hx (List.cons_prefix_cons.1 hpre).1, find_eq_none_iff.1 hl⟩
  | some k =>
    obtain ⟨⟨u, v, hu, hlen⟩, hmin⟩ := find_eq_some_iff.1 hl
    refine find_eq_some_iff.2 ⟨⟨x :: u, v, by rw [hu]; rfl, congrArg (· + 1) hlen⟩, fun u' v' he => ?_⟩
    cases u' with
    | nil => exact absurd (List.cons.inj he).1.symm hx
    | cons y u' => exact Nat.succ_le_succ (hmin u' v' (List.cons.inj he).2)

/-- **An occurrence begins with the pattern's first element**: what has it not in front closes none. -/
theorem closes_append_of_head {p : α} {ps : List α} : ∀ {a : List α} (b : List α), p ∉ a →
    closes (p :: ps) (a ++ b) = closes (p :: ps) b
  | [], _, _ => rfl
  | x :: a, b, h => by
    have hstep : closes (p :: ps) (x :: (a ++ b)) = closes (p :: ps) (a ++ b) := by
      have hp : p :: ps ≠ [] := List.cons_ne_nil p ps
      have hfind : find (p :: ps) (x :: (a ++ b)) = (find (p :: ps) (a ++ b)).map (· + 1) :=
        find_cons_of_ne fun he => h (he ▸ List.mem_cons_self)
      cases hl : find (p :: ps) (a ++ b) with
      | none => rw [closes_of_none hl, closes_of_none (by rw [hfind, hl]; rfl)]
      | some k =>
        rw [closes_of_some hp hl, closes_of_some (k := k + 1) hp (by rw [hfind, hl]; rfl), Nat.add_right_comm,
          List.drop_succ_cons]
    rw [List.cons_append, hstep, closes_append_of_head b (fun hmem => h (List.mem_cons_of_mem x hmem))]

end Search
