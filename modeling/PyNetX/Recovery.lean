import PyNetX.Framing
/-!
# Recovery — two notifications without a marker between them

A head without its marker, a whole notification behind it, one marker at the end: `headSegment` is what the look-ahead
makes of the head, a recovered notification if it carries its close tag and an abandoned partial if not.  The look-ahead
runs only on what the frames have left, so the head is taken off exactly when some read ends behind the second start
tag's name and in front of the marker (`feed_pair_iff`): a read that holds everything merges the two.
-/
namespace PyNetX

open Search (find splitOn)
open Drain (drain feed)

/-- A notification that its marker frames: its one start tag in front, whose name ends inside it, and its own marker
the first one behind it. -/
structure FramedNotification (n : Bytes) : Prop where
  starts : findNotificationStartTag n 0 = some 0
  named : tagName (n.drop 1) ≠ n.drop 1
  single : findNotificationStartTag n 1 = none
  closed : find eom (n ++ eom) = some n.length

/-- A complete notification: its one start tag in front, its exact close tag at the end, no marker inside, and no
further tag whose local name goes on behind `notification`. -/
structure CompleteNotification (n : Bytes) : Prop where
  starts : findNotificationStartTag n 0 = some 0
  single : findNotificationStartTag n 1 = none
  ends : closeTag (tagName (n.drop 1)) <:+ n
  unmarked : find eom n = none
  inner : ∀ k < n.length, 0 < k → n[k]? = some chLt →
    ¬ notificationName <+: xmlLocalName (tagName (n.drop (k + 1)))

/-- What stands in front of the second start tag: a start tag behind a benign prefix, no second one, no marker, and an
end outside every tag. -/
structure Head (h : Bytes) (s : Nat) : Prop where
  tag : findNotificationStartTag h 0 = some s
  benign : benignNotificationPrefix (h.take s) = true
  single : findNotificationStartTag h (s + 1) = none
  outside : ∃ a b, h = a ++ chGt :: b ∧ chLt ∉ b ∧ s < a.length
  unmarked : find eom h = none

namespace CompleteNotification

variable {n : Bytes}

theorem ends_bytes (hn : CompleteNotification n) : ∃ a, n = a ++ 0x6e :: [chGt] ∧ 0 < a.length := by
  obtain ⟨rest, hrest, hb, hl⟩ := (findNotificationStartTag_eq_some hn.starts).2
  obtain ⟨x, hx⟩ := hn.ends
  rw [List.drop_zero] at hrest
  obtain ⟨u, hu⟩ : xmlLocalName (tagName rest) <:+ tagName rest := List.rtakeWhile_suffix _ _
  rw [hl] at hu
  have hdrop : n.drop 1 = rest := by rw [hrest]; rfl
  rw [hdrop, ← hu] at hx
  refine ⟨x ++ chLt :: chSlash :: (u ++ notificationName.dropLast), ?_,
    List.length_pos_iff.2 (List.append_ne_nil_of_right_ne_nil x (List.cons_ne_nil _ _))⟩
  rw [← hx]
  simp [closeTag, notificationName]

theorem closed (hn : CompleteNotification n) : find eom (n ++ eom) = some n.length := by
  obtain ⟨a, ha, -⟩ := hn.ends_bytes
  have hfree : find eom a = none := Search.find_none_of_append_left (ha ▸ hn.unmarked)
  have hgt : find eom (chGt :: eom) = some 1 := by decide
  rw [ha, List.append_assoc, List.cons_append, Search.find_append_cons (by decide), hfree, List.singleton_append, hgt]
  simp only [Option.none_or, Option.map_some, List.length_append, List.length_cons, List.length_nil]
  congr 1
  omega

end CompleteNotification

namespace FramedNotification

variable {n : Bytes}

theorem tag (hn : FramedNotification n) : ∃ q d r, n = chLt :: (q ++ d :: r) ∧ isNameByte d = false ∧ tagName q = q ∧
    q ≠ [] ∧ xmlLocalName q = notificationName := by
  obtain ⟨rest, hrest, hb, hl⟩ := (findNotificationStartTag_eq_some hn.starts).2
  rw [List.drop_zero] at hrest
  have hnamed := hn.named
  rw [hrest, List.drop_succ_cons, List.drop_zero] at hnamed
  obtain ⟨-, hall⟩ | ⟨d, r, hd, hr⟩ := tagName_split hb
  · exact absurd hall hnamed
  · exact ⟨tagName rest, d, r, by rw [hrest, ← hr], hd, tagName_self hd hr, hb, hl⟩

theorem tag_of_front (hn : FramedNotification n) {v y : Bytes} (hv : v <+: n ++ y) :
    findNotificationStartTag v 0 = none ∨ findNotificationStartTag v 0 = some 0 := by
  obtain ⟨q, d, r, hq, hd, hself, hb, hl⟩ := hn.tag
  rw [hq, List.cons_append, List.append_assoc, List.cons_append] at hv
  have hname : tagName (q ++ d :: (r ++ y)) = q := by rw [tagName_append hd, hself]
  rw [findNotificationStartTag_zero]
  refine scan_of_front (by rw [hname]; exact hb) (by rw [hname]; exact hl) (fun h => ?_) hv
  have hlen := congrArg List.length h
  rw [hname, List.length_append, List.length_cons] at hlen
  omega

theorem single_eom (hn : FramedNotification n) : findNotificationStartTag (n ++ eom) 1 = none := by
  have hlt := findNotificationStartTag_lt hn.starts
  have := findNotificationStartTag_append_eom (by omega) hn.single []
  rwa [List.append_nil] at this

theorem starts_append (hn : FramedNotification n) (y : Bytes) : findNotificationStartTag (n ++ y) 0 = some 0 := by
  obtain ⟨q, d, r, hq, hd, hself, hb, hl⟩ := hn.tag
  have hname : tagName (q ++ d :: (r ++ y)) = q := by rw [tagName_append hd, hself]
  rw [hq, List.cons_append, List.append_assoc, List.cons_append, findNotificationStartTag_zero]
  exact scan_tag (by rw [hname]; exact hb) (by rw [hname]; exact hl)

theorem orphanPrefix_append (hn : FramedNotification n) (y : Bytes) : orphanPrefix (n ++ y) = none := by
  simp [orphanPrefix, hn.starts_append y]

end FramedNotification

namespace CompleteNotification

variable {n : Bytes}

theorem framed (hn : CompleteNotification n) : FramedNotification n where
  starts := hn.starts
  named := by
    obtain ⟨a, ha, hpos⟩ := hn.ends_bytes
    intro h
    obtain ⟨a', ha'⟩ : ∃ a', n.drop 1 = a' ++ chGt :: [] := by
      cases a with
      | nil => cases hpos
      | cons c a => exact ⟨a ++ [0x6e], by rw [ha]; simp⟩
    have hle := tagName_length_le a'
    rw [ha', tagName_append (by decide)] at h
    rw [h, List.length_append] at hle
    simp only [List.length_cons, List.length_nil] at hle
    omega
  single := hn.single
  closed := hn.closed

theorem head (hn : CompleteNotification n) : Head n 0 where
  tag := hn.starts
  benign := rfl
  single := hn.single
  outside := by
    obtain ⟨a, ha, hpos⟩ := hn.ends_bytes
    exact ⟨a ++ [0x6e], [], by rw [ha]; simp, by simp, by simp⟩
  unmarked := hn.unmarked

end CompleteNotification

namespace Head

variable {h : Bytes} {s : Nat}

/-- **Behind a head the scan starts afresh.** -/
theorem tag_append (hh : Head h s) (v : Bytes) : findNotificationStartTag (h ++ v) 0 = some s := by
  obtain ⟨a, b, hab, hb, -⟩ := hh.outside
  have := findNotificationStartTag_append_closed hb (Nat.zero_le a.length) v
  rw [← hab, hh.tag] at this
  exact this

theorem single_append (hh : Head h s) (v : Bytes) : findNotificationStartTag (h ++ v) (s + 1) =
    (findNotificationStartTag v 0).map (· + h.length) := by
  obtain ⟨a, b, hab, hb, hs⟩ := hh.outside
  have := findNotificationStartTag_append_closed hb (Nat.succ_le_of_lt hs) v
  rw [← hab, hh.single, Option.none_or] at this
  rw [this, findNotificationStartTag_zero]

end Head

/-- What the look-ahead makes of a head. -/
def headSegment (h : Bytes) (s : Nat) : Segment :=
  if notificationEndAfterStart h s = none then .abandoned h else .recovered h

@[simp] theorem headSegment_span (h : Bytes) (s : Nat) : (headSegment h s).span = h := by
  unfold headSegment
  split <;> rfl

theorem headSegment_bytes (h : Bytes) (s : Nat) : (headSegment h s).bytes = h := by
  unfold headSegment
  split <;> rfl

theorem headSegment_not_isFrame (h : Bytes) (s : Nat) : (headSegment h s).isFrame = false := by
  unfold headSegment
  split <;> rfl

/-! ## One look at the buffer -/

section Pair

variable {h n : Bytes} {s : Nat}

theorem find_eom_pair (hh : Head h s) (hn : FramedNotification n) :
    find eom (h ++ n ++ eom) = some (h.length + n.length) := by
  obtain ⟨rest, hrest, -⟩ := (findNotificationStartTag_eq_some hn.starts).2
  rw [List.drop_zero] at hrest
  have hlt : chLt ∉ eom := by decide
  have hclosed := hn.closed
  have hnil : find eom [] = none := rfl
  rw [hrest, List.cons_append, ← List.nil_append (chLt :: _), Search.find_append_cons hlt, hnil, Option.none_or]
    at hclosed
  rw [hrest, List.append_assoc, List.cons_append, Search.find_append_cons hlt, hh.unmarked, Option.none_or]
  cases hf : find eom (rest ++ eom) with
  | none => rw [hf] at hclosed; cases hclosed
  | some k =>
    rw [hf] at hclosed
    simp only [Option.map_some, List.length_nil, Nat.zero_add, Option.some.injEq] at hclosed ⊢
    omega

theorem unmarked_of_short (hh : Head h s) (hn : FramedNotification n) {w : Bytes} (hw : w <+: h ++ n ++ eom)
    (hlt : w.length < (h ++ n ++ eom).length) : find eom w = none := by
  cases hf : find eom w with
  | none => rfl
  | some k =>
    obtain ⟨x, hx⟩ := hw
    have hwhole := Search.find_append x hf
    rw [hx, find_eom_pair hh hn] at hwhole
    have hle := Search.find_le hf
    obtain rfl := Option.some.inj hwhole
    simp only [List.length_append] at hlt
    omega

/-- **Inside what one start tag opens**, a turn takes nothing exactly when it sees that tag and no other. -/
theorem rxTurn_inside {p y w : Bytes} (hs : findNotificationStartTag p 0 = some s)
    (hben : benignNotificationPrefix (p.take s) = true) (hs2 : findNotificationStartTag (p ++ y) (s + 1) = none)
    (hw : w <+: p ++ y) (hfree : find eom w = none) : rxTurn w = none ↔ SeesOwnTag p w ∧ SeesOneTag w := by
  rw [rxTurn_eq_none_iff hfree, orphanPrefix_eq_none_iff hs hben hw]
  constructor
  · rintro ⟨hown, hl⟩
    refine ⟨hown, fun t ht => ?_⟩
    have hts : t = s := by
      rcases hown with hf | hf
      · rw [hf] at ht; cases ht
      · rw [hf, hs] at ht; exact (Option.some.inj ht).symm
    subst hts
    exact (lookahead_eq_none_iff hs2 hw ht).1 hl
  · rintro ⟨hown, hone⟩
    refine ⟨hown, ?_⟩
    rcases hown with hf | hf
    · simp only [lookahead, hf]
    · rw [hs] at hf
      exact (lookahead_eq_none_iff hs2 hw hf).2 (hone s hf)

theorem rxTurn_front (hh : Head h s) {w : Bytes} (hw : w <+: h) (hfree : find eom w = none) :
    rxTurn w = none ↔ SeesOwnTag h w ∧ SeesOneTag w := by
  rw [← List.append_nil h] at hw
  exact rxTurn_inside hh.tag hh.benign (by rw [List.append_nil]; exact hh.single) hw hfree

/-- **Inside the notification behind the head**, a turn takes nothing exactly when it sees no second start tag. -/
theorem rxTurn_second (hn : FramedNotification n) {v : Bytes} (hv : v <+: n ++ eom) (hfree : find eom v = none) :
    rxTurn v = none ↔ SeesOneTag v := by
  rw [rxTurn_inside hn.starts rfl hn.single_eom hv hfree]
  refine ⟨And.right, fun h => ⟨?_, h⟩⟩
  unfold SeesOwnTag
  rw [hn.starts]
  exact hn.tag_of_front hv

theorem orphanPrefix_behind (hh : Head h s) (v : Bytes) : orphanPrefix (h ++ v) = none :=
  (orphanPrefix_eq_none_iff hh.tag hh.benign (List.prefix_refl _)).2 (Or.inr (by rw [hh.tag_append, hh.tag]))

/-- **A close tag that only the second notification brings** ends behind the head, and behind it the scan finds what it
finds behind the second start tag. -/
theorem close_behind (hn : FramedNotification n) {v : Bytes} {e : Nat} (hv : v <+: n ++ eom)
    (hv0 : findNotificationStartTag v 0 = some 0) (he : notificationEndAfterStart (h ++ v) s = some e)
    (hne : notificationEndAfterStart (h ++ v) s ≠ notificationEndAfterStart h s) : h.length < e ∧
      (findNotificationStartTag (h ++ v) e = none ↔ findNotificationStartTag v 1 = none) := by
  have hlt : h.length < e := by
    by_contra hle
    rw [he, notificationEndAfterStart_of_append he (by omega)] at hne
    exact hne rfl
  refine ⟨hlt, ?_⟩
  obtain ⟨a, b, hab, hae, -⟩ := notificationEndAfterStart_eq_some he
  obtain ⟨next, rest, hvs, -⟩ := (findNotificationStartTag_eq_some hv0).2.bytes
  rw [List.drop_zero] at hvs
  -- the `>` that ends the close tag stands behind the `<` of the second start tag
  obtain ⟨c, x, rfl, hvx⟩ : ∃ c x, a = h ++ c :: x ∧ v = c :: x ++ chGt :: b := by
    obtain ⟨x, hx, hvx⟩ | ⟨x, hx, hvx⟩ := List.append_eq_append_iff.1 hab
    · cases x with
      | nil => rw [hvs] at hvx; cases hvx
      | cons c x => exact ⟨c, x, hx, hvx⟩
    · cases x with
      | nil => rw [hvs] at hvx; cases hvx
      | cons c x =>
        have := congrArg List.length hx
        simp only [List.length_append, List.length_cons] at this
        omega
  have hsync : findNotificationStartTag v 1 = findNotificationStartTag v ((c :: x).length + 1) := by
    rw [hvx] at hv ⊢
    exact findNotificationStartTag_of_front (by decide) hv (by simp) hn.single_eom
  have hshift : e = h.length + ((c :: x).length + 1) := by
    rw [← hae, List.length_append]
    omega
  rw [hshift, findNotificationStartTag_shift, ← hsync, Option.map_eq_none_iff]

/-- **Behind the head, without a second start tag**, a turn takes nothing. -/
theorem rxTurn_behind_none (hh : Head h s) {v : Bytes} (hfree : find eom (h ++ v) = none)
    (hv0 : findNotificationStartTag v 0 = none) : rxTurn (h ++ v) = none := by
  rw [rxTurn_eq_none_iff hfree]
  have hs2 : findNotificationStartTag (h ++ v) (s + 1) = none := by rw [hh.single_append, hv0]; rfl
  exact ⟨orphanPrefix_behind hh v, (lookahead_eq_none_iff hs2 (List.prefix_refl _) (hh.tag_append v)).2 hs2⟩

/-- **Behind the head, at a second start tag**, the look-ahead takes the head off. -/
theorem rxTurn_behind_head (hh : Head h s)
    (hk : notificationEndAfterStart h s = none ∨ notificationEndAfterStart h s = some h.length) {v : Bytes}
    (hfree : find eom (h ++ v) = none) (hv0 : findNotificationStartTag v 0 = some 0)
    (he : notificationEndAfterStart (h ++ v) s = notificationEndAfterStart h s) :
    rxTurn (h ++ v) = some ([headSegment h s], v) := by
  have hl : lookahead (h ++ v) = some (headSegment h s, v) := by
    have hsecond := hh.single_append v
    have hbehind := findNotificationStartTag_shift h v 0
    rw [hv0, Option.map_some, Nat.zero_add] at hsecond hbehind
    rw [Nat.add_zero] at hbehind
    rcases hk with hk | hk
    · simp [lookahead, hh.tag_append, he, hk, hsecond, headSegment]
    · simp [lookahead, hh.tag_append, he, hk, hbehind, headSegment]
  rw [rxTurn_of_unmarked hfree (orphanPrefix_behind hh v), hl]
  rfl

/-- **Behind the head, once a close tag of its name has arrived with the second notification**, the head is no longer
told from it. -/
theorem rxTurn_behind_close (hh : Head h s) (hn : FramedNotification n) {v : Bytes} (hv : v <+: n ++ eom)
    (hfree : find eom (h ++ v) = none) (hv0 : findNotificationStartTag v 0 = some 0)
    (hne : notificationEndAfterStart (h ++ v) s ≠ notificationEndAfterStart h s) :
    (rxTurn (h ++ v) = none ∧ findNotificationStartTag v 1 = none) ∨
      (findNotificationStartTag v 1 ≠ none ∧
        ∃ b r, rxTurn (h ++ v) = some ([.recovered b], r) ∧ h.length < b.length) := by
  rw [rxTurn_of_unmarked hfree (orphanPrefix_behind hh v)]
  cases he : notificationEndAfterStart (h ++ v) s with
  | none =>
    cases hhe : notificationEndAfterStart h s with
    | none => rw [he, hhe] at hne; exact absurd rfl hne
    | some e => rw [notificationEndAfterStart_append hhe v] at he; cases he
  | some e =>
    obtain ⟨hlt, hiff⟩ := close_behind hn hv hv0 he hne
    simp only [lookahead, hh.tag_append, he]
    cases hf : findNotificationStartTag (h ++ v) e with
    | none => exact Or.inl ⟨rfl, hiff.1 hf⟩
    | some t =>
      have hle := (findNotificationStartTag_eq_some hf).1
      have htl := findNotificationStartTag_lt hf
      refine Or.inr ⟨fun h1 => (by rw [hiff.2 h1] at hf; cases hf), (h ++ v).take e, (h ++ v).drop e, rfl, ?_⟩
      rw [List.length_take]
      omega

theorem seesOneTag_of_rxTurn_behind (hh : Head h s) (hn : FramedNotification n)
    (hk : notificationEndAfterStart h s = none ∨ notificationEndAfterStart h s = some h.length) {v : Bytes}
    (hv : v <+: n ++ eom) (hfree : find eom (h ++ v) = none) (ht : rxTurn (h ++ v) = none) : SeesOneTag v := by
  intro t hvt
  rcases hn.tag_of_front hv with hv0 | hv0
  · rw [hv0] at hvt
    cases hvt
  · rw [hv0] at hvt
    cases hvt
    by_cases he : notificationEndAfterStart (h ++ v) s = notificationEndAfterStart h s
    · rw [rxTurn_behind_head hh hk hfree hv0 he] at ht
      cases ht
    · obtain ⟨-, hone⟩ | ⟨-, b, r, hb, -⟩ := rxTurn_behind_close hh hn hv hfree hv0 he
      · exact hone
      · rw [hb] at ht
        cases ht

/-! ## The whole stream -/

/-- The cuts take the head off: no read shows a start tag inside the head that is not its own, none shows a third one,
and one of them ends behind the second start tag's name, in front of the marker, and before a close tag that was not
the head's. -/
structure PairCut (h n : Bytes) (s : Nat) (chunks : List Bytes) : Prop where
  inside : ∀ w, Boundary chunks w → w.length < h.length → SeesOwnTag h w ∧ SeesOneTag w
  behind : ∀ v, Boundary chunks (h ++ v) → SeesOneTag v
  apart : ∃ v, Boundary chunks (h ++ v) ∧ v ≠ n ++ eom ∧ findNotificationStartTag v 0 ≠ none ∧
    notificationEndAfterStart (h ++ v) s = notificationEndAfterStart h s

theorem feed_front {pre chunks : List Bytes} (hpre : pre <+: chunks) :
    (feed rxPass [] pre).1 <+: (feed rxPass [] chunks).1 := by
  obtain ⟨post, rfl⟩ := hpre
  rw [Drain.feed_append]
  exact List.prefix_append _ _

variable {chunks : List Bytes}

theorem boundary_front (hs : chunks.flatten = h ++ n ++ eom) {w : Bytes} (hw : Boundary chunks w) :
    w <+: h ++ n ++ eom := by
  obtain ⟨pre, ⟨post, rfl⟩, rfl⟩ := hw
  exact ⟨post.flatten, by rw [← hs, List.flatten_append]⟩

theorem boundary_behind (hs : chunks.flatten = h ++ n ++ eom) {v : Bytes} (hw : Boundary chunks (h ++ v)) :
    v <+: n ++ eom := by
  have hwS := boundary_front hs hw
  rw [List.append_assoc] at hwS
  exact (List.prefix_append_right_inj h).1 hwS

/-- **Where a run that takes the pair apart stands at a boundary.** -/
theorem feed_before (hfeed : (feed rxPass [] chunks).1 = [headSegment h s, .frame n]) {pre : List Bytes}
    (hpre : pre <+: chunks) : feed rxPass [] pre = ([], pre.flatten) ∨
      (∃ v, pre.flatten = h ++ v ∧ feed rxPass [] pre = ([headSegment h s], v)) ∨
      ∃ v, pre.flatten = h ++ (n ++ eom) ++ v ∧ feed rxPass [] pre = ([headSegment h s, .frame n], v) := by
  have htok := feed_front hpre
  have hcons := Drain.feed_conserves rxPass [] pre
  rw [List.nil_append] at hcons
  rw [hfeed] at htok
  generalize feed rxPass [] pre = d at htok hcons
  obtain ⟨ts, buf⟩ := d
  obtain ⟨tail, htail⟩ := htok
  cases ts with
  | nil => exact Or.inl (by rw [← hcons]; rfl)
  | cons t ts =>
    obtain ⟨rfl, hts⟩ := List.cons.inj htail
    clear htail
    cases ts with
    | nil => exact Or.inr (Or.inl ⟨buf, by rw [← hcons]; simp [rxPass], rfl⟩)
    | cons t' ts =>
      obtain ⟨rfl, hnil⟩ := List.cons.inj hts
      obtain ⟨rfl, -⟩ := List.append_eq_nil_iff.1 hnil
      exact Or.inr (Or.inr ⟨buf, by rw [← hcons]; simp [rxPass], rfl⟩)

/-- **One read that holds everything merges the pair.** -/
theorem drain_pair (hh : Head h s) (hn : FramedNotification n) :
    drain rxPass (h ++ n ++ eom) = ([.frame (h ++ n)], []) :=
  drain_frame (by rw [find_eom_pair hh hn, List.length_append])
    (by rw [List.append_assoc]; exact orphanPrefix_behind hh _)

theorem unmarked_behind (hh : Head h s) (hn : FramedNotification n) {v : Bytes} (hv : v <+: n ++ eom)
    (hne : v ≠ n ++ eom) : find eom (h ++ v) = none := by
  have hlt : v.length < (n ++ eom).length :=
    Nat.lt_of_le_of_ne hv.length_le (fun hlen => hne (hv.eq_of_length hlen))
  apply unmarked_of_short hh hn (by rw [List.append_assoc]; exact (List.prefix_append_right_inj h).2 hv)
  simp only [List.length_append] at hlt ⊢
  omega

/-- **The read that takes the head off** stands where `PairCut` wants one. -/
theorem apart_of_feed (hh : Head h s) (hn : FramedNotification n) (hs : chunks.flatten = h ++ n ++ eom)
    (hfeed : (feed rxPass [] chunks).1 = [headSegment h s, .frame n]) :
    ∃ v, Boundary chunks (h ++ v) ∧ v ≠ n ++ eom ∧ findNotificationStartTag v 0 ≠ none ∧
      notificationEndAfterStart (h ++ v) s = notificationEndAfterStart h s := by
  obtain ⟨pre, r, post, rfl, hpre, hne⟩ := Drain.feed_first rxPass [] chunks (by rw [hfeed]; simp)
  rw [List.nil_append] at hpre hne
  have hprefix : pre ++ [r] <+: pre ++ r :: post := ⟨post, by simp⟩
  have hflat : (pre ++ [r]).flatten = pre.flatten ++ r := by simp
  have hat : feed rxPass [] (pre ++ [r]) = drain rxPass (pre.flatten ++ r) := by
    rw [Drain.feed_concat, hpre]
    rfl
  -- the first segment of that read is the head's
  have hhead : ∀ seg segs, (drain rxPass (pre.flatten ++ r)).1 = seg :: segs → seg = headSegment h s := by
    intro seg segs hseg
    have htok := feed_front hprefix
    rw [hfeed, hat, hseg] at htok
    exact (List.cons_prefix_cons.1 htok).1
  have hwhole : pre.flatten ++ r ≠ h ++ n ++ eom := by
    intro hw
    have hframe := hhead (.frame (h ++ n)) [] (by rw [hw, drain_pair hh hn])
    have := headSegment_not_isFrame h s
    rw [← hframe] at this
    cases this
  have hbound : Boundary (pre ++ r :: post) (pre.flatten ++ r) := ⟨pre ++ [r], hprefix, hflat⟩
  obtain ⟨v, hv⟩ : ∃ v, pre.flatten ++ r = h ++ v := by
    obtain h0 | ⟨v, hv, -⟩ | ⟨v, hv, -⟩ := feed_before hfeed hprefix
    · rw [hat] at h0
      rw [h0] at hne
      exact absurd rfl hne
    · exact ⟨v, by rw [← hflat, hv]⟩
    · exact ⟨n ++ eom ++ v, by rw [← hflat, hv, List.append_assoc]⟩
  rw [hv] at hhead hwhole hbound hne
  rw [List.append_assoc] at hwhole
  have hvS := boundary_behind hs hbound
  have hvn : v ≠ n ++ eom := fun h => hwhole (by rw [h])
  have hfree := unmarked_behind hh hn hvS hvn
  have hturn : rxTurn (h ++ v) ≠ none := by
    intro ht
    rw [Drain.drain_none rxPass ht] at hne
    exact hne rfl
  refine ⟨v, hbound, hvn, ?_, ?_⟩
  · intro hv0
    exact hturn (rxTurn_behind_none hh hfree hv0)
  · rcases hn.tag_of_front hvS with hv0 | hv0
    · exact absurd (rxTurn_behind_none hh hfree hv0) hturn
    · by_contra he
      obtain ⟨hnone, -⟩ | ⟨-, b, rest, hb, hlt⟩ := rxTurn_behind_close hh hn hvS hfree hv0 he
      · exact hturn hnone
      · have hseg := hhead (.recovered b) (drain rxPass rest).1 (by rw [Drain.drain_some rxPass hb]; rfl)
        have hbytes := headSegment_bytes h s
        rw [← hseg] at hbytes
        simp only [Segment.bytes] at hbytes
        rw [hbytes] at hlt
        omega

theorem PairCut.of_feed (hh : Head h s) (hn : FramedNotification n)
    (hk : notificationEndAfterStart h s = none ∨ notificationEndAfterStart h s = some h.length)
    (hs : chunks.flatten = h ++ n ++ eom) (hfeed : (feed rxPass [] chunks).1 = [headSegment h s, .frame n]) :
    PairCut h n s chunks where
  inside := by
    intro w hw hlt
    have hwS := boundary_front hs hw
    have hfree := unmarked_of_short hh hn hwS (by simp only [List.length_append]; omega)
    obtain ⟨pre, hpre, rfl⟩ := hw
    have hwh : pre.flatten <+: h := by
      rw [List.append_assoc] at hwS
      exact List.prefix_of_prefix_length_le hwS (List.prefix_append h _) (by omega)
    have hstable := Drain.feed_stable rxPass (b := []) rxTurn_nil pre
    obtain h0 | ⟨v, hv, -⟩ | ⟨v, hv, -⟩ := feed_before hfeed hpre
    · rw [h0] at hstable
      exact (rxTurn_front hh hwh hfree).1 hstable
    · rw [hv, List.length_append] at hlt
      omega
    · rw [hv] at hlt
      simp only [List.length_append] at hlt
      omega
  behind := by
    intro v hw
    have hv := boundary_behind hs hw
    obtain ⟨pre, hpre, hflat⟩ := hw
    by_cases hvn : v = n ++ eom
    · subst hvn
      intro t ht
      rw [hn.starts_append] at ht
      cases ht
      exact hn.single_eom
    · have hfree := unmarked_behind hh hn hv hvn
      have hstable := Drain.feed_stable rxPass (b := []) rxTurn_nil pre
      obtain h0 | ⟨v', hv', h1⟩ | ⟨v', hv', -⟩ := feed_before hfeed hpre
      · rw [h0, hflat] at hstable
        exact seesOneTag_of_rxTurn_behind hh hn hk hv hfree hstable
      · rw [hflat] at hv'
        obtain rfl := List.append_cancel_left hv'
        rw [h1] at hstable
        exact (rxTurn_second hn hv (Search.find_none_of_append_right hfree)).1 hstable
      · -- the stream has no more bytes than that
        rw [hflat, List.append_assoc] at hv'
        obtain rfl := List.append_cancel_left hv'
        exact absurd (hv.eq_of_length (Nat.le_antisymm hv.length_le (by simp))) hvn
  apart := apart_of_feed hh hn hs hfeed

/-- No second start tag whose head is still recognised stands in `w`. -/
def NotApart (h : Bytes) (s : Nat) (w : Bytes) : Prop :=
  ∀ v, w = h ++ v → findNotificationStartTag v 0 ≠ none →
    notificationEndAfterStart (h ++ v) s ≠ notificationEndAfterStart h s

/-- **One read up to the marker**: it takes nothing, or it takes the head off and nothing more. -/
theorem PairCut.rxTurn_cases (hc : PairCut h n s chunks) (hh : Head h s) (hn : FramedNotification n)
    (hk : notificationEndAfterStart h s = none ∨ notificationEndAfterStart h s = some h.length)
    (hs : chunks.flatten = h ++ n ++ eom) {w : Bytes} (hw : Boundary chunks w)
    (hlt : w.length < (h ++ n ++ eom).length) :
    (rxTurn w = none ∧ NotApart h s w) ∨
      ∃ v, w = h ++ v ∧ rxTurn w = some ([headSegment h s], v) ∧ rxTurn v = none := by
  have hwS := boundary_front hs hw
  have hfree := unmarked_of_short hh hn hwS hlt
  rw [List.append_assoc] at hwS
  by_cases hle : w.length < h.length
  · left
    have hwh : w <+: h := List.prefix_of_prefix_length_le hwS (List.prefix_append h _) (by omega)
    refine ⟨(rxTurn_front hh hwh hfree).2 (hc.inside w hw hle), ?_⟩
    rintro v rfl
    rw [List.length_append] at hle
    omega
  · obtain ⟨v, rfl⟩ : h <+: w := List.prefix_of_prefix_length_le (List.prefix_append h _) hwS (by omega)
    have hv := boundary_behind hs hw
    have hone := hc.behind v hw
    rcases hn.tag_of_front hv with hv0 | hv0
    · refine Or.inl ⟨rxTurn_behind_none hh hfree hv0, ?_⟩
      intro v' hv' htag
      rw [← List.append_cancel_left hv'] at htag
      exact absurd hv0 htag
    · by_cases he : notificationEndAfterStart (h ++ v) s = notificationEndAfterStart h s
      · exact Or.inr ⟨v, rfl, rxTurn_behind_head hh hk hfree hv0 he,
          (rxTurn_second hn hv (Search.find_none_of_append_right hfree)).2 hone⟩
      · left
        obtain ⟨hnone, -⟩ | ⟨hthird, -⟩ := rxTurn_behind_close hh hn hv hfree hv0 he
        · refine ⟨hnone, ?_⟩
          intro v' hv' _
          rw [← List.append_cancel_left hv']
          exact he
        · exact absurd (hone 0 hv0) hthird

theorem PairCut.feed_before (hc : PairCut h n s chunks) (hh : Head h s) (hn : FramedNotification n)
    (hk : notificationEndAfterStart h s = none ∨ notificationEndAfterStart h s = some h.length)
    (hs : chunks.flatten = h ++ n ++ eom) : ∀ pre : List Bytes, pre <+: chunks →
      pre.flatten.length < (h ++ n ++ eom).length →
      (feed rxPass [] pre = ([], pre.flatten) ∧ ∀ w, Boundary pre w → NotApart h s w) ∨
      ∃ v, pre.flatten = h ++ v ∧ feed rxPass [] pre = ([headSegment h s], v) := by
  intro pre
  induction pre using List.reverseRecOn with
  | nil =>
    intro _ _
    refine Or.inl ⟨rfl, ?_⟩
    rintro w ⟨pre, hpre, rfl⟩ v hv htag
    rw [List.prefix_nil.1 hpre] at hv
    rw [(List.append_eq_nil_iff.1 hv.symm).2] at htag
    exact absurd rfl htag
  | append_singleton pre r ih =>
    intro hpre hlt
    have hflat : (pre ++ [r]).flatten = pre.flatten ++ r := by simp
    have hbound : Boundary chunks (pre ++ [r]).flatten := ⟨pre ++ [r], hpre, rfl⟩
    have hcases := hc.rxTurn_cases hh hn hk hs hbound hlt
    rw [Drain.feed_concat]
    obtain ⟨h0, hno⟩ | ⟨v, hv, h1⟩ := ih ((List.prefix_append pre [r]).trans hpre) (by
      rw [hflat, List.length_append] at hlt
      omega)
    · rw [h0]
      simp only [List.nil_append, ← hflat]
      obtain ⟨hturn, hlast⟩ | ⟨v, hv, hturn, hrest⟩ := hcases
      · left
        refine ⟨by rw [Drain.drain_none rxPass hturn], ?_⟩
        rintro w ⟨pre', hpre', rfl⟩
        obtain rfl | hpre' := List.prefix_concat_iff.1 hpre'
        · exact hlast
        · exact hno _ ⟨pre', hpre', rfl⟩
      · exact Or.inr ⟨v, hv, by rw [Drain.drain_some rxPass hturn, Drain.drain_none rxPass hrest]; rfl⟩
    · right
      rw [h1]
      rw [hflat, hv, List.append_assoc] at hbound hlt
      have hfree := unmarked_of_short hh hn (boundary_front hs hbound) hlt
      have hrest : rxTurn (v ++ r) = none :=
        (rxTurn_second hn (boundary_behind hs hbound) (Search.find_none_of_append_right hfree)).2
          (hc.behind _ hbound)
      refine ⟨v ++ r, by rw [hflat, hv, List.append_assoc], ?_⟩
      rw [Drain.drain_none rxPass hrest]
      rfl

/-- **The pair is taken apart exactly when the cuts take the head off.** -/
theorem feed_pair_iff (hh : Head h s) (hn : FramedNotification n)
    (hk : notificationEndAfterStart h s = none ∨ notificationEndAfterStart h s = some h.length)
    (hs : chunks.flatten = h ++ n ++ eom) :
    (feed rxPass [] chunks).1 = [headSegment h s, .frame n] ↔ PairCut h n s chunks := by
  refine ⟨PairCut.of_feed hh hn hk hs, fun hc => ?_⟩
  have hne : chunks.flatten ≠ [] := by
    rw [hs]
    simp [eom]
  obtain ⟨pre, r, post, hchunks, hlt, hr, hpost⟩ := completing_read chunks hne
  rw [hs] at hlt hr
  have hpre : pre <+: chunks := ⟨r :: post, hchunks.symm⟩
  obtain ⟨-, hno⟩ | ⟨v, hv, h1⟩ := hc.feed_before hh hn hk hs pre hpre hlt
  · -- a read that takes the head off comes before the last one
    exfalso
    obtain ⟨v, ⟨pre', hpre', hv⟩, hvn, htag, he⟩ := hc.apart
    have hlen := (boundary_front hs ⟨pre', hpre', hv⟩).length_le
    have hin : pre' <+: pre := by
      rcases Nat.le_total pre'.length pre.length with hle | hle
      · exact List.prefix_of_prefix_length_le hpre' hpre hle
      · obtain ⟨x, rfl⟩ := List.prefix_of_prefix_length_le hpre hpre' hle
        cases x with
        | nil => rw [List.append_nil]
        | cons y x =>
          exfalso
          rw [hchunks] at hpre'
          obtain ⟨rfl, -⟩ := List.cons_prefix_cons.1 ((List.prefix_append_right_inj pre).1 hpre')
          rw [List.flatten_append, List.flatten_cons, ← List.append_assoc, hr] at hv
          rw [List.append_assoc, List.append_assoc] at hv
          have hvx := List.append_cancel_left hv
          rw [← hvx] at hlen hvn
          simp only [List.length_append] at hlen
          have hx : x.flatten = [] := List.eq_nil_of_length_eq_zero (by omega)
          rw [hx, List.append_nil] at hvn
          exact hvn rfl
    exact hno _ ⟨pre', hin, rfl⟩ v hv htag he
  · rw [hv, List.append_assoc, List.append_assoc] at hr
    have hvr := List.append_cancel_left hr
    have hlast : drain rxPass (v ++ r) = ([.frame n], []) := by
      rw [hvr]
      exact drain_frame hn.closed (hn.orphanPrefix_append eom)
    rw [hchunks, Drain.feed_append, h1]
    simp only [feed, hlast, Drain.feed_nils rxPass (b := []) rxTurn_nil post hpost, List.append_nil]
    rfl

end Pair

/-! ## On the queue -/

theorem Segment.report_of_offer_eq_none (xml : XmlParser) {seg : Segment} (h : seg.offer = none) :
    (seg.report xml).isSome = true := by
  cases seg with
  | frame f =>
    simp only [Segment.offer] at h
    split at h
    · rename_i hb
      simp [Segment.report, Segment.diagnosis, hb]
    · cases h
  | orphan b => rfl
  | _ => cases h

theorem Segment.report_of_not_isFrame (xml : XmlParser) {seg : Segment} (h : seg.isFrame = false) :
    (seg.report xml).isSome = true := by
  cases seg with
  | frame f => cases h
  | _ => rfl

theorem filterMap_report_length {xml : XmlParser} {segs : List Segment} (h : ∀ seg ∈ segs, seg.offer = none) :
    (segs.filterMap (Segment.report xml)).length = segs.length := by
  induction segs with
  | nil => rfl
  | cons seg segs ih =>
    obtain ⟨r, hr⟩ := Option.isSome_iff_exists.1
      (Segment.report_of_offer_eq_none xml (h seg List.mem_cons_self))
    rw [List.filterMap_cons_some hr, List.length_cons, List.length_cons,
      ih (fun x hx => h x (List.mem_cons_of_mem seg hx))]

theorem segments_of_pair {xml : XmlParser} {segs : List Segment} {h m : Bytes} {ρ : HealthEventType × String × Int}
    (hh : find eom h = none) (ho : segs.filterMap Segment.offer = [h, m])
    (hr : segs.filterMap (Segment.report xml) = [ρ]) :
    ∃ x f, segs = [x, .frame f] ∧ m = f ++ eom ∧ isValidNotificationDocument xml f = true ∧
      x.isFrame = false ∧ x.bytes = h ∧ x.report xml = some ρ := by
  obtain ⟨l₀, x, l₁, rfl, h₀, hx, ho⟩ := List.filterMap_eq_cons_iff.1 ho
  obtain ⟨l₂, y, l₃, rfl, h₂, hy, h₃⟩ := List.filterMap_eq_cons_iff.1 ho
  rw [List.filterMap_eq_nil_iff] at h₃
  have hxf : x.isFrame = false ∧ x.bytes = h := by
    cases x with
    | frame f =>
      simp only [Segment.offer] at hx
      split at hx
      · cases hx
      · exfalso
        cases hx
        exact Search.find_eq_none_iff.1 hh ⟨f, [], by simp⟩
    | orphan b => cases hx
    | recovered b => cases hx; exact ⟨rfl, rfl⟩
    | abandoned b => cases hx; exact ⟨rfl, rfl⟩
    | finalized g b => cases hx; exact ⟨rfl, rfl⟩
  obtain ⟨rx, hrx⟩ := Option.isSome_iff_exists.1 (Segment.report_of_not_isFrame xml hxf.1)
  -- the one report is the first offer's, so every other segment is a valid frame
  have hlen := congrArg List.length hr
  have hr' := hr
  simp only [List.filterMap_append, List.filterMap_cons, hrx, List.length_append, List.length_cons,
    filterMap_report_length h₀, filterMap_report_length h₂, List.length_nil] at hlen
  obtain rfl : l₀ = [] := List.eq_nil_of_length_eq_zero (by omega)
  obtain rfl : l₂ = [] := List.eq_nil_of_length_eq_zero (by omega)
  cases hry : y.report xml with
  | some r =>
    rw [hry] at hlen
    simp only [List.length_cons] at hlen
    omega
  | none =>
    rw [hry] at hlen
    simp only [filterMap_report_length h₃] at hlen
    obtain rfl : l₃ = [] := List.eq_nil_of_length_eq_zero (by omega)
    obtain ⟨f, rfl, hblank, hvalid⟩ := (report_eq_none_iff xml y).1 hry
    simp only [Segment.offer, if_neg hblank, Option.some.injEq] at hy
    refine ⟨x, f, rfl, hy.symm, hvalid, hxf.1, hxf.2, ?_⟩
    simp only [List.nil_append, List.filterMap_cons, hrx, hry, List.filterMap_nil, List.cons.injEq] at hr'
    rw [hrx, hr'.1]

/-- The first notification was recovered without its marker and the second one framed, the missing marker being the
only thing reported. -/
def RecoveredApart (env : CallbackEnv) (q : NotifQueue) (n₁ n₂ : Bytes) (reads : Reads) : Prop :=
  (readAll env q reads).sink.queue.items = [n₁, n₂ ++ eom] ∧
  (readAll env q reads).sink.eventsToEmit.map NotificationHealthEvent.summary =
    [(.malformedNotification, recoveredMessage, (n₁.length : Int))]

/-- The partial was abandoned and the notification behind it framed, the partial being the only thing reported. -/
def AbandonedApart (env : CallbackEnv) (q : NotifQueue) (f n : Bytes) (reads : Reads) : Prop :=
  (readAll env q reads).sink.queue.items = [f, n ++ eom] ∧
  (readAll env q reads).sink.eventsToEmit.map NotificationHealthEvent.summary =
    [(.incompleteNotification, abandonedMessage, (f.length : Int))]

/-- **A notification that lost its marker is recovered exactly when the cuts take it off**: its close tag must be the
first one, the second notification valid, and some read must end between the second start tag and the marker. -/
theorem recovered_iff (env : CallbackEnv) (hu : env.cfg.notifQueueSize < 0) (q : NotifQueue) (n₁ n₂ : Bytes)
    (h₁ : CompleteNotification n₁) (h₂ : CompleteNotification n₂) (reads : Reads)
    (hs : reads.stream = n₁ ++ n₂ ++ eom) : RecoveredApart env q n₁ n₂ reads ↔
      isValidNotificationDocument env.xml n₂ = true ∧ notificationEndAfterStart n₁ 0 = some n₁.length ∧
      PairCut n₁ n₂ 0 reads.chunks := by
  obtain ⟨hitems, hevents, -, -⟩ := readAll_eq hu q reads
  unfold RecoveredApart
  rw [hitems, hevents]
  constructor
  · rintro ⟨ho, hr⟩
    obtain ⟨x, f, hsegs, hf, hvalid, hxf, hxb, hxr⟩ := segments_of_pair h₁.unmarked ho hr
    obtain rfl := List.append_cancel_right hf
    have hx : x = .recovered n₁ := by
      cases x with
      | recovered b => rw [← hxb]; rfl
      | frame b => cases hxf
      | orphan b => exact absurd (congrArg (fun o => o.map (fun r => r.2.1)) hxr) (by simp [Segment.report,
          Segment.diagnosis, orphanMessage, recoveredMessage])
      | abandoned b => exact absurd (congrArg (fun o => o.map (fun r => r.1)) hxr) (by simp [Segment.report,
          Segment.diagnosis])
      | finalized g b => exact absurd (congrArg (fun o => o.map (fun r => r.1)) hxr) (by simp [Segment.report,
          Segment.diagnosis])
    subst hx
    have hend : notificationEndAfterStart n₁ 0 = some n₁.length := by
      obtain ⟨r, s, t, -, hs', he, -⟩ : (Segment.recovered n₁).WellFormed :=
        Drain.feed_forall rxPass rxTurn_wellFormed [] reads.chunks _ (by rw [hsegs]; simp)
      rw [h₁.framed.starts_append] at hs'
      obtain rfl := Option.some.inj hs'
      exact notificationEndAfterStart_of_append he (Nat.le_refl _)
    refine ⟨hvalid, hend, (feed_pair_iff h₁.head h₂.framed (Or.inr hend) hs).1 ?_⟩
    rw [hsegs]
    simp [headSegment, hend]
  · rintro ⟨hvalid, hend, hc⟩
    have hsegs := (feed_pair_iff h₁.head h₂.framed (Or.inr hend) hs).2 hc
    rw [hsegs]
    simp [headSegment, hend, Segment.offer, Segment.report, Segment.diagnosis, Segment.bytes, not_blank_of_valid hvalid,
      hvalid]

def notificationA : Bytes := ascii "<notification><a/></notification>"

def notificationB : Bytes := ascii "<notification><b/></notification>"

/-- The parser knows the two notifications, and that a document may have two top-level elements. -/
def pairEnv : CallbackEnv :=
  let a := XmlNode.element notificationName [.element (ascii "a") []]
  let b := XmlNode.element notificationName [.element (ascii "b") []]
  defaultEnv [(notificationA, [a]), (notificationB, [b]), (notificationA ++ notificationB, [a, b])]

theorem notificationA_complete : CompleteNotification notificationA where
  starts := by decide +kernel
  single := by decide +kernel
  ends := by decide +kernel
  unmarked := by decide +kernel
  inner := by decide +kernel

theorem notificationB_complete : CompleteNotification notificationB where
  starts := by decide +kernel
  single := by decide +kernel
  ends := by decide +kernel
  unmarked := by decide +kernel
  inner := by decide +kernel

/-- The pair, cut behind the second start tag's name. -/
def pairReads : Reads := [(notificationA ++ ascii "<notification", 0), (ascii "><b/></notification>]]>]]>", 1)]

theorem recovered_iff_cut : RecoveredApart pairEnv {} notificationA notificationB pairReads ↔
    isValidNotificationDocument pairEnv.xml notificationB = true ∧
    notificationEndAfterStart notificationA 0 = some notificationA.length ∧
    PairCut notificationA notificationB 0 pairReads.chunks :=
  recovered_iff pairEnv (by decide) {} notificationA notificationB notificationA_complete notificationB_complete pairReads
    (by decide +kernel)

/-- **One read that holds everything merges the two notifications** into one frame, and nothing is reported. -/
theorem recovered_not_apart : CompleteNotification notificationA ∧ CompleteNotification notificationB ∧
    isValidNotificationDocument pairEnv.xml notificationB = true ∧
    ¬ RecoveredApart pairEnv {} notificationA notificationB [(notificationA ++ notificationB ++ eom, 0)] ∧
    (readAll pairEnv {} [(notificationA ++ notificationB ++ eom, 0)]).sink.queue.items =
      [notificationA ++ notificationB ++ eom] ∧
    (readAll pairEnv {} [(notificationA ++ notificationB ++ eom, 0)]).sink.eventsToEmit = [] := by
  have hitems : (readAll pairEnv {} [(notificationA ++ notificationB ++ eom, 0)]).sink.queue.items =
      [notificationA ++ notificationB ++ eom] := by decide +kernel
  refine ⟨notificationA_complete, notificationB_complete, by decide +kernel, fun h => ?_, hitems, by decide +kernel⟩
  have hone := congrArg List.length h.1
  rw [hitems] at hone
  exact absurd hone (by decide)

/-- A proper first part of a notification that holds its whole start tag, ends outside every tag and lacks the close
tag. -/
structure AbandonedPartial (f : Bytes) (s : Nat) : Prop extends Head f s where
  lacksClose : notificationEndAfterStart f s = none
  completes : ∃ rest, CompleteNotification (f.drop s ++ rest)

/-- **An abandoned partial is kept apart exactly when the cuts take it off**: the notification behind it must be valid,
and some read must end between that one's start tag and the marker, before a close tag of the partial's name. -/
theorem abandoned_iff (env : CallbackEnv) (hu : env.cfg.notifQueueSize < 0) (q : NotifQueue) (f n : Bytes) (s : Nat)
    (hf : AbandonedPartial f s) (hn : FramedNotification n) (reads : Reads) (hs : reads.stream = f ++ n ++ eom) :
    AbandonedApart env q f n reads ↔
      isValidNotificationDocument env.xml n = true ∧ PairCut f n s reads.chunks := by
  obtain ⟨hitems, hevents, -, -⟩ := readAll_eq hu q reads
  have hhead : headSegment f s = .abandoned f := if_pos hf.lacksClose
  unfold AbandonedApart
  rw [hitems, hevents, ← feed_pair_iff hf.toHead hn (Or.inl hf.lacksClose) hs, hhead]
  constructor
  · rintro ⟨ho, hr⟩
    obtain ⟨x, g, hsegs, hg, hvalid, hxf, hxb, hxr⟩ := segments_of_pair hf.unmarked ho hr
    obtain rfl := List.append_cancel_right hg
    have hx : x = .abandoned f := by
      cases x with
      | abandoned b => rw [← hxb]; rfl
      | frame b => cases hxf
      | orphan b => exact absurd (congrArg (fun o => o.map (fun r => r.1)) hxr) (by simp [Segment.report,
          Segment.diagnosis])
      | recovered b => exact absurd (congrArg (fun o => o.map (fun r => r.1)) hxr) (by simp [Segment.report,
          Segment.diagnosis])
      | finalized g b => exact absurd (congrArg (fun o => o.map (fun r => r.2.1)) hxr) (by cases g <;> simp [
          Segment.report, Segment.diagnosis, IncompleteGuard.message, sizeGuardMessage, timeoutGuardMessage,
          abandonedMessage])
    subst hx
    exact ⟨hvalid, hsegs⟩
  · rintro ⟨hvalid, hsegs⟩
    rw [hsegs]
    simp [Segment.offer, Segment.report, Segment.diagnosis, Segment.bytes, not_blank_of_valid hvalid, hvalid]

/-- `notificationA` without its close tag. -/
def partialA : Bytes := ascii "<notification><a/>"

theorem partialA_abandoned : AbandonedPartial partialA 0 where
  tag := by decide +kernel
  benign := rfl
  single := by decide +kernel
  outside := ⟨ascii "<notification><a/", [], by decide +kernel, by decide, by decide +kernel⟩
  unmarked := by decide +kernel
  lacksClose := by decide +kernel
  completes := ⟨ascii "</notification>", by
    have h : partialA.drop 0 ++ ascii "</notification>" = notificationA := by decide +kernel
    rw [h]
    exact notificationA_complete⟩

/-- The partial and the notification behind it, cut behind the second start tag's name. -/
def partialReads : Reads := [(partialA ++ ascii "<notification", 0), (ascii "><b/></notification>]]>]]>", 1)]

theorem abandoned_iff_cut : AbandonedApart pairEnv {} partialA notificationB partialReads ↔
    isValidNotificationDocument pairEnv.xml notificationB = true ∧
    PairCut partialA notificationB 0 partialReads.chunks :=
  abandoned_iff pairEnv (by decide) {} partialA notificationB 0 partialA_abandoned notificationB_complete.framed
    partialReads (by decide +kernel)

/-- **One read that holds everything merges the partial with the notification behind it** into one malformed frame. -/
theorem abandoned_not_apart : AbandonedPartial partialA 0 ∧ CompleteNotification notificationB ∧
    isValidNotificationDocument pairEnv.xml notificationB = true ∧
    ¬ AbandonedApart pairEnv {} partialA notificationB [(partialA ++ notificationB ++ eom, 0)] ∧
    (readAll pairEnv {} [(partialA ++ notificationB ++ eom, 0)]).sink.queue.items =
      [partialA ++ notificationB ++ eom] ∧
    (readAll pairEnv {} [(partialA ++ notificationB ++ eom, 0)]).sink.eventsToEmit.map (·.type) =
      [.malformedNotification] := by
  have hitems : (readAll pairEnv {} [(partialA ++ notificationB ++ eom, 0)]).sink.queue.items =
      [partialA ++ notificationB ++ eom] := by decide +kernel
  refine ⟨partialA_abandoned, notificationB_complete, by decide +kernel, fun h => ?_, hitems, by decide +kernel⟩
  have hone := congrArg List.length h.1
  rw [hitems] at hone
  exact absurd hone (by decide)

end PyNetX
