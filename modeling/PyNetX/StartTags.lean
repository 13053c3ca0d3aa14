import PyNetX.Scanner
/-!
# StartTags — which start tags the scanner finds

A start tag's name ends at a space, `>`, `/` or the end of the data; a `<` inside it is where the tag was cut off.
`find_notification_start_tag` reads names over a `<`: it misses the tag behind such a fragment, or takes the fragment
for it, exactly where a name `notification` stands in a name that it reads (`findNotificationStartTag_exact_iff`).
-/
namespace PyNetX

/-- A byte of a tag's name: not a space, `<`, `>` or `/`. -/
def isTagByte (c : UInt8) : Bool := isNameByte c && c != chLt

/-- The name behind a `<`. -/
def nameBehind (rest : Bytes) : Bytes := rest.takeWhile isTagByte

/-- `t` begins with a `<` and a whole name whose local part is `notification`. -/
def NamesNotification : Bytes → Prop
  | [] => False
  | c :: rest => c = chLt ∧ xmlLocalName (nameBehind rest) = notificationName ∧
      (rest.drop (nameBehind rest).length).head? ≠ some chLt

/-- A start tag of a notification: neither a declaration nor a processing instruction. -/
def StartTag (t : Bytes) : Prop := NamesNotification t ∧ ∀ c ∈ t[1]?, c ≠ chBang ∧ c ≠ chQuestion

instance : DecidablePred NamesNotification
  | [] => inferInstanceAs (Decidable False)
  | _ :: _ => inferInstanceAs (Decidable (_ ∧ _ ∧ _))

instance : DecidablePred StartTag := fun t =>
  decidable_of_iff (NamesNotification t ∧ t[1]?.all (fun c => c ≠ chBang ∧ c ≠ chQuestion) = true) (by
    rw [StartTag]
    cases t[1]? <;> simp)

/-- The scanner finds the least start tag, and none only where there is none. -/
def ScansExactly (data : Bytes) (start : Nat) : Prop :=
  (∀ p, findNotificationStartTag data start = some p ↔
    start ≤ p ∧ StartTag (data.drop p) ∧ ∀ q, start ≤ q → q < p → ¬ StartTag (data.drop q)) ∧
  (findNotificationStartTag data start = none ↔ ∀ q, start ≤ q → ¬ StartTag (data.drop q))

/-- Offset `q` stands in the name that is read behind an earlier `<`. -/
def InName (data : Bytes) (start q : Nat) : Prop :=
  ∃ a mid, data.take q = a ++ chLt :: mid ∧ start ≤ a.length ∧ (∀ c ∈ mid, isNameByte c = true) ∧
    ∀ c ∈ mid.head?, c ≠ chBang ∧ c ≠ chQuestion

/-- Up to the first start tag, every name `notification` stands behind a `<` that is in no other name. -/
def NamesApart (data : Bytes) (start : Nat) : Prop :=
  ∀ q, start ≤ q → NamesNotification (data.drop q) →
    (∀ p, start ≤ p → p < q → ¬ StartTag (data.drop p)) → ¬ InName data start q

/-! ## The first start tag -/

def firstStartTag : Bytes → Option Nat
  | [] => none
  | c :: rest => if StartTag (c :: rest) then some 0 else (firstStartTag rest).map (· + 1)

theorem not_namesNotification_of_ne {c : UInt8} (hc : c ≠ chLt) (rest : Bytes) : ¬ NamesNotification (c :: rest) :=
  fun h => hc h.1

theorem firstStartTag_append : ∀ {h : Bytes} (t : Bytes), (∀ q < h.length, ¬ StartTag ((h ++ t).drop q)) →
    firstStartTag (h ++ t) = (firstStartTag t).map (· + h.length)
  | [], t, _ => by simp
  | c :: h, t, hno => by
    have hrest := firstStartTag_append (h := h) t (fun q hq => hno (q + 1) (Nat.succ_lt_succ hq))
    have hfirst : ¬ StartTag (c :: (h ++ t)) := hno 0 (Nat.succ_pos _)
    rw [List.cons_append, firstStartTag, if_neg hfirst, hrest, Option.map_map]
    rfl

theorem firstStartTag_eq_some_iff : ∀ {s : Bytes} {k : Nat}, firstStartTag s = some k ↔
    StartTag (s.drop k) ∧ ∀ q < k, ¬ StartTag (s.drop q)
  | [], k => by simp [firstStartTag, StartTag, NamesNotification]
  | c :: rest, k => by
    rw [firstStartTag]
    split
    · rename_i htag
      cases k with
      | zero => simp [htag]
      | succ k => exact iff_of_false (by simp) (fun h => h.2 0 k.succ_pos htag)
    · rename_i htag
      cases k with
      | zero => simp [htag]
      | succ k =>
        rw [Option.map_eq_some_iff]
        simp only [Nat.add_right_cancel_iff, exists_eq_right, firstStartTag_eq_some_iff, List.drop_succ_cons]
        refine and_congr_right fun _ => ⟨fun h q hq => ?_, fun h q hq => h (q + 1) (Nat.succ_lt_succ hq)⟩
        cases q with
        | zero => exact htag
        | succ q => exact h q (Nat.lt_of_succ_lt_succ hq)

theorem firstStartTag_eq_none_iff {s : Bytes} : firstStartTag s = none ↔ ∀ q, ¬ StartTag (s.drop q) := by
  constructor
  · intro h q
    induction q using Nat.strongRecOn with
    | _ q ih =>
      intro htag
      rw [firstStartTag_eq_some_iff.2 ⟨htag, fun p hp => ih p hp⟩] at h
      cases h
  · intro h
    cases hs : firstStartTag s with
    | none => rfl
    | some k => exact absurd (firstStartTag_eq_some_iff.1 hs).1 (h k)

/-- **The scanner is exact where it agrees with `firstStartTag`.** -/
theorem scansExactly_iff (data : Bytes) (start : Nat) :
    ScansExactly data start ↔ scan (data.drop start) = firstStartTag (data.drop start) := by
  have hdrop : ∀ k, (data.drop start).drop k = data.drop (start + k) := fun k => List.drop_drop
  have hsome : ∀ p, (firstStartTag (data.drop start)).map (· + start) = some p ↔
      start ≤ p ∧ StartTag (data.drop p) ∧ ∀ q, start ≤ q → q < p → ¬ StartTag (data.drop q) := by
    intro p
    rw [Option.map_eq_some_iff]
    constructor
    · rintro ⟨k, hk, rfl⟩
      obtain ⟨htag, hleast⟩ := firstStartTag_eq_some_iff.1 hk
      rw [hdrop, Nat.add_comm] at htag
      refine ⟨Nat.le_add_left _ _, htag, fun q hq hlt => ?_⟩
      obtain ⟨j, rfl⟩ := Nat.exists_eq_add_of_le hq
      have := hleast j (by omega)
      rwa [hdrop] at this
    · rintro ⟨hp, htag, hleast⟩
      obtain ⟨k, rfl⟩ := Nat.exists_eq_add_of_le hp
      refine ⟨k, firstStartTag_eq_some_iff.2 ⟨by rwa [hdrop], fun q hq => ?_⟩, Nat.add_comm k start⟩
      rw [hdrop]
      exact hleast _ (Nat.le_add_right _ _) (by omega)
  have hnone : (firstStartTag (data.drop start)).map (· + start) = none ↔ ∀ q, start ≤ q → ¬ StartTag (data.drop q) := by
    rw [Option.map_eq_none_iff, firstStartTag_eq_none_iff]
    constructor
    · intro h q hq
      obtain ⟨k, rfl⟩ := Nat.exists_eq_add_of_le hq
      rw [← hdrop]
      exact h k
    · intro h q
      rw [hdrop]
      exact h _ (Nat.le_add_right _ _)
  have hmap : findNotificationStartTag data start = (firstStartTag (data.drop start)).map (· + start) ↔
      scan (data.drop start) = firstStartTag (data.drop start) := by
    rw [findNotificationStartTag]
    exact ⟨fun h => Option.map_injective (fun a b hab => Nat.add_right_cancel hab) h, fun h => by rw [h]⟩
  rw [← hmap, ScansExactly]
  constructor
  · rintro ⟨hp, -⟩
    exact Option.ext fun p => (hp p).trans (hsome p).symm
  · intro h
    rw [h]
    exact ⟨hsome, hnone⟩

/-! ## Names -/

theorem nameBehind_append {v : Bytes} (hv : ∀ c ∈ v, isTagByte c = true) {t : Bytes}
    (ht : ∀ c ∈ t.head?, isTagByte c = false) : nameBehind (v ++ t) = v := by
  rw [nameBehind, List.takeWhile_append_of_pos hv]
  cases t with
  | nil => simp
  | cons d r => rw [List.takeWhile_cons_of_neg (by simpa using ht d rfl), List.append_nil]

theorem drop_nameBehind (rest : Bytes) : rest.drop (nameBehind rest).length = rest.dropWhile isTagByte := by
  conv => lhs; arg 2; rw [← List.takeWhile_append_dropWhile (p := isTagByte) (l := rest)]
  exact List.drop_left

/-- **A name in front of another `<` is cut off**, and names nothing. -/
theorem not_namesNotification_of_cut {y : Bytes} (hy : ∀ c ∈ y, isNameByte c = true) (z : Bytes) :
    ¬ NamesNotification (chLt :: (y ++ chLt :: z)) := by
  rintro ⟨-, -, hend⟩
  rw [drop_nameBehind, List.dropWhile_append] at hend
  have hlt : isTagByte chLt = false := by decide
  cases hd : y.dropWhile isTagByte with
  | nil =>
    rw [hd, List.dropWhile_cons_of_neg (by simp [hlt])] at hend
    exact hend rfl
  | cons c r =>
    rw [hd] at hend
    have hstop := List.head_dropWhile_not isTagByte (l := y) (by rw [hd]; exact List.cons_ne_nil c r)
    have hmem : c ∈ y := (List.dropWhile_suffix isTagByte).subset (hd ▸ List.mem_cons_self)
    simp only [hd, List.head_cons, isTagByte, hy c hmem, Bool.true_and, bne_eq_false_iff_eq] at hstop
    exact hend (by rw [hstop]; rfl)

theorem xmlLocalName_append (x y : Bytes) :
    xmlLocalName (x ++ y) = if chColon ∈ y then xmlLocalName y else xmlLocalName x ++ y := by
  unfold xmlLocalName
  induction y using List.reverseRecOn with
  | nil => simp
  | append_singleton y c ih =>
    rw [← List.append_assoc]
    by_cases hc : c = chColon
    · subst hc
      simp
    · have hpos (l : Bytes) := List.rtakeWhile_concat_pos (· != chColon) l c (by simpa using hc)
      rw [hpos, hpos, ih]
      simp only [List.mem_append, List.mem_singleton, Ne.symm hc, or_false]
      split <;> simp

/-- A whole name behind the `<`: the local part decides. -/
theorem namesNotification_iff {v t : Bytes} (hv : ∀ c ∈ v, isTagByte c = true) (ht : ∀ c ∈ t.head?, isNameByte c = false) :
    NamesNotification (chLt :: (v ++ t)) ↔ xmlLocalName v = notificationName := by
  have hend : ∀ c ∈ t.head?, isTagByte c = false := fun c hc => by rw [isTagByte, ht c hc, Bool.false_and]
  rw [NamesNotification, nameBehind_append hv hend, List.drop_left]
  have hlt : t.head? ≠ some chLt := fun h => ne_chLt_of_not_isNameByte (ht chLt h) rfl
  simp [hlt]

/-! ## A name the scanner reads -/

/-- What the scanner reads behind a `<`: the name, and what stands behind it. -/
theorem exists_name {rest : Bytes} (h : tagName rest ≠ []) : ∃ t, rest = tagName rest ++ t ∧
    (∀ c ∈ tagName rest, isNameByte c = true) ∧ (∀ c ∈ t.head?, isNameByte c = false) ∧
    ∀ c ∈ (tagName rest).head?, c ≠ chBang ∧ c ≠ chQuestion := by
  have hq : tagName rest = rest.takeWhile isNameByte := tagName_eq h
  refine ⟨rest.dropWhile isNameByte, ?_, fun c hc => ?_, fun c hc => ?_, fun c hc => ?_⟩
  · rw [hq, List.takeWhile_append_dropWhile]
  · rw [hq] at hc
    exact List.mem_takeWhile_imp hc
  · have hne : rest.dropWhile isNameByte ≠ [] := fun hn => by
      rw [hn] at hc
      cases hc
    have hstop := List.head_dropWhile_not isNameByte hne
    rwa [Option.some.inj ((List.head?_eq_some_head hne).symm.trans hc)] at hstop
  · cases rest with
    | nil => exact absurd rfl h
    | cons next t =>
      simp only [tagName] at h hc
      split at h
      · exact absurd rfl h
      · rename_i hmark
        rw [if_neg hmark, List.takeWhile_cons] at hc
        split at hc
        · obtain rfl := Option.some.inj hc
          constructor <;> rintro rfl <;> exact hmark (by decide)
        · cases hc

/-- The last `<` of a name, with the bytes of a tag's name behind it. -/
theorem last_lt {name : Bytes} (hname : ∀ c ∈ name, isNameByte c = true) :
    (∀ c ∈ name, isTagByte c = true) ∨ ∃ u v, name = u ++ chLt :: v ∧ ∀ c ∈ v, isTagByte c = true := by
  induction name with
  | nil => exact Or.inl nofun
  | cons c name ih =>
    rcases ih (fun d hd => hname d (List.mem_cons_of_mem c hd)) with hall | ⟨u, v, rfl, hv⟩
    · by_cases hc : c = chLt
      · exact Or.inr ⟨[], name, by rw [hc]; rfl, hall⟩
      · refine Or.inl fun d hd => ?_
        rcases List.mem_cons.1 hd with rfl | hd
        · simpa [isTagByte, hc] using hname d List.mem_cons_self
        · exact hall d hd
    · exact Or.inr ⟨c :: u, v, rfl, hv⟩

/-! ## What the scanner misses -/

theorem namesApart_append {h t : Bytes} (htags : ∀ q < h.length, ¬ StartTag ((h ++ t).drop q))
    (hnames : ∀ q < h.length, 0 < q → ¬ NamesNotification ((h ++ t).drop q))
    (hcut : ∀ a mid q, h = a ++ chLt :: mid → NamesNotification (t.drop q) →
      (∀ c ∈ mid ++ t.take q, isNameByte c = true) → ¬ ∀ c ∈ (mid ++ t.take q).head?, c ≠ chBang ∧ c ≠ chQuestion) :
    NamesApart (h ++ t) 0 ↔ NamesApart t 0 := by
  constructor
  · rintro hall q - hq hfirst ⟨a, mid, htake, -, hmid, hhead⟩
    refine hall (h.length + q) (Nat.zero_le _) (by rwa [List.drop_length_add_append]) (fun p _ hp => ?_)
      ⟨h ++ a, mid, by rw [List.take_length_add_append, htake, List.append_assoc], Nat.zero_le _, hmid, hhead⟩
    rcases Nat.lt_or_ge p h.length with hlt | hge
    · exact htags p hlt
    · obtain ⟨k, rfl⟩ := Nat.exists_eq_add_of_le hge
      rw [List.drop_length_add_append]
      exact hfirst k (Nat.zero_le _) (by omega)
  · rintro hall q - hq hfirst ⟨a, mid, htake, -, hmid, hhead⟩
    have hpos : 0 < q := Nat.pos_of_ne_zero fun h0 => by simp [h0] at htake
    obtain ⟨k, rfl⟩ := Nat.exists_eq_add_of_le (Nat.le_of_not_lt fun hlt => hnames q hlt hpos hq)
    rw [List.drop_length_add_append] at hq
    rw [List.take_length_add_append, List.append_eq_append_iff] at htake
    have hbehind : ∀ a', t.take k = a' ++ chLt :: mid → False := fun a' ha' =>
      hall k (Nat.zero_le _) hq (fun p _ hp => by
        have := hfirst (h.length + p) (Nat.zero_le _) (by omega)
        rwa [List.drop_length_add_append] at this) ⟨a', mid, ha', Nat.zero_le _, hmid, hhead⟩
    rcases htake with ⟨a', -, ha'⟩ | ⟨b, hb, hmid'⟩
    · exact hbehind a' ha'
    · cases b with
      | nil => exact hbehind [] (by simpa using hmid'.symm)
      | cons x mid' =>
        obtain ⟨rfl, rfl⟩ := List.cons_eq_cons.1 hmid'
        exact hcut a mid' k hb hq hmid hhead

/-- **In front of the last `<` of a name that is read there is no start tag.** -/
theorem not_namesNotification_in_name {name u v t : Bytes} (hname : ∀ c ∈ name, isNameByte c = true)
    (hcut : name = u ++ chLt :: v) : ∀ q < u.length + 1, ¬ NamesNotification ((chLt :: (name ++ t)).drop q) := by
  intro q hq hnames
  have hu : ∀ c ∈ u, isNameByte c = true := fun c hc => hname c (by rw [hcut]; exact List.mem_append_left _ hc)
  have hwhole : chLt :: (name ++ t) = chLt :: u ++ chLt :: (v ++ t) := by simp [hcut]
  rw [hwhole, List.drop_append_of_le_length (by simpa using Nat.le_of_lt hq)] at hnames
  cases hd : (chLt :: u).drop q with
  | nil =>
    have := congrArg List.length hd
    simp only [List.length_drop, List.length_cons, List.length_nil] at this
    omega
  | cons c y =>
    rw [hd, List.cons_append] at hnames
    obtain rfl : c = chLt := hnames.1
    refine not_namesNotification_of_cut (fun d hd' => ?_) _ hnames
    have hmem : d ∈ (chLt :: u).drop q := by rw [hd]; exact List.mem_cons_of_mem _ hd'
    rcases List.mem_cons.1 (List.mem_of_mem_drop hmem) with rfl | hmem
    · decide
    · exact hu d hmem

/-- A name that is read, with its last `<`: what a tag there makes of the two scans. -/
theorem not_namesApart_of_glued {name u v t : Bytes} (hname : ∀ c ∈ name, isNameByte c = true)
    (hhead : ∀ c ∈ name.head?, c ≠ chBang ∧ c ≠ chQuestion) (ht : ∀ c ∈ t.head?, isNameByte c = false)
    (hcut : name = u ++ chLt :: v) (hv : ∀ c ∈ v, isTagByte c = true) (hlocal : xmlLocalName v = notificationName) :
    ¬ NamesApart (chLt :: (name ++ t)) 0 := by
  intro hapart
  have hwhole : chLt :: (name ++ t) = chLt :: u ++ chLt :: (v ++ t) := by simp [hcut]
  refine hapart (u.length + 1) (Nat.zero_le _) ?_
    (fun p _ hp htag => not_namesNotification_in_name hname hcut p hp htag.1) ⟨[], u, ?_, Nat.zero_le _, ?_, ?_⟩
  · rw [hwhole, List.drop_left' (by simp)]
    exact (namesNotification_iff hv ht).2 hlocal
  · rw [hwhole, List.take_left' (by simp)]
    rfl
  · exact fun c hc => hname c (by rw [hcut]; exact List.mem_append_left _ hc)
  · intro c hc
    apply hhead c
    rw [hcut, List.head?_append, hc]
    rfl

theorem tagName_ne_nil {next : UInt8} (hnext : isNameByte next = true) (hmark : next ≠ chBang ∧ next ≠ chQuestion)
    (t : Bytes) : tagName (next :: t) ≠ [] := by
  have hslash : next ≠ chSlash := by
    rintro rfl
    revert hnext
    decide
  simp [tagName, hslash, hmark, hnext]

theorem not_startTag_of_bare {rest : Bytes} (hb : tagName rest = []) : ¬ StartTag (chLt :: rest) := by
  rintro ⟨⟨-, hlocal, -⟩, hmark⟩
  cases rest with
  | nil => exact absurd hlocal (by decide)
  | cons next t =>
    have hname : nameBehind (next :: t) = [] := by
      rw [nameBehind, List.takeWhile_cons_of_neg]
      rw [isTagByte, Bool.and_eq_true]
      exact fun htag => tagName_ne_nil htag.1 (hmark next rfl) t hb
    rw [hname] at hlocal
    exact absurd hlocal (by decide)

theorem not_namesNotification_of_head {t : Bytes} (ht : ∀ c ∈ t.head?, c ≠ chLt) : ¬ NamesNotification t := by
  cases t with
  | nil => exact id
  | cons c t => exact not_namesNotification_of_ne (ht c rfl) t

theorem startTag_head {name : Bytes} (hne : name ≠ []) (hhead : ∀ c ∈ name.head?, c ≠ chBang ∧ c ≠ chQuestion)
    (t : Bytes) : ∀ c ∈ (chLt :: (name ++ t))[1]?, c ≠ chBang ∧ c ≠ chQuestion := by
  cases name with
  | nil => exact absurd rfl hne
  | cons next name => simpa using hhead

/-- **The local part of a cut name** is `notification` only if that of its last piece is; if the piece has a colon, it
is the piece's. -/
theorem xmlLocalName_cut (u : Bytes) {v : Bytes} :
    xmlLocalName (u ++ chLt :: v) = notificationName ↔ chColon ∈ v ∧ xmlLocalName v = notificationName := by
  have hlt : chLt ∉ notificationName := by decide
  rw [xmlLocalName_append]
  by_cases hcolon : chColon ∈ v
  · have hself := xmlLocalName_append [chLt] v
    rw [if_pos hcolon, List.singleton_append] at hself
    rw [if_pos (List.mem_cons_of_mem _ hcolon), hself]
    simp [hcolon]
  · rw [if_neg (fun hmem => (List.mem_cons.1 hmem).elim (by decide) hcolon)]
    refine iff_of_false (fun h => hlt ?_) (fun h => hcolon h.1)
    rw [← h]
    simp

theorem not_namesNotification_of_tagBytes {x : Bytes} (hx : ∀ c ∈ x, isTagByte c = true) (t : Bytes) {q : Nat}
    (hq : q < x.length) : ¬ NamesNotification ((x ++ t).drop q) := by
  refine not_namesNotification_of_head fun c hc => ?_
  rw [List.drop_append_of_le_length (Nat.le_of_lt hq), List.drop_eq_getElem_cons hq] at hc
  obtain rfl := Option.some.inj hc
  have htag := hx _ (List.getElem_mem hq)
  simp only [isTagByte, Bool.and_eq_true, bne_iff_ne] at htag
  exact htag.2

/-- **A name that is read and is not `notification`**, nor is what stands behind its last `<`, names nothing. -/
theorem not_namesNotification_of_name {name t : Bytes} (hname : ∀ c ∈ name, isNameByte c = true)
    (ht : ∀ c ∈ t.head?, isNameByte c = false) (hl : xmlLocalName name ≠ notificationName)
    (hlast : ∀ u v, name = u ++ chLt :: v → (∀ c ∈ v, isTagByte c = true) → xmlLocalName v ≠ notificationName) :
    ∀ q < (chLt :: name).length, ¬ NamesNotification ((chLt :: (name ++ t)).drop q) := by
  intro q hq
  rw [List.length_cons] at hq
  rcases last_lt hname with hall | ⟨u, v, hcut, hv⟩
  · cases q with
    | zero => exact fun hnames => hl ((namesNotification_iff hall ht).1 hnames)
    | succ q => exact not_namesNotification_of_tagBytes hall t (Nat.lt_of_succ_lt_succ hq)
  · rcases Nat.lt_or_ge q (u.length + 1) with hlt | hge
    · exact not_namesNotification_in_name hname hcut q hlt
    · obtain ⟨k, rfl⟩ := Nat.exists_eq_add_of_le hge
      have hdrop : (chLt :: (name ++ t)).drop (u.length + 1 + k) = (chLt :: (v ++ t)).drop k := by
        rw [← List.drop_drop, hcut]
        simp
      rw [hdrop]
      cases k with
      | zero => exact fun hnames => hlast u v hcut hv ((namesNotification_iff hv ht).1 hnames)
      | succ k =>
        apply not_namesNotification_of_tagBytes hv t
        rw [hcut] at hq
        simp at hq
        omega

/-- **A name that is read over its last `<` hides the tag there**, which is the first. -/
theorem firstStartTag_of_glued {name u v t : Bytes} (hname : ∀ c ∈ name, isNameByte c = true)
    (ht : ∀ c ∈ t.head?, isNameByte c = false) (hl : xmlLocalName name ≠ notificationName)
    (hcut : name = u ++ chLt :: v) (hv : ∀ c ∈ v, isTagByte c = true) (hlocal : xmlLocalName v = notificationName) :
    firstStartTag (chLt :: (name ++ t)) = some (u.length + 1) := by
  refine firstStartTag_eq_some_iff.2 ⟨?_, fun q hq htag => not_namesNotification_in_name hname hcut q hq htag.1⟩
  -- a colon there would be the last of the name that is read
  have hcolon : chColon ∉ v := fun hmem => hl (by rw [hcut]; exact (xmlLocalName_cut u).2 ⟨hmem, hlocal⟩)
  have hself : v = notificationName := by
    rw [← hlocal, eq_comm, xmlLocalName, List.rtakeWhile_eq_self_iff]
    intro c hc
    rw [bne_iff_ne]
    rintro rfl
    exact hcolon hc
  have hne : v ≠ [] := by
    rw [hself]
    decide
  have hhead : ∀ c ∈ v.head?, c ≠ chBang ∧ c ≠ chQuestion := by
    rw [hself]
    rintro _ ⟨⟩
    decide
  have hdrop : (chLt :: (name ++ t)).drop (u.length + 1) = chLt :: (v ++ t) := by simp [hcut]
  rw [hdrop]
  exact ⟨(namesNotification_iff hv ht).2 hlocal, startTag_head hne hhead t⟩

/-- One step of the scan over `h`, that both scans pass. -/
theorem scan_eq_firstStartTag_append {h t : Bytes} (hscan : scan (h ++ t) = (scan t).map (· + h.length))
    (htags : ∀ q < h.length, ¬ StartTag ((h ++ t).drop q))
    (hnames : ∀ q < h.length, 0 < q → ¬ NamesNotification ((h ++ t).drop q))
    (hcut : ∀ a mid q, h = a ++ chLt :: mid → NamesNotification (t.drop q) →
      (∀ c ∈ mid ++ t.take q, isNameByte c = true) → ¬ ∀ c ∈ (mid ++ t.take q).head?, c ≠ chBang ∧ c ≠ chQuestion)
    (ih : scan t = firstStartTag t ↔ NamesApart t 0) :
    scan (h ++ t) = firstStartTag (h ++ t) ↔ NamesApart (h ++ t) 0 := by
  rw [hscan, firstStartTag_append t htags, namesApart_append htags hnames hcut, ← ih]
  exact (Option.map_injective fun a b hab => Nat.add_right_cancel hab).eq_iff

/-- **The two scans agree exactly where the names stand apart.** -/
theorem scan_eq_firstStartTag_iff (s : Bytes) : scan s = firstStartTag s ↔ NamesApart s 0 := by
  induction s using scan_induction with
  | nil => exact ⟨fun _ q _ hq => by simp [NamesNotification] at hq, fun _ => rfl⟩
  | skip c rest hc ih =>
    refine scan_eq_firstStartTag_append (h := [c]) (scan_skip hc rest) (fun q hq htag => ?_) (fun q hq hpos => ?_)
      (fun a mid q ha => ?_) ih
    · obtain rfl : q = 0 := by simpa using hq
      exact not_namesNotification_of_ne hc rest htag.1
    · simp at hq
      omega
    · rw [List.singleton_eq_append_iff] at ha
      simp [Ne.symm hc] at ha
  | bare rest hb ih =>
    refine scan_eq_firstStartTag_append (h := [chLt]) (scan_bare hb) (fun q hq htag => ?_) (fun q hq hpos => ?_)
      (fun a mid q ha hnames hall hhead => ?_) ih
    · obtain rfl : q = 0 := by simpa using hq
      exact not_startTag_of_bare hb htag
    · simp at hq
      omega
    · obtain ⟨-, rfl⟩ : a = [] ∧ mid = [] := by
        rw [List.singleton_eq_append_iff] at ha
        simpa using ha
      cases rest with
      | nil => simp [NamesNotification] at hnames
      | cons next t =>
        cases q with
        | zero =>
          obtain rfl : next = chLt := hnames.1
          exact tagName_ne_nil (by decide) (by decide) t hb
        | succ q =>
          exact tagName_ne_nil (hall next (by simp)) (hhead next (by simp)) t hb
  | tag rest hb hl =>
    obtain ⟨t, hrest, hname, ht, hhead⟩ := exists_name hb
    rw [scan_tag hb hl]
    generalize tagName rest = name at hb hl hrest hname hhead
    subst hrest
    rcases last_lt hname with hall | ⟨u, v, hcut, hv⟩
    · -- no other `<` in the name: the tag is one
      have htag : StartTag (chLt :: (name ++ t)) :=
        ⟨(namesNotification_iff hall ht).2 hl, startTag_head hb hhead t⟩
      rw [firstStartTag, if_pos htag]
      refine ⟨fun _ q _ _ hfirst => ?_, fun _ => rfl⟩
      cases q with
      | zero => exact fun ⟨a, mid, htake, _⟩ => by simp at htake
      | succ q => exact absurd htag (hfirst 0 (Nat.le_refl _) (Nat.succ_pos q))
    · have hlocal : xmlLocalName v = notificationName := by
        rw [hcut, xmlLocalName_cut] at hl
        exact hl.2
      have hno := not_namesNotification_in_name (t := t) hname hcut 0 (Nat.succ_pos _)
      refine iff_of_false (fun h => ?_) (not_namesApart_of_glued hname hhead ht hcut hv hlocal)
      exact hno (firstStartTag_eq_some_iff.1 h.symm).1.1
  | other rest hb hl ih =>
    obtain ⟨t, hrest, hname, ht, hhead⟩ := exists_name hb
    have hscan := scan_other hb hl
    generalize tagName rest = name at hb hl hrest hname hhead hscan ih
    subst hrest
    rw [List.drop_left] at hscan ih
    by_cases hglued : ∃ u v, name = u ++ chLt :: v ∧ (∀ c ∈ v, isTagByte c = true) ∧ xmlLocalName v = notificationName
    · -- the tag behind the last `<` is passed over
      obtain ⟨u, v, hcut, hv, hlocal⟩ := hglued
      refine iff_of_false (fun h => ?_) (not_namesApart_of_glued hname hhead ht hcut hv hlocal)
      rw [hscan, firstStartTag_of_glued hname ht hl hcut hv hlocal, Option.map_eq_some_iff] at h
      obtain ⟨k, -, hk⟩ := h
      rw [hcut] at hk
      simp at hk
      omega
    · have hnothing := not_namesNotification_of_name (t := t) hname ht hl
        (fun u v hcut hv hlocal => hglued ⟨u, v, hcut, hv, hlocal⟩)
      refine scan_eq_firstStartTag_append (h := chLt :: name) hscan (fun q hq htag => hnothing q hq htag.1)
        (fun q hq _ => hnothing q hq) (fun a mid q ha hnames hall _ => ?_) ih
      -- behind the name stands a byte that ends it
      cases t with
      | nil => simp [NamesNotification] at hnames
      | cons d r =>
        have hd := ht d rfl
        cases q with
        | zero => exact ne_chLt_of_not_isNameByte hd hnames.1
        | succ q =>
          have := hall d (by simp)
          rw [hd] at this
          cases this

/-! ## From an offset on -/

/-- A `<` of `data` from `start` on, in front of offset `start + q`, is one of what stands from `start` on. -/
theorem inName_drop (data : Bytes) (start q : Nat) : InName data start (start + q) ↔ InName (data.drop start) 0 q := by
  have hsplit : data.take (start + q) = data.take start ++ (data.drop start).take q := List.take_add
  constructor
  · rintro ⟨a, mid, htake, hle, hmid, hhead⟩
    rw [hsplit, List.append_eq_append_iff] at htake
    rcases htake with ⟨a', rfl, ha'⟩ | ⟨b, hb, hmid'⟩
    · exact ⟨a', mid, ha', Nat.zero_le _, hmid, hhead⟩
    · have hlen := congrArg List.length hb
      rw [List.length_append, List.length_take] at hlen
      have hnil : b = [] := List.length_eq_zero_iff.1 (by omega)
      subst hnil
      exact ⟨[], mid, by simpa using hmid'.symm, Nat.zero_le _, hmid, hhead⟩
  · rintro ⟨a, mid, htake, -, hmid, hhead⟩
    refine ⟨data.take start ++ a, mid, by rw [hsplit, htake, List.append_assoc], ?_, hmid, hhead⟩
    -- the data reaches behind `start`: there is a byte there
    have hlen := congrArg List.length htake
    simp only [List.length_take, List.length_drop, List.length_append, List.length_cons] at hlen
    rw [List.length_append, List.length_take]
    omega

theorem namesApart_drop (data : Bytes) (start : Nat) : NamesApart data start ↔ NamesApart (data.drop start) 0 := by
  simp only [NamesApart, List.drop_drop]
  constructor
  · intro h q _ hq hfirst
    rw [← inName_drop]
    refine h _ (Nat.le_add_right _ _) hq fun p hp hlt => ?_
    obtain ⟨k, rfl⟩ := Nat.exists_eq_add_of_le hp
    exact hfirst k (Nat.zero_le _) (Nat.lt_of_add_lt_add_left hlt)
  · intro h q hq hnames hfirst
    obtain ⟨k, rfl⟩ := Nat.exists_eq_add_of_le hq
    rw [inName_drop]
    exact h k (Nat.zero_le _) hnames fun p _ hlt => hfirst _ (Nat.le_add_right _ _) (Nat.add_lt_add_left hlt _)

/-- **The scanner is sound and complete exactly where the names stand apart.** -/
theorem findNotificationStartTag_exact_iff (data : Bytes) (start : Nat) :
    ScansExactly data start ↔ NamesApart data start := by
  rw [scansExactly_iff, scan_eq_firstStartTag_iff]
  exact (namesApart_drop data start).symm

/-- A start tag behind a fragment that was cut off inside another tag's name is not found. -/
theorem cutFragment_hides_tag : ¬ ScansExactly (ascii "<ab<notification>") 0 := by
  rintro ⟨-, hnone⟩
  have hscan : findNotificationStartTag (ascii "<ab<notification>") 0 = none := by decide
  have htag : StartTag ((ascii "<ab<notification>").drop 3) := by decide
  exact hnone.1 hscan 3 (Nat.zero_le _) htag

/-- With a prefix to the name, the fragment itself is taken for the tag. -/
example : findNotificationStartTag (ascii "<p<q:notification>") 0 = some 0 ∧
    ¬ StartTag (ascii "<p<q:notification>") := by decide

end PyNetX
