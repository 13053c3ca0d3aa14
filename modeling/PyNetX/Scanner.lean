import PyNetX.Bytes
/-!
# Scanner — the byte scanners the notification parser decides with

`findNotificationStartTag`, `benignNotificationPrefix` and `notificationEndAfterStart` as the source computes them.
The start-tag scanner reads a name up to a space, `>`, `/` or the end of the data, so the end of the data can cut a
longer name down to `notification`: what follows is what a scan keeps when more bytes arrive (`scan_sync`), and what
the marker does to a scan (`scan_append_eom`).
-/
namespace PyNetX

open Search (find)

/-- The bytes `notification`. -/
def notificationName : Bytes := [0x6e, 0x6f, 0x74, 0x69, 0x66, 0x69, 0x63, 0x61, 0x74, 0x69, 0x6f, 0x6e]

example : notificationName = ascii "notification" := by decide

/-- `xml_local_name`: the part of a name after its last `:`. -/
def xmlLocalName (value : Bytes) : Bytes := value.rtakeWhile (· != chColon)

/-- A byte the name loops run over: not a space, `>` or `/`. -/
def isNameByte (c : UInt8) : Bool := !(isSpace c || c == chGt || c == chSlash)

/-- `find_notification_start_tag` on the bytes from `pos` on, its result counted from `pos`.  The first argument of
`go` bounds the turns of the `while`. -/
def scan (s : Bytes) : Option Nat := go s.length s
where
  go : Nat → Bytes → Option Nat
    | 0, _ => none
    | _ + 1, [] => none
    | n + 1, c :: rest =>
      if c ≠ chLt then (go n rest).map (· + 1)
      else
        match rest with
        | [] => none
        | next :: _ =>
          if next == chSlash || next == chBang || next == chQuestion then (go n rest).map (· + 1)
          else
            let qname := rest.takeWhile isNameByte
            if qname = [] then (go n rest).map (· + 1)
            else if xmlLocalName qname = notificationName then some 0
            else (go n (rest.drop qname.length)).map (· + (qname.length + 1))

/-- `find_notification_start_tag`; `none` is `npos`. -/
def findNotificationStartTag (data : Bytes) (start : Nat) : Option Nat := (scan (data.drop start)).map (· + start)

/-- `<?xml`. -/
def xmlDecl : Bytes := [chLt, chQuestion, 0x78, 0x6d, 0x6c]

/-- `?>`. -/
def xmlDeclEnd : Bytes := [chQuestion, chGt]

def benignNotificationPrefix (pre : Bytes) : Bool :=
  let trimmed := trimCopy pre
  if trimmed = [] then true
  else if xmlDecl.isPrefixOf trimmed then
    match find xmlDeclEnd trimmed with
    | some endDecl => decide (trimCopy (trimmed.drop (endDecl + 2)) = [])
    | none => false
  else false

/-- `"</" + qname + ">"`. -/
def closeTag (qname : Bytes) : Bytes := chLt :: chSlash :: (qname ++ [chGt])

/-- `notification_end_after_start`: the offset just after the first close tag of the name that starts after `start`;
`none` is `false`. -/
def notificationEndAfterStart (data : Bytes) (start : Nat) : Option Nat :=
  if data.length ≤ start + 1 then none
  else
    let qname := (data.drop (start + 1)).takeWhile isNameByte
    if qname = [] then none
    else
      let nameEnd := start + 1 + qname.length
      (find (closeTag qname) (data.drop nameEnd)).map (fun k => nameEnd + k + (closeTag qname).length)

example : findNotificationStartTag (ascii "<a><nc:notification>") 0 = some 3 := by decide
example : findNotificationStartTag (ascii "<a><notification") 0 = some 3 := by decide
example : findNotificationStartTag (ascii "<a><notificationId>") 0 = none := by decide

/-! ## One turn of the scan -/

/-- The name the scanner reads behind a `<`; empty where it reads none. -/
def tagName (rest : Bytes) : Bytes :=
  match rest with
  | [] => []
  | next :: _ =>
    if next == chSlash || next == chBang || next == chQuestion then [] else rest.takeWhile isNameByte

theorem scan_go_cons (n : Nat) (c : UInt8) (rest : Bytes) : scan.go (n + 1) (c :: rest) =
    if c ≠ chLt ∨ (tagName rest = [] ∧ rest ≠ []) then (scan.go n rest).map (· + 1)
    else if rest = [] then none
    else if xmlLocalName (tagName rest) = notificationName then some 0
    else (scan.go n (rest.drop (tagName rest).length)).map (· + ((tagName rest).length + 1)) := by
  by_cases hc : c = chLt
  · subst hc
    cases rest with
    | nil => simp [scan.go, tagName]
    | cons next t =>
      simp only [scan.go, tagName]
      by_cases hm : (next == chSlash || next == chBang || next == chQuestion) = true
      · simp [hm]
      · by_cases hq : (next :: t).takeWhile isNameByte = []
        · simp [hm, hq]
        · simp [hm, hq]
  · simp [scan.go, hc]

theorem tagName_length_le (rest : Bytes) : (tagName rest).length ≤ rest.length := by
  cases rest with
  | nil => exact Nat.le_refl _
  | cons next t =>
    simp only [tagName]
    split
    · exact Nat.zero_le _
    · exact ( List.takeWhile_prefix isNameByte).length_le

theorem scan_go_stable : ∀ (n m : Nat) (s : Bytes), s.length ≤ n → s.length ≤ m → scan.go n s = scan.go m s
  | 0, 0, _, _, _ => rfl
  | 0, m + 1, [], _, _ => rfl
  | n + 1, 0, [], _, _ => rfl
  | n + 1, m + 1, [], _, _ => rfl
  | n + 1, m + 1, c :: rest, hn, hm => by
    simp only [List.length_cons, Nat.add_le_add_iff_right] at hn hm
    have hd : (rest.drop (tagName rest).length).length ≤ rest.length := by
      rw [List.length_drop]
      omega
    rw [scan_go_cons, scan_go_cons, scan_go_stable n m rest hn hm,
      scan_go_stable n m _ (Nat.le_trans hd hn) (Nat.le_trans hd hm)]

theorem scan_cons (c : UInt8) (rest : Bytes) : scan (c :: rest) =
    if c ≠ chLt ∨ tagName rest = [] then (scan rest).map (· + 1)
    else if xmlLocalName (tagName rest) = notificationName then some 0
    else (scan (rest.drop (tagName rest).length)).map (· + ((tagName rest).length + 1)) := by
  have hd : (rest.drop (tagName rest).length).length ≤ rest.length := by
    rw [List.length_drop]
    omega
  unfold scan
  rw [List.length_cons, scan_go_cons, scan_go_stable rest.length _ (rest.drop (tagName rest).length) hd (Nat.le_refl _)]
  cases rest with
  | nil => by_cases hc : c = chLt <;> simp [hc, tagName, scan.go]
  | cons next t => simp

theorem scan_skip {c : UInt8} (hc : c ≠ chLt) (rest : Bytes) : scan (c :: rest) = (scan rest).map (· + 1) := by
  rw [scan_cons, if_pos (Or.inl hc)]

theorem scan_bare {rest : Bytes} (h : tagName rest = []) : scan (chLt :: rest) = (scan rest).map (· + 1) := by
  rw [scan_cons, if_pos (Or.inr h)]

theorem scan_tag {rest : Bytes} (h : tagName rest ≠ []) (hl : xmlLocalName (tagName rest) = notificationName) :
    scan (chLt :: rest) = some 0 := by
  rw [scan_cons, if_neg (by simp [h]), if_pos hl]

theorem scan_other {rest : Bytes} (h : tagName rest ≠ []) (hl : xmlLocalName (tagName rest) ≠ notificationName) :
    scan (chLt :: rest) = (scan (rest.drop (tagName rest).length)).map (· + ((tagName rest).length + 1)) := by
  rw [scan_cons, if_neg (by simp [h]), if_neg hl]

theorem scan_induction {C : Bytes → Prop} (nil : C []) (skip : ∀ c rest, c ≠ chLt → C rest → C (c :: rest))
    (bare : ∀ rest, tagName rest = [] → C rest → C (chLt :: rest))
    (tag : ∀ rest, tagName rest ≠ [] → xmlLocalName (tagName rest) = notificationName → C (chLt :: rest))
    (other : ∀ rest, tagName rest ≠ [] → xmlLocalName (tagName rest) ≠ notificationName →
      C (rest.drop (tagName rest).length) → C (chLt :: rest)) (s : Bytes) : C s := by
  generalize hn : s.length = n
  induction n using Nat.strongRecOn generalizing s with
  | _ n ih =>
    cases s with
    | nil => exact nil
    | cons c rest =>
      rw [List.length_cons] at hn
      by_cases hc : c = chLt
      · subst hc
        by_cases hb : tagName rest = []
        · exact bare rest hb (ih _ (by omega) rest rfl)
        · by_cases hl : xmlLocalName (tagName rest) = notificationName
          · exact tag rest hb hl
          · exact other rest hb hl (ih _ (by rw [List.length_drop]; omega) _ rfl)
      · exact skip c rest hc (ih _ (by omega) rest rfl)

/-- A notification start tag stands at the front of `t`. -/
def StartsTag (t : Bytes) : Prop :=
  ∃ rest, t = chLt :: rest ∧ tagName rest ≠ [] ∧ xmlLocalName (tagName rest) = notificationName

theorem scan_eq_some {s : Bytes} : ∀ {k : Nat}, scan s = some k → StartsTag (s.drop k) := by
  induction s using scan_induction with
  | nil => intro k h; cases h
  | skip c rest hc ih =>
    intro k h
    rw [scan_skip hc, Option.map_eq_some_iff] at h
    obtain ⟨j, hj, rfl⟩ := h
    exact ih hj
  | bare rest hb ih =>
    intro k h
    rw [scan_bare hb, Option.map_eq_some_iff] at h
    obtain ⟨j, hj, rfl⟩ := h
    exact ih hj
  | tag rest hb hl =>
    intro k h
    rw [scan_tag hb hl] at h
    cases h
    exact ⟨rest, rfl, hb, hl⟩
  | other rest hb hl ih =>
    intro k h
    rw [scan_other hb hl, Option.map_eq_some_iff] at h
    obtain ⟨j, hj, rfl⟩ := h
    have := ih hj
    rw [List.drop_drop, Nat.add_comm] at this
    exact this

theorem findNotificationStartTag_zero (data : Bytes) : findNotificationStartTag data 0 = scan data := by
  unfold findNotificationStartTag
  simp

theorem findNotificationStartTag_eq_some {data : Bytes} {start k : Nat} (h : findNotificationStartTag data start = some k) :
    start ≤ k ∧ StartsTag (data.drop k) := by
  obtain ⟨j, hj, rfl⟩ := Option.map_eq_some_iff.1 h
  have := scan_eq_some hj
  rw [List.drop_drop, Nat.add_comm] at this
  exact ⟨Nat.le_add_left _ _, this⟩

theorem StartsTag.bytes {t : Bytes} (h : StartsTag t) :
    ∃ next rest, t = chLt :: next :: rest ∧ next ≠ chSlash ∧ next ≠ chBang ∧ next ≠ chQuestion := by
  obtain ⟨rest, rfl, hb, -⟩ := h
  cases rest with
  | nil => exact absurd rfl hb
  | cons next t =>
    refine ⟨next, t, rfl, ?_⟩
    by_contra hn
    apply hb
    simp only [tagName]
    rw [if_pos]
    simp only [Bool.or_eq_true, beq_iff_eq]
    tauto

/-! ## When more bytes arrive -/

theorem tagName_append {d : UInt8} (hd : isNameByte d = false) (a b : Bytes) : tagName (a ++ d :: b) = tagName a := by
  cases a with
  | nil =>
    simp only [List.nil_append, tagName, List.takeWhile_cons, hd]
    split <;> rfl
  | cons next t =>
    have htake : (next :: (t ++ d :: b)).takeWhile isNameByte = (next :: t).takeWhile isNameByte := by
      rw [← List.cons_append, List.takeWhile_append]
      split
      · rename_i hall
        rw [List.takeWhile_cons_of_neg (by simp [hd]), List.append_nil]
        exact (( List.takeWhile_prefix isNameByte).eq_of_length hall).symm
      · rfl
    simp only [List.cons_append, tagName, htake]

theorem tagName_eq {rest : Bytes} (h : tagName rest ≠ []) : tagName rest = rest.takeWhile isNameByte := by
  cases rest with
  | nil => rfl
  | cons next t =>
    simp only [tagName] at h ⊢
    split at h
    · exact absurd rfl h
    · rename_i hm
      rw [if_neg hm]

/-- **Where a name stops**: at the end of the data, or in front of a byte that ends names. -/
theorem tagName_split {rest : Bytes} (h : tagName rest ≠ []) :
    (∀ c ∈ rest, isNameByte c = true) ∧ tagName rest = rest ∨
      ∃ d r, isNameByte d = false ∧ rest = tagName rest ++ d :: r := by
  rw [tagName_eq h]
  cases hr : rest.dropWhile isNameByte with
  | nil =>
    have hall : ∀ c ∈ rest, isNameByte c = true := List.dropWhile_eq_nil_iff.1 hr
    exact Or.inl ⟨hall, List.takeWhile_eq_self_iff.2 hall⟩
  | cons d r =>
    refine Or.inr ⟨d, r, ?_, ?_⟩
    · have hhead := List.head_dropWhile_not isNameByte (l := rest) (by rw [hr]; exact List.cons_ne_nil d r)
      simpa only [hr, List.head_cons] using hhead
    · rw [← hr, List.takeWhile_append_dropWhile]

theorem tagName_self {rest r : Bytes} {d : UInt8} (hd : isNameByte d = false) (hr : rest = tagName rest ++ d :: r) :
    tagName (tagName rest) = tagName rest := by
  have := tagName_append hd (tagName rest) r
  rw [← hr] at this
  exact this.symm

/-- Whether a name is read depends on the byte behind the `<` alone. -/
theorem tagName_cons_eq_nil {next : UInt8} {t : Bytes} (h : tagName (next :: t) = []) (t' : Bytes) :
    tagName (next :: t') = [] := by
  simp only [tagName] at h ⊢
  by_cases hm : (next == chSlash || next == chBang || next == chQuestion) = true
  · rw [if_pos hm]
  · rw [if_neg hm, List.takeWhile_cons] at h ⊢
    by_cases hn : isNameByte next = true
    · rw [if_pos hn] at h
      cases h
    · rw [if_neg hn]

theorem tagName_extend {rest : Bytes} (h : tagName rest ≠ []) (hall : ∀ c ∈ rest, isNameByte c = true) (y : Bytes) :
    tagName (rest ++ y) = rest ++ y.takeWhile isNameByte := by
  cases rest with
  | nil => exact absurd rfl h
  | cons next t =>
    simp only [List.cons_append, tagName] at h ⊢
    split at h
    · exact absurd rfl h
    · rename_i hm
      rw [if_neg hm, ← List.cons_append, List.takeWhile_append_of_pos hall]
      rfl

theorem xmlLocalName_concat_ne {c : UInt8} (hc : c ≠ chColon) (hn : c ≠ 0x6e) (q : Bytes) :
    xmlLocalName (q ++ [c]) ≠ notificationName := by
  unfold xmlLocalName
  rw [List.rtakeWhile_concat_pos _ _ _ (by simpa using hc)]
  intro h
  have hlast := congrArg List.getLast? h
  rw [List.getLast?_concat] at hlast
  exact hn (Option.some.inj hlast)

theorem ne_chLt_of_not_isNameByte {d : UInt8} (hd : isNameByte d = false) : d ≠ chLt := by
  rintro rfl
  revert hd
  decide

/-- **A byte that ends names splits the scan**: the first tag in front of it, or else the first one behind it. -/
theorem scan_sync {d : UInt8} (hd : isNameByte d = false) (a b : Bytes) :
    scan (a ++ d :: b) = (scan (a ++ [d])).or ((scan b).map (· + (a.length + 1))) := by
  have hlt := ne_chLt_of_not_isNameByte hd
  induction a using scan_induction with
  | nil => rw [List.nil_append, List.nil_append, scan_skip hlt, scan_skip hlt]; rfl
  | skip c rest hc ih =>
    rw [List.cons_append, List.cons_append, scan_skip hc, scan_skip hc, ih]
    cases scan (rest ++ [d]) <;> simp [Function.comp_def, Nat.add_assoc]
  | bare rest hb ih =>
    rw [List.cons_append, List.cons_append, scan_bare (by rw [tagName_append hd, hb]),
      scan_bare (by rw [tagName_append hd, hb]), ih]
    cases scan (rest ++ [d]) <;> simp [Function.comp_def, Nat.add_assoc]
  | tag rest hb hl =>
    rw [List.cons_append, List.cons_append, scan_tag (by rwa [tagName_append hd]) (by rwa [tagName_append hd]),
      scan_tag (by rwa [tagName_append hd]) (by rwa [tagName_append hd])]
    rfl
  | other rest hb hl ih =>
    have hle := tagName_length_le rest
    have hdrop : ∀ x, (rest ++ d :: x).drop (tagName rest).length = rest.drop (tagName rest).length ++ d :: x :=
      fun x => List.drop_append_of_le_length hle
    rw [List.cons_append, List.cons_append, scan_other (by rwa [tagName_append hd]) (by rwa [tagName_append hd]),
      scan_other (by rwa [tagName_append hd]) (by rwa [tagName_append hd]), tagName_append hd, tagName_append hd,
      hdrop, hdrop, ih, List.length_drop, List.length_cons]
    have hn : rest.length - (tagName rest).length + 1 + ((tagName rest).length + 1) = rest.length + 1 + 1 := by omega
    cases scan (rest.drop (tagName rest).length ++ [d]) with
    | some k => rfl
    | none => simp [Function.comp_def, Nat.add_assoc, ← hn]

/-- The brackets of a marker can only lengthen a name, and not to `notification`. -/
theorem scan_append_brackets {p : Bytes} (hp : scan p = none) : scan (p ++ [chBracket, chBracket, chGt]) = none := by
  induction p using scan_induction with
  | nil => decide
  | skip c rest hc ih =>
    rw [scan_skip hc, Option.map_eq_none_iff] at hp
    rw [List.cons_append, scan_skip hc, ih hp]
    rfl
  | bare rest hb ih =>
    rw [scan_bare hb, Option.map_eq_none_iff] at hp
    cases rest with
    | nil => decide
    | cons next t =>
      have hb' : tagName (next :: t ++ [chBracket, chBracket, chGt]) = [] := tagName_cons_eq_nil hb _
      rw [List.cons_append, scan_bare hb', ih hp]
      rfl
  | tag rest hb hl => rw [scan_tag hb hl] at hp; cases hp
  | other rest hb hl ih =>
    rw [scan_other hb hl, Option.map_eq_none_iff] at hp
    rcases tagName_split hb with ⟨hall, -⟩ | ⟨d, r, hd, hr⟩
    · -- the name runs to the end of the data, and the brackets are part of it
      have hname : tagName (rest ++ [chBracket, chBracket, chGt]) = rest ++ [chBracket] ++ [chBracket] := by
        rw [tagName_extend hb hall, List.append_assoc]
        rfl
      have hdrop : (rest ++ [chBracket, chBracket, chGt]).drop (rest ++ [chBracket] ++ [chBracket]).length = [chGt] := by
        rw [show rest ++ [chBracket, chBracket, chGt] = rest ++ [chBracket] ++ [chBracket] ++ [chGt] by simp,
          List.drop_left]
      rw [List.cons_append, scan_other (by rw [hname]; simp)
        (by rw [hname]; exact xmlLocalName_concat_ne (by decide) (by decide) _), hname, hdrop]
      rfl
    · have hwhole (x : Bytes) : rest ++ x = tagName rest ++ d :: (r ++ x) := by
        conv => lhs; rw [hr]
        rw [List.append_assoc, List.cons_append]
      have hname (x : Bytes) : tagName (rest ++ x) = tagName rest := by
        rw [hwhole, tagName_append hd, tagName_self hd hr]
      have hdrop (x : Bytes) : (rest ++ x).drop (tagName rest).length = d :: (r ++ x) := by
        rw [hwhole, List.drop_left]
      have hrest := hdrop []
      rw [List.append_nil, List.append_nil] at hrest
      rw [hrest] at ih hp
      rw [List.cons_append, scan_other (by rwa [hname]) (by rwa [hname]), hname, hdrop, ← List.cons_append, ih hp]
      rfl

/-- **The marker ends no name that was not ended already**: it adds no start tag, and the scan goes on behind it. -/
theorem scan_append_eom {p : Bytes} (hp : scan p = none) (y : Bytes) :
    scan (p ++ eom ++ y) = (scan y).map (· + (p.length + eomLen)) := by
  -- the marker's first `>` is the byte to split at
  have hgt : isNameByte chGt = false := by decide
  have hfront : scan (p ++ [chBracket, chBracket] ++ [chGt]) = none := by
    rw [List.append_assoc]
    exact scan_append_brackets hp
  have hsplit : p ++ eom ++ y = (p ++ [chBracket, chBracket]) ++ chGt :: (chBracket :: chBracket :: chGt :: y) := by
    simp [eom]
  rw [hsplit, scan_sync hgt, hfront, scan_skip (by decide), scan_skip (by decide), scan_skip (by decide)]
  simp only [Option.none_or, Option.map_map]
  congr 1
  funext k
  simp only [Function.comp_apply, List.length_append, List.length_cons, List.length_nil, eomLen]
  omega

theorem scan_append_of_not_mem {b : Bytes} (hb : chLt ∉ b) (y : Bytes) :
    scan (b ++ y) = (scan y).map (· + b.length) := by
  induction b with
  | nil => simp
  | cons c b ih =>
    have hc : c ≠ chLt := fun h => hb (by rw [h]; exact List.mem_cons_self)
    rw [List.cons_append, scan_skip hc, ih (fun h => hb (List.mem_cons_of_mem c h)), Option.map_map]
    rfl

/-- **The front of a start tag is no other start tag**: in any first part of what a whole start tag opens, the scan
finds nothing or that tag. -/
theorem scan_of_front {rest v : Bytes} (hb : tagName rest ≠ []) (hl : xmlLocalName (tagName rest) = notificationName)
    (hend : tagName rest ≠ rest) (hv : v <+: chLt :: rest) : scan v = none ∨ scan v = some 0 := by
  obtain ⟨-, hall⟩ | ⟨d, r, hd, hr⟩ := tagName_split hb
  · exact absurd hall hend
  have hself := tagName_self hd hr
  cases v with
  | nil => exact Or.inl rfl
  | cons c v =>
    obtain ⟨rfl, hvr⟩ := List.cons_prefix_cons.1 hv
    by_cases hlen : v.length ≤ (tagName rest).length
    · -- the data ends inside the name
      obtain ⟨x, hx⟩ : v <+: tagName rest :=
        List.prefix_of_prefix_length_le hvr ⟨d :: r, hr.symm⟩ hlen
      by_cases hvb : tagName v = []
      · cases v with
        | nil => exact Or.inl rfl
        | cons next t =>
          rw [← hx, List.cons_append, tagName_cons_eq_nil hvb] at hself
          cases hself
      · have hname : tagName v = v := by
          obtain ⟨-, hall⟩ | ⟨d', r', hd', hr'⟩ := tagName_split hvb
          · exact hall
          · exfalso
            rw [← hx, hr', List.append_assoc, List.cons_append, tagName_append hd'] at hself
            have hlen' := congrArg List.length hself
            have hle := tagName_length_le (tagName v)
            simp only [List.length_append, List.length_cons] at hlen'
            omega
        by_cases hvl : xmlLocalName (tagName v) = notificationName
        · exact Or.inr (scan_tag hvb hvl)
        · refine Or.inl ?_
          rw [scan_other hvb hvl, hname, List.drop_length]
          rfl
    · obtain ⟨x, rfl⟩ : tagName rest ++ [d] <+: v := by
        refine List.prefix_of_prefix_length_le ⟨r, ?_⟩ hvr (by rw [List.length_append]; exact Nat.lt_of_not_le hlen)
        rw [List.append_assoc]
        exact hr.symm
      rw [List.append_assoc, List.singleton_append]
      exact Or.inr (scan_tag (by rw [tagName_append hd, hself]; exact hb) (by rw [tagName_append hd, hself]; exact hl))

/-! ## The same, by offsets -/

theorem findNotificationStartTag_shift (h v : Bytes) (k : Nat) : findNotificationStartTag (h ++ v) (h.length + k) =
    (findNotificationStartTag v k).map (· + h.length) := by
  unfold findNotificationStartTag
  rw [← List.drop_drop, List.drop_left, Option.map_map]
  congr 1
  funext j
  simp only [Function.comp_apply]
  omega

theorem findNotificationStartTag_sync {d : UInt8} (hd : isNameByte d = false) (a b : Bytes) {start : Nat}
    (hs : start ≤ a.length) : findNotificationStartTag (a ++ d :: b) start =
      (findNotificationStartTag (a ++ [d]) start).or (findNotificationStartTag (a ++ d :: b) (a.length + 1)) := by
  have hlen : (a.drop start).length + 1 + start = a.length + 1 := by
    rw [List.length_drop]
    omega
  have hb : (a ++ d :: b).drop (a.length + 1) = b := by
    rw [← List.drop_drop, List.drop_left]
    rfl
  unfold findNotificationStartTag
  rw [hb, List.drop_append_of_le_length hs, List.drop_append_of_le_length hs, scan_sync hd]
  cases scan (a.drop start ++ [d]) with
  | some k => rfl
  | none => simp [Function.comp_def, Nat.add_assoc, ← hlen]

theorem findNotificationStartTag_of_front {d : UInt8} (hd : isNameByte d = false) {p a b : Bytes} {start : Nat}
    (hv : a ++ d :: b <+: p) (hs : start ≤ a.length) (hp : findNotificationStartTag p start = none) :
    findNotificationStartTag (a ++ d :: b) start = findNotificationStartTag (a ++ d :: b) (a.length + 1) := by
  obtain ⟨x, rfl⟩ := hv
  rw [List.append_assoc, List.cons_append, findNotificationStartTag_sync hd a _ hs, Option.or_eq_none_iff] at hp
  rw [findNotificationStartTag_sync hd a _ hs, hp.1, Option.none_or]

theorem findNotificationStartTag_append_eom {p : Bytes} {start : Nat} (hs : start ≤ p.length)
    (hp : findNotificationStartTag p start = none) (y : Bytes) :
    findNotificationStartTag (p ++ eom ++ y) start = (scan y).map (· + (p.length + eomLen)) := by
  have hscan : scan (p.drop start) = none := Option.map_eq_none_iff.1 hp
  have hlen : (p.drop start).length + eomLen + start = p.length + eomLen := by
    rw [List.length_drop]
    omega
  unfold findNotificationStartTag
  rw [List.append_assoc, List.drop_append_of_le_length hs, ← List.append_assoc, scan_append_eom hscan, Option.map_map]
  congr 1
  funext k
  simp only [Function.comp_apply]
  omega

/-- **Data that ends outside every tag can be scanned on its own.** -/
theorem findNotificationStartTag_append_closed {a b : Bytes} (hb : chLt ∉ b) {start : Nat} (hs : start ≤ a.length)
    (v : Bytes) : findNotificationStartTag (a ++ chGt :: b ++ v) start =
      (findNotificationStartTag (a ++ chGt :: b) start).or ((scan v).map (· + (a ++ chGt :: b).length)) := by
  have hgt : isNameByte chGt = false := by decide
  have hafter : ∀ y, findNotificationStartTag (a ++ chGt :: y) (a.length + 1) =
      (scan y).map (· + (a.length + 1)) := by
    intro y
    unfold findNotificationStartTag
    rw [← List.drop_drop, List.drop_left]
    rfl
  have hnone : scan b = none := by
    have := scan_append_of_not_mem hb []
    rwa [List.append_nil] at this
  rw [List.append_assoc, List.cons_append, findNotificationStartTag_sync hgt a (b ++ v) hs,
    findNotificationStartTag_sync hgt a b hs, hafter, hafter, hnone, scan_append_of_not_mem hb, Option.map_none,
    Option.or_none, Option.map_map]
  congr 2
  funext k
  simp only [Function.comp_apply, List.length_append, List.length_cons]
  omega

/-! ## The close tag -/

theorem notificationEndAfterStart_eq_some {v : Bytes} {s e : Nat} (h : notificationEndAfterStart v s = some e) :
    ∃ a b, v = a ++ chGt :: b ∧ a.length + 1 = e ∧ s < a.length := by
  unfold notificationEndAfterStart at h
  split at h
  · cases h
  rename_i hlen
  simp only at h
  split at h
  · cases h
  obtain ⟨k, hk, rfl⟩ := Option.map_eq_some_iff.1 h
  generalize hq : (v.drop (s + 1)).takeWhile isNameByte = q at hk ⊢
  have hsplit := Search.find_split hk
  have hle := Search.find_le hk
  rw [List.length_drop] at hle
  refine ⟨v.take (s + 1 + q.length) ++ ((v.drop (s + 1 + q.length)).take k ++ (chLt :: chSlash :: q)),
    (v.drop (s + 1 + q.length)).drop (k + (closeTag q).length), ?_, ?_, ?_⟩
  · conv => lhs; rw [← List.take_append_drop (s + 1 + q.length) v]; arg 2; rw [hsplit]
    simp [closeTag]
  · simp only [List.length_append, List.length_take, List.length_drop, List.length_cons, closeTag, List.length_nil]
      at hle ⊢
    omega
  · simp only [List.length_append, List.length_take, List.length_drop, List.length_cons, closeTag, List.length_nil]
      at hle ⊢
    omega

/-- **A close tag, once there, stays the first one.** -/
theorem notificationEndAfterStart_append {v : Bytes} {s e : Nat} (h : notificationEndAfterStart v s = some e)
    (x : Bytes) : notificationEndAfterStart (v ++ x) s = some e := by
  unfold notificationEndAfterStart at h ⊢
  split at h
  · cases h
  rename_i hlen
  simp only at h
  split at h
  · cases h
  rename_i hne
  obtain ⟨k, hk, rfl⟩ := Option.map_eq_some_iff.1 h
  have hdrop : (v ++ x).drop (s + 1) = v.drop (s + 1) ++ x := List.drop_append_of_le_length (by omega)
  -- the close tag stands behind the name, so the name ended inside `v`
  have hq : ((v ++ x).drop (s + 1)).takeWhile isNameByte = (v.drop (s + 1)).takeWhile isNameByte := by
    rw [hdrop, List.takeWhile_append, if_neg]
    intro hall
    have hle := Search.find_le hk
    rw [List.length_drop, hall, List.length_drop] at hle
    simp only [closeTag, List.length_cons, List.length_append, List.length_nil] at hle
    omega
  have hlen' : ¬ (v ++ x).length ≤ s + 1 := by
    rw [List.length_append]
    omega
  have hle : s + 1 + ((v.drop (s + 1)).takeWhile isNameByte).length ≤ v.length := by
    have := ( List.takeWhile_prefix isNameByte (l := v.drop (s + 1))).length_le
    rw [List.length_drop] at this
    omega
  rw [if_neg hlen']
  simp only
  rw [hq, if_neg hne, List.drop_append_of_le_length hle, Search.find_append x hk]
  rfl

theorem notificationEndAfterStart_of_append {v x : Bytes} {s e : Nat}
    (h : notificationEndAfterStart (v ++ x) s = some e) (he : e ≤ v.length) :
    notificationEndAfterStart v s = some e := by
  unfold notificationEndAfterStart at h ⊢
  split at h
  · cases h
  simp only at h
  split at h
  · cases h
  rename_i hne
  obtain ⟨k, hk, hke⟩ := Option.map_eq_some_iff.1 h
  generalize hq : ((v ++ x).drop (s + 1)).takeWhile isNameByte = q at hk hke hne
  have hclose : (closeTag q).length = q.length + 3 := by simp [closeTag]
  have hdrop : (v ++ x).drop (s + 1) = v.drop (s + 1) ++ x := List.drop_append_of_le_length (by omega)
  have hqv : (v.drop (s + 1)).takeWhile isNameByte = q := by
    rw [hdrop, List.takeWhile_append] at hq
    split at hq
    · rename_i hall
      have hlen := congrArg List.length hq
      rw [List.length_append, List.length_drop] at hlen
      omega
    · exact hq
  rw [if_neg (by omega)]
  simp only
  rw [hqv, if_neg hne]
  rw [List.drop_append_of_le_length (by omega)] at hk
  rw [Search.find_of_append hk (by rw [List.length_drop]; omega), ← hke]
  rfl

/-! ## The benign prefix -/

/-- **What a benign prefix is**: spaces, or one declaration closed in front of spaces. -/
theorem benignNotificationPrefix_iff (pre : Bytes) : benignNotificationPrefix pre = true ↔
    Blank pre ∨ xmlDecl <+: trimCopy pre ∧
      ∃ k, find xmlDeclEnd (trimCopy pre) = some k ∧ Blank ((trimCopy pre).drop (k + 2)) := by
  unfold benignNotificationPrefix
  simp only
  by_cases hblank : trimCopy pre = []
  · simp [hblank, (trimCopy_eq_nil_iff pre).1 hblank]
  · have hnb : ¬ Blank pre := fun h => hblank ((trimCopy_eq_nil_iff pre).2 h)
    rw [if_neg hblank]
    by_cases hdecl : xmlDecl <+: trimCopy pre
    · rw [if_pos (List.isPrefixOf_iff_prefix.2 hdecl)]
      cases hk : find xmlDeclEnd (trimCopy pre) with
      | none => simp [hnb]
      | some k => simp [hnb, hdecl, trimCopy_eq_nil_iff]
    · rw [if_neg (fun h => hdecl (List.isPrefixOf_iff_prefix.1 h))]
      simp [hnb, hdecl]

theorem benign_append_eom (x : Bytes) : benignNotificationPrefix (x ++ eom) = false := by
  have hblank : ∀ y : Bytes, ¬ Blank (y ++ eom) := fun y h => absurd (blank_append.1 h).2 (by decide)
  have htrim : trimCopy (x ++ eom) = x.dropWhile isSpace ++ eom := by
    rw [eom, trimCopy_append_cons x _ (by decide)]
    rfl
  rw [← Bool.not_eq_true, benignNotificationPrefix_iff, htrim]
  rintro (h | ⟨-, k, hk, hrest⟩)
  · exact hblank x h
  · -- the declaration ends in front of the marker, which holds no `?>`
    have hfind := Search.find_append_cons (show chBracket ∉ xmlDeclEnd by decide) (x.dropWhile isSpace)
      [chBracket, chGt, chBracket, chBracket, chGt]
    have hnone : find xmlDeclEnd [chBracket, chGt, chBracket, chBracket, chGt] = none := by decide
    rw [hnone, Option.map_none, Option.or_none] at hfind
    rw [eom, hfind] at hk
    have hle : k + 2 ≤ (x.dropWhile isSpace).length := Search.find_le hk
    rw [List.drop_append_of_le_length hle] at hrest
    exact hblank _ hrest

/-- **A `<` behind a benign prefix leaves it benign only if it opens a declaration.** -/
theorem benign_append_lt {a b : Bytes} (ha : benignNotificationPrefix a = true)
    (hab : benignNotificationPrefix (a ++ chLt :: b) = true) : ∃ b', b = chQuestion :: b' := by
  have hlt : isSpace chLt = false := by decide
  have hnb : ∀ y : Bytes, ¬ Blank (y ++ chLt :: b.rdropWhile isSpace) := fun y h => by
    have := h chLt (by simp)
    rw [hlt] at this
    cases this
  rw [benignNotificationPrefix_iff, trimCopy_append_cons a b hlt] at hab
  obtain hab | ⟨hdecl, k, hk, hrest⟩ := hab
  · have := hab chLt (by simp)
    rw [hlt] at this
    cases this
  rw [benignNotificationPrefix_iff] at ha
  obtain hblank | ⟨-, j, hj, -⟩ := ha
  · -- only spaces in front: the `<` is the first byte of `<?xml`
    rw [List.dropWhile_eq_nil_iff.2 hblank, List.nil_append] at hdecl
    obtain ⟨t, ht⟩ := hdecl
    simp only [xmlDecl, List.cons_append, List.cons.injEq, true_and] at ht
    obtain ⟨r, hr⟩ := List.rdropWhile_prefix isSpace b
    exact ⟨_, by rw [← hr, ← ht]; rfl⟩
  · -- a whole declaration in front: behind its `?>` stands the `<`
    exfalso
    obtain ⟨r, hr⟩ : trimCopy a <+: a.dropWhile isSpace := List.rdropWhile_prefix isSpace _
    have hle : j + 2 ≤ (trimCopy a).length := Search.find_le hj
    have hj' := Search.find_append (r ++ chLt :: b.rdropWhile isSpace) hj
    rw [← List.append_assoc, hr, hk] at hj'
    cases hj'
    rw [← hr, List.append_assoc, List.drop_append_of_le_length hle, ← List.append_assoc] at hrest
    exact hnb _ hrest

end PyNetX
