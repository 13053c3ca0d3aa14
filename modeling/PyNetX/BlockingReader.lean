import PyNetX.Transport
/-!
# BlockingReader — where the two readers see the end of a message

`read_until_eom_non_blocking` searches the whole response for the marker.  `read_until_eom_blocking` searches the last
seven bytes with the new chunk behind them, and takes these seven bytes when the chunk is already among them: a
marker can be hidden by this, or forged (`blocking_agrees_iff`).
-/
namespace PyNetX

open Search (find Crosses)

/-- The first chunks that complete a marker behind `before`, and what a reader returns for them. -/
def untilMarker (before : Bytes) : List Bytes → List Bytes × Outcome Bytes
  | [] => ([], none)
  | b :: chunks =>
    if find eom (before ++ b) ≠ none then ([b], some (.ok (before ++ b)))
    else (b :: (untilMarker (before ++ b) chunks).1, (untilMarker (before ++ b) chunks).2)

/-- The reader returned after exactly the first chunks that contain a marker, with these; if none do, it took all and
has not returned. -/
def ReadEnd.StopsAtFirst (chunks : List Bytes) (r : ReadEnd) : Prop :=
  (∀ k, find eom (chunks.take k).flatten ≠ none → (∀ j < k, find eom (chunks.take j).flatten = none) →
    r.reads = chunks.take k ∧ r.outcome = some (.ok (chunks.take k).flatten)) ∧
  (find eom chunks.flatten = none → r.reads = chunks ∧ r.outcome = none)

/-- The chunk shows a marker that it completes: it contains it whole, or the part in front of it is within the seven
bytes. -/
def ShowsMarker (before b : Bytes) : Prop :=
  find eom b ≠ none ∨ ∃ front back, Crosses eom before b front back ∧ front.length + b.length ≤ 7

/-- The chunk, glued to itself, forges a marker: all data ends with the beginning of one, and the chunk begins with its
rest. -/
def ForgesMarker (before b : Bytes) : Prop := ∃ front back, Crosses eom (before ++ b) b front back

/-- Up to the chunk that completes the first marker, no chunk in front of it forges one, and it shows or forges one
itself. -/
def Harmless (before : Bytes) (chunks : List Bytes) : Prop :=
  ∀ pre b post, chunks = pre ++ b :: post → find eom (before ++ pre.flatten) = none →
    if find eom (before ++ pre.flatten ++ b) = none then ¬ ForgesMarker (before ++ pre.flatten) b
    else ShowsMarker (before ++ pre.flatten) b ∨ ForgesMarker (before ++ pre.flatten) b

/-- The blocking reader's reads neither fail nor time out, nor are they empty. -/
def GoesBlocking (readTimeout : Int) (lastDataTime : Nat) : List ReadTurn → Prop
  | [] => True
  | t :: tape => ¬ (0 ≤ readTimeout ∧ seconds readTimeout < t.now - lastDataTime) ∧
    match t.read with
    | .eagain => GoesBlocking readTimeout lastDataTime tape
    | .bytes (_ :: _) => GoesBlocking readTimeout t.lastStamp tape
    | .bytes [] | .failed _ => False

/-- The non-blocking reader's reads neither fail nor time out, nor are they empty; and no limit is reached. -/
def GoesNonBlocking (p : ReadParams) (st : ReadState) : List ReadTurn → Prop
  | [] => True
  | t :: tape => p.guardFires st t.now = false ∧ ¬ (¬ p.infiniteWait ∧ p.deadline st ≤ t.now) ∧
    match t.read with
    | .eagain => waitOrStop p st t = none ∧ GoesNonBlocking p st tape
    | .bytes (b :: bs) => p.sizeReached (st.append t (b :: bs)).response = false ∧
        GoesNonBlocking p (st.append t (b :: bs)) tape
    | .bytes [] | .failed _ => False

/-! ## The first marker -/

theorem untilMarker_none : ∀ (chunks : List Bytes) (before : Bytes), find eom (before ++ chunks.flatten) = none →
    untilMarker before chunks = (chunks, none)
  | [], _, _ => rfl
  | b :: chunks, before, h => by
    rw [List.flatten_cons, ← List.append_assoc] at h
    rw [untilMarker, if_neg (not_not.2 (Search.find_none_of_append_left h)), untilMarker_none chunks (before ++ b) h]

theorem untilMarker_first : ∀ (chunks : List Bytes) (before : Bytes) (k : Nat),
    find eom (before ++ (chunks.take k).flatten) ≠ none →
    (∀ j < k, find eom (before ++ (chunks.take j).flatten) = none) → k ≠ 0 →
    untilMarker before chunks = (chunks.take k, some (.ok (before ++ (chunks.take k).flatten)))
  | chunks, before, 0, _, _, hk => absurd rfl hk
  | [], before, k + 1, h, hfirst, _ => by
    have hzero := hfirst 0 (Nat.succ_pos k)
    rw [List.take_nil] at h hzero
    exact absurd hzero h
  | b :: chunks, before, 1, h, _, _ => by
    have hone : (b :: chunks).take 1 = [b] := by simp
    rw [hone] at h ⊢
    simp only [List.flatten_cons, List.flatten_nil, List.append_nil] at h ⊢
    rw [untilMarker, if_pos h]
  | b :: chunks, before, k + 2, h, hfirst, _ => by
    have hb : find eom (before ++ b) = none := by
      have hone := hfirst 1 (by omega)
      simpa using hone
    rw [List.take_succ_cons, List.flatten_cons, ← List.append_assoc] at h ⊢
    rw [untilMarker, if_neg (not_not.2 hb), untilMarker_first chunks (before ++ b) (k + 1) h (fun j hj => by
      have hnext := hfirst (j + 1) (by omega)
      rwa [List.take_succ_cons, List.flatten_cons, ← List.append_assoc] at hnext) (Nat.succ_ne_zero k)]

/-- **To stop at the first marker is to do what `untilMarker` says.** -/
theorem ReadEnd.stopsAtFirst_iff (chunks : List Bytes) (r : ReadEnd) :
    r.StopsAtFirst chunks ↔ (r.reads, r.outcome) = untilMarker [] chunks := by
  have hzero : find eom (chunks.take 0).flatten = none := Search.find_nil_of_ne_nil eom_ne_nil
  constructor
  · rintro ⟨hfirst, hnone⟩
    by_cases hfind : find eom chunks.flatten = none
    · obtain ⟨hreads, houtcome⟩ := hnone hfind
      rw [untilMarker_none chunks [] hfind, hreads, houtcome]
    · have hex : ∃ k, find eom (chunks.take k).flatten ≠ none := ⟨chunks.length, by rwa [List.take_length]⟩
      classical
      have hmin : ∀ j < Nat.find hex, find eom (chunks.take j).flatten = none :=
        fun j hj => not_not.1 (Nat.find_min hex hj)
      have hpos : Nat.find hex ≠ 0 := fun h0 => Nat.find_spec hex (by rw [h0]; exact hzero)
      obtain ⟨hreads, houtcome⟩ := hfirst _ (Nat.find_spec hex) hmin
      rw [untilMarker_first chunks [] _ (Nat.find_spec hex) hmin hpos, hreads, houtcome]
      rfl
  · intro h
    constructor
    · intro k hk hmin
      rw [untilMarker_first chunks [] k hk hmin (fun h0 => hk (by rw [h0]; exact hzero))] at h
      exact ⟨congrArg Prod.fst h, congrArg Prod.snd h⟩
    · intro hfind
      rw [untilMarker_none chunks [] hfind] at h
      exact ⟨congrArg Prod.fst h, congrArg Prod.snd h⟩

theorem untilMarker_reads {chunks : List Bytes} {before : Bytes} {o : Except Bytes Bytes}
    (h : (untilMarker before chunks).2 = some o) : (untilMarker before chunks).1 ≠ [] := by
  cases chunks with
  | nil => cases h
  | cons b chunks =>
    rw [untilMarker]
    split <;> exact nofun

/-! ## The non-blocking reader -/

/-- **The non-blocking reader stops at the first marker**, when nothing else stops it. -/
theorem readLoop_untilMarker {p : ReadParams} : ∀ (tape : List ReadTurn) (st : ReadState), GoesNonBlocking p st tape →
    ((readLoop p st tape).reads, (readLoop p st tape).outcome) = untilMarker st.response (pieces tape)
  | [], _, _ => rfl
  | t :: tape, st, h => by
    obtain ⟨hguard, htime, hread⟩ := h
    rw [readLoop, if_neg (by simp [hguard]), if_neg htime, pieces_cons]
    split at hread
    · rename_i ht
      simp only [ht, hread.1, ReadTurn.data?, Option.toList_none, List.nil_append]
      exact readLoop_untilMarker tape st hread.2
    · rename_i b bs ht
      obtain ⟨hsize, hgoes⟩ := hread
      have ih := readLoop_untilMarker tape (st.append t (b :: bs)) hgoes
      have hresponse : (st.append t (b :: bs)).response = st.response ++ b :: bs := rfl
      rw [hresponse] at hsize ih
      simp only [ht, ReadTurn.data?, Option.toList_some, List.singleton_append, untilMarker, hsize, hresponse,
        Option.isSome_iff_ne_none, Bool.false_eq_true, or_false]
      by_cases hmark : find eom (st.response ++ b :: bs) = none
      · rw [if_neg (not_not.2 hmark), if_neg (not_not.2 hmark), ← ih]
      · rw [if_pos hmark, if_pos hmark]
    · exact hread.elim
    · exact hread.elim

/-! ## The blocking reader -/

/-- **What the blocking reader's search finds**: the markers the chunk shows, and those it forges. -/
theorem blocking_search_iff {before b : Bytes} (h : find eom before = none) :
    find eom ((before ++ b).drop ((before ++ b).length - 7) ++ b) ≠ none ↔ ShowsMarker before b ∨ ForgesMarker before b := by
  rw [Search.find_window_iff (by decide) h, ShowsMarker, ForgesMarker, or_assoc]

theorem ShowsMarker.find {before b : Bytes} (h : ShowsMarker before b) : find eom (before ++ b) ≠ none := by
  rw [Search.find_append_ne_none_iff]
  rcases h with h | ⟨front, back, h, _⟩
  · exact Or.inr (Or.inl h)
  · exact Or.inr (Or.inr ⟨front, back, h⟩)

theorem harmless_nil (before : Bytes) : Harmless before [] :=
  fun pre b post h => absurd h.symm (List.append_ne_nil_of_right_ne_nil pre (List.cons_ne_nil b post))

theorem harmless_cons {before b : Bytes} {chunks : List Bytes} (h : find eom before = none) :
    Harmless before (b :: chunks) ↔
      (if find eom (before ++ b) = none then ¬ ForgesMarker before b else ShowsMarker before b ∨ ForgesMarker before b) ∧
        Harmless (before ++ b) chunks := by
  constructor
  · intro hall
    constructor
    · simpa using hall [] b chunks rfl (by simpa using h)
    · intro pre c post hchunks hpre
      have hc := hall (b :: pre) c post (by rw [hchunks]; rfl) (by simpa using hpre)
      simpa using hc
  · rintro ⟨hb, hrest⟩ pre c post hchunks hpre
    cases pre with
    | nil =>
      cases hchunks
      simpa using hb
    | cons d pre =>
      cases hchunks
      have hc := hrest pre c post rfl (by simpa using hpre)
      simpa using hc

theorem harmless_of_marked {before : Bytes} (h : find eom before ≠ none) (chunks : List Bytes) : Harmless before chunks :=
  fun _ _ _ _ hpre => absurd (Search.find_none_of_append_left hpre) h

theorem readLoopBlocking_reads {readTimeout : Int} : ∀ (tape : List ReadTurn) (response : Bytes) (last : Nat),
    GoesBlocking readTimeout last tape → ∀ o, (readLoopBlocking readTimeout response last tape).outcome = some o →
    (readLoopBlocking readTimeout response last tape).reads ≠ []
  | [], _, _, _, _, h => by cases h
  | t :: tape, response, last, hgoes, o, h => by
    obtain ⟨htime, hread⟩ := hgoes
    rw [readLoopBlocking, if_neg htime] at h ⊢
    split at hread
    · rename_i ht
      simp only [ht] at h ⊢
      exact readLoopBlocking_reads tape response last hread o h
    · rename_i b bs ht
      simp only [ht, List.cons_ne_nil, if_false] at h ⊢
      split <;> simp
    · exact hread.elim
    · exact hread.elim

/-- **The blocking reader stops at the first marker exactly when the chunks are harmless.** -/
theorem readLoopBlocking_untilMarker_iff {readTimeout : Int} : ∀ (tape : List ReadTurn) (response : Bytes) (last : Nat),
    GoesBlocking readTimeout last tape → find eom response = none →
    (((readLoopBlocking readTimeout response last tape).reads, (readLoopBlocking readTimeout response last tape).outcome) =
      untilMarker response (pieces tape) ↔ Harmless response (pieces tape))
  | [], response, _, _, _ => ⟨fun _ => harmless_nil response, fun _ => rfl⟩
  | t :: tape, response, last, hgoes, h => by
    obtain ⟨htime, hread⟩ := hgoes
    rw [readLoopBlocking, if_neg htime, pieces_cons]
    split at hread
    · rename_i ht
      simp only [ht, ReadTurn.data?, Option.toList_none, List.nil_append]
      exact readLoopBlocking_untilMarker_iff tape response last hread h
    · rename_i b bs ht
      have ih := readLoopBlocking_untilMarker_iff tape (response ++ b :: bs) t.lastStamp hread
      have hreads := readLoopBlocking_reads tape (response ++ b :: bs) t.lastStamp hread
      have hsearch := Option.isSome_iff_ne_none.trans (blocking_search_iff (b := b :: bs) h)
      simp only [ht, ReadTurn.data?, Option.toList_some, List.singleton_append, harmless_cons h, untilMarker,
        List.cons_ne_nil, if_false]
      by_cases hmark : find eom (response ++ b :: bs) = none
      · -- a chunk that completes no marker: it shows none, and the reader stops if it forges one
        have hshows : ¬ ShowsMarker response (b :: bs) := fun hs => hs.find hmark
        rw [if_pos hmark, if_neg (not_not.2 hmark)]
        by_cases hforges : ForgesMarker response (b :: bs)
        · rw [if_pos (hsearch.2 (Or.inr hforges))]
          constructor
          · intro heq
            simp only [Prod.mk.injEq, List.cons.injEq, true_and] at heq
            exact absurd heq.1.symm (untilMarker_reads heq.2.symm)
          · exact fun hall => absurd hforges hall.1
        · rw [if_neg (fun hs => (hsearch.1 hs).elim hshows hforges), ← ih hmark]
          simp only [Prod.ext_iff, List.cons.injEq, true_and, hforges, not_false_iff]
      · -- the chunk that completes the first marker: the reader stops here if it shows or forges one
        rw [if_neg hmark, if_pos hmark]
        by_cases hstops : ShowsMarker response (b :: bs) ∨ ForgesMarker response (b :: bs)
        · rw [if_pos (hsearch.2 hstops)]
          exact ⟨fun _ => ⟨hstops, harmless_of_marked hmark _⟩, fun _ => rfl⟩
        · rw [if_neg (fun hs => hstops (hsearch.1 hs))]
          constructor
          · intro heq
            simp only [Prod.mk.injEq, List.cons.injEq, true_and] at heq
            exact absurd heq.1 (hreads _ heq.2)
          · exact fun hall => absurd hall.1 hstops
    · exact hread.elim
    · exact hread.elim

/-! ## The two readers -/

theorem readUntilEomBlocking_stopsAtFirst {readTimeout : Int} {startedAt : Nat} {tape : List ReadTurn}
    {chunks : List Bytes} : (readUntilEomBlocking true readTimeout startedAt tape).StopsAtFirst chunks ↔
      (readLoopBlocking readTimeout [] startedAt tape).StopsAtFirst chunks := by
  simp only [ReadEnd.StopsAtFirst, readUntilEomBlocking, not_true, if_false, rethrow_eq_ok, rethrow_eq_none]

theorem readUntilEomNonBlocking_stopsAtFirst {p : ReadParams} {startedAt : Nat} {tape : List ReadTurn}
    {chunks : List Bytes} (hp : p.chan ∧ p.sess) :
    (readUntilEomNonBlocking p startedAt tape).StopsAtFirst chunks ↔
      (readLoop p { lastDataTime := startedAt, firstDataTime := startedAt } tape).StopsAtFirst chunks := by
  simp only [ReadEnd.StopsAtFirst, readUntilEomNonBlocking, hp, and_true, not_true, if_false, rethrow_eq_ok,
    rethrow_eq_none]

theorem ReadEnd.StopsAtFirst.agree {chunks : List Bytes} {r r' : ReadEnd} (h : r.StopsAtFirst chunks)
    (h' : r'.StopsAtFirst chunks) : r.reads = r'.reads ∧ r.outcome = r'.outcome := by
  have heq := ((ReadEnd.stopsAtFirst_iff chunks r).1 h).trans ((ReadEnd.stopsAtFirst_iff chunks r').1 h').symm
  exact Prod.mk.inj heq

/-- **The blocking reader agrees with the non-blocking one exactly on harmless chunks**: over the same non-empty reads,
with no error and no timeout, it returns after exactly the chunks that complete the first marker, with these, as the
other one does. -/
theorem blocking_agrees_iff {p : ReadParams} {readTimeout : Int} {startedAt startedAt' : Nat}
    {tape tape' : List ReadTurn} (hblocking : GoesBlocking readTimeout startedAt tape) (hp : p.chan ∧ p.sess)
    (hnonBlocking : GoesNonBlocking p { lastDataTime := startedAt', firstDataTime := startedAt' } tape')
    (hpieces : pieces tape' = pieces tape) :
    ((readUntilEomBlocking true readTimeout startedAt tape).StopsAtFirst (pieces tape) ∧
      (readUntilEomBlocking true readTimeout startedAt tape).reads = (readUntilEomNonBlocking p startedAt' tape').reads ∧
      (readUntilEomBlocking true readTimeout startedAt tape).outcome =
        (readUntilEomNonBlocking p startedAt' tape').outcome) ↔
    Harmless [] (pieces tape) := by
  have hstops : (readUntilEomNonBlocking p startedAt' tape').StopsAtFirst (pieces tape) := by
    rw [readUntilEomNonBlocking_stopsAtFirst hp, ReadEnd.stopsAtFirst_iff, ← hpieces]
    exact readLoop_untilMarker tape' _ hnonBlocking
  rw [← readLoopBlocking_untilMarker_iff tape [] startedAt hblocking (Search.find_nil_of_ne_nil eom_ne_nil),
    ← ReadEnd.stopsAtFirst_iff, ← readUntilEomBlocking_stopsAtFirst]
  exact ⟨fun h => h.1, fun h => ⟨h, h.agree hstops⟩⟩

/-- A tape of these chunks, each there when the reader asks for it. -/
def promptly (chunks : List Bytes) : List ReadTurn := chunks.map fun b => { read := .bytes b }

def patient : ReadParams := { socFd := 3, readTimeout := 60 }

theorem promptly_goesBlocking : ∀ {chunks : List Bytes}, [] ∉ chunks → GoesBlocking 60 0 (promptly chunks)
  | [], _ => trivial
  | [] :: _, h => absurd List.mem_cons_self h
  | (_ :: _) :: _, h => ⟨by simp, promptly_goesBlocking fun hmem => h (List.mem_cons_of_mem _ hmem)⟩

theorem promptly_goesNonBlocking : ∀ {chunks : List Bytes} (st : ReadState), [] ∉ chunks →
    GoesNonBlocking patient st (promptly chunks)
  | [], _, _ => trivial
  | [] :: _, _, h => absurd List.mem_cons_self h
  | (b :: bs) :: chunks, st, h => by
    have hseconds : seconds 60 = 60000000000 := rfl
    refine ⟨?_, ?_, ?_, promptly_goesNonBlocking _ fun hmem => h (List.mem_cons_of_mem _ hmem)⟩
    · simp [ReadParams.guardFires, ReadParams.sizeReached, ReadParams.incompleteSizeLimitEnabled,
        ReadParams.incompleteTimeLimitEnabled, ReadParams.infiniteWait, patient]
    · simp [ReadParams.deadline, patient, hseconds]
    · simp [ReadParams.sizeReached, ReadParams.incompleteSizeLimitEnabled, ReadParams.infiniteWait, patient]

/-- A reply whose marker is split behind its third byte. -/
def splitMarker : List Bytes := [ascii "<ok/>]]>", ascii "]]>"]

theorem splitMarker_harmless : Harmless [] splitMarker :=
  (@blocking_agrees_iff patient 60 0 0 (promptly splitMarker) (promptly splitMarker)
    (promptly_goesBlocking (by decide)) ⟨rfl, rfl⟩ (promptly_goesNonBlocking _ (by decide)) rfl).1
    ⟨(ReadEnd.stopsAtFirst_iff _ _).2 (by decide), by decide, by decide⟩

/-- Half a marker, which the reader takes for a whole one. -/
def forgedMarker : List Bytes := [ascii "]]>"]

/-- A marker whose second half comes with five bytes and more behind it. -/
def hiddenMarker : List Bytes := [ascii "<ok/>]]>", ascii "]]><hello/>"]

/-- **The blocking reader stops without a marker, and misses one.** -/
theorem forgedMarker_not_stopsAtFirst :
    GoesBlocking 60 0 (promptly forgedMarker) ∧ find eom (pieces (promptly forgedMarker)).flatten = none ∧
    (readUntilEomBlocking true 60 0 (promptly forgedMarker)).outcome = some (.ok (ascii "]]>")) ∧
    ¬ (readUntilEomBlocking true 60 0 (promptly forgedMarker)).StopsAtFirst (pieces (promptly forgedMarker)) ∧
    GoesBlocking 60 0 (promptly hiddenMarker) ∧
    (readUntilEomNonBlocking patient 0 (promptly hiddenMarker)).outcome = some (.ok (ascii "<ok/>]]>]]><hello/>")) ∧
    (readUntilEomBlocking true 60 0 (promptly hiddenMarker)).outcome = none ∧
    ¬ (readUntilEomBlocking true 60 0 (promptly hiddenMarker)).StopsAtFirst (pieces (promptly hiddenMarker)) := by
  refine ⟨promptly_goesBlocking (by decide), by decide, by decide, ?_, promptly_goesBlocking (by decide), by decide,
    by decide, ?_⟩
  · rw [ReadEnd.stopsAtFirst_iff]
    decide
  · rw [ReadEnd.stopsAtFirst_iff]
    decide

end PyNetX
