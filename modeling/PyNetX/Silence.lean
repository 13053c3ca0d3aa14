import Mathlib.Order.Monotone.Basic
import PyNetX.BlockingReader
/-!
# Silence — `read_timeout` in the blocking reader

`read_until_eom_blocking` sets `last_data_time` behind every read that is not `LIBSSH2_ERROR_EAGAIN`, a result of zero
among them: it gives up `read_timeout` behind the last byte exactly when no such read comes in between
(`silence_bounded_iff`), and a channel that is at its end keeps it for ever.
-/
namespace PyNetX

open Search (find)

/-- The turns of a reader's loop, without end. -/
abbrev Turns := Nat → ReadTurn

namespace Turns

def first (turns : Turns) (n : Nat) : List ReadTurn := (List.range n).map turns

/-- What the turns in front of turn `n` brought. -/
def received (turns : Turns) (n : Nat) : Bytes := (pieces (turns.first n)).flatten

/-- The clock at the last byte in front of turn `n`, or when the reader was entered. -/
def lastByteAt (turns : Turns) (startedAt : Nat) : Nat → Nat
  | 0 => startedAt
  | n + 1 => if (turns n).data? = none then turns.lastByteAt startedAt n else (turns n).lastStamp

/-- The check at the top of turn `n` comes more than `read_timeout` behind the last byte. -/
def Silent (turns : Turns) (readTimeout : Int) (startedAt n : Nat) : Prop :=
  seconds readTimeout < (turns n).now - turns.lastByteAt startedAt n

/-- The first such check. -/
def FirstSilent (turns : Turns) (readTimeout : Int) (startedAt n : Nat) : Prop :=
  turns.Silent readTimeout startedAt n ∧ ∀ m < n, ¬ turns.Silent readTimeout startedAt m

/-- The reader's check at the top of turn `n` throws the timeout error, and nothing ended the reader before. -/
def TimesOutAt (turns : Turns) (readTimeout : Int) (startedAt n : Nat) : Prop :=
  readUntilEomBlocking true readTimeout startedAt (turns.first (n + 1)) =
    { reads := pieces (turns.first n)
      outcome := some (.error (ascii "Error occured while reading from channel: " ++ deviceSilent readTimeout))
      unread := [turns n] }

/-- A clock that goes on and on, and a channel that gives bytes without a marker and then none: reads that do not fail,
and from some turn on `LIBSSH2_ERROR_EAGAIN` or zero. -/
structure FallsSilent (turns : Turns) (startedAt : Nat) : Prop where
  started : startedAt ≤ (turns 0).now
  clock : ∀ n, (turns n).now ≤ (turns (n + 1)).now
  stamped : ∀ n b, (turns n).read = .bytes b → (turns n).now ≤ (turns n).lastStamp ∧
    (turns n).lastStamp ≤ (turns (n + 1)).now
  advances : ∀ t, ∃ n, t < (turns n).now
  reads : ∀ n e, (turns n).read ≠ .failed e
  unmarked : ∀ n, find eom (turns.received n) = none
  silent : ∃ n₀, ∀ n, n₀ ≤ n → (turns n).data? = none

/-- Nothing in front of turn `n` misleads the reader: no chunk forges a marker, and every read of zero bytes is itself
more than `read_timeout` in front of the check. -/
def Undelayed (turns : Turns) (readTimeout : Int) (n : Nat) : Prop :=
  ∀ m < n, (∀ b, (turns m).data? = some b → ¬ ForgesMarker (turns.received m) b) ∧
    ((turns m).read = .bytes [] → seconds readTimeout < (turns n).now - (turns m).lastStamp)

variable {turns : Turns} {readTimeout : Int} {startedAt n m : Nat}

theorem first_succ (turns : Turns) (n : Nat) : turns.first (n + 1) = turns.first n ++ [turns n] := by
  rw [first, List.range_succ, List.map_append]
  rfl

theorem pieces_first_succ (turns : Turns) (n : Nat) :
    pieces (turns.first (n + 1)) = pieces (turns.first n) ++ (turns n).data?.toList := by
  rw [first_succ, pieces, List.filterMap_append, ← pieces, ← pieces, pieces_cons]
  simp [pieces]

theorem received_succ (turns : Turns) (n : Nat) :
    turns.received (n + 1) = turns.received n ++ (turns n).data?.getD [] := by
  rw [received, pieces_first_succ, List.flatten_append, ← received]
  cases (turns n).data? <;> simp

/-! ## What the reader's clock shows -/

/-- `last_data_time` in front of turn `n`, as the reader sets it. -/
def lastDataTime (turns : Turns) (startedAt : Nat) : Nat → Nat
  | 0 => startedAt
  | n + 1 =>
    match (turns n).read with
    | .bytes _ => (turns n).lastStamp
    | _ => turns.lastDataTime startedAt n

theorem data?_of_read {t : ReadTurn} {b : Bytes} (h : t.read = .bytes b) : t.data? = if b = [] then none else some b := by
  rw [ReadTurn.data?, h]
  cases b <;> rfl

theorem data?_eq_none {t : ReadTurn} (h : ∀ b, t.read ≠ .bytes b) : t.data? = none := by
  unfold ReadTurn.data?
  split
  · rename_i b bs hr
    exact absurd hr (h _)
  · rfl

/-- **`last_data_time` is the last byte's, or that of a read of zero bytes.** -/
theorem lastDataTime_cases (turns : Turns) (startedAt : Nat) : ∀ n,
    turns.lastDataTime startedAt n = turns.lastByteAt startedAt n ∨
      ∃ m < n, (turns m).read = .bytes [] ∧ turns.lastDataTime startedAt n = (turns m).lastStamp
  | 0 => Or.inl rfl
  | n + 1 => by
    rw [lastDataTime, lastByteAt]
    split
    · rename_i b hr
      by_cases hb : b = []
      · exact Or.inr ⟨n, Nat.lt_succ_self n, hb ▸ hr, rfl⟩
      · rw [data?_of_read hr, if_neg hb]
        exact Or.inl rfl
    · rename_i hr
      rw [data?_eq_none hr, if_pos rfl]
      rcases lastDataTime_cases turns startedAt n with h | ⟨m, hm, hr', h⟩
      · exact Or.inl h
      · exact Or.inr ⟨m, Nat.lt_succ_of_lt hm, hr', h⟩

namespace FallsSilent

theorem now_mono (h : turns.FallsSilent startedAt) (hmn : m ≤ n) : (turns m).now ≤ (turns n).now :=
  monotone_nat_of_le_succ (f := fun n => (turns n).now) h.clock hmn

theorem lastDataTime_le (h : turns.FallsSilent startedAt) : ∀ n, turns.lastDataTime startedAt n ≤ (turns n).now
  | 0 => h.started
  | n + 1 => by
    rw [lastDataTime]
    split
    · rename_i b hr
      exact (h.stamped n b hr).2
    · exact Nat.le_trans (h.lastDataTime_le n) (h.clock n)

theorem lastDataTime_mono (h : turns.FallsSilent startedAt) (hmn : m ≤ n) :
    turns.lastDataTime startedAt m ≤ turns.lastDataTime startedAt n := by
  refine monotone_nat_of_le_succ (f := turns.lastDataTime startedAt) (fun k => ?_) hmn
  rw [lastDataTime]
  split
  · rename_i b hr
    exact Nat.le_trans (h.lastDataTime_le k) (h.stamped k b hr).1
  · exact Nat.le_refl _

theorem lastByteAt_le (h : turns.FallsSilent startedAt) : ∀ n,
    turns.lastByteAt startedAt n ≤ turns.lastDataTime startedAt n
  | 0 => Nat.le_refl _
  | n + 1 => by
    have hmono := h.lastDataTime_mono (Nat.le_succ n)
    rw [lastByteAt]
    split
    · exact Nat.le_trans (h.lastByteAt_le n) hmono
    · rename_i hdata
      rw [lastDataTime]
      split
      · exact Nat.le_refl _
      · rename_i hr
        exact absurd (data?_eq_none hr) hdata

/-- **There is a first check that comes too late.** -/
theorem exists_firstSilent (h : turns.FallsSilent startedAt) : ∃ n, turns.FirstSilent readTimeout startedAt n := by
  obtain ⟨n₀, hn₀⟩ := h.silent
  have hfixed : ∀ k, turns.lastByteAt startedAt (n₀ + k) = turns.lastByteAt startedAt n₀ := by
    intro k
    induction k with
    | zero => rfl
    | succ k ih => rw [← Nat.add_assoc, lastByteAt, if_pos (hn₀ _ (Nat.le_add_right _ _)), ih]
  obtain ⟨n, hn⟩ := h.advances (turns.lastByteAt startedAt n₀ + seconds readTimeout)
  have hex : ∃ n, turns.Silent readTimeout startedAt n := by
    refine ⟨n₀ + n, ?_⟩
    have := h.now_mono (Nat.le_add_left n n₀)
    rw [Silent, hfixed]
    omega
  classical
  exact ⟨Nat.find hex, Nat.find_spec hex, fun m hm => Nat.find_min hex hm⟩

end FallsSilent

/-! ## The reader, turn by turn -/

/-- The reader goes on behind turn `n`. -/
def Passes (turns : Turns) (readTimeout : Int) (startedAt n : Nat) : Prop :=
  ¬ seconds readTimeout < (turns n).now - turns.lastDataTime startedAt n ∧
  (∀ e, (turns n).read ≠ .failed e) ∧
  ∀ b, (turns n).read = .bytes b → find eom ((turns.received n ++ b).drop ((turns.received n ++ b).length - 7) ++ b) = none

theorem readLoopBlocking_passes (hpass : turns.Passes readTimeout startedAt n) (rest : List ReadTurn) :
    readLoopBlocking readTimeout (turns.received n) (turns.lastDataTime startedAt n) (turns n :: rest) =
      let r := readLoopBlocking readTimeout (turns.received (n + 1)) (turns.lastDataTime startedAt (n + 1)) rest
      { r with reads := (turns n).data?.toList ++ r.reads } := by
  obtain ⟨hnow, hfailed, hsearch⟩ := hpass
  rw [readLoopBlocking, if_neg (fun h => hnow h.2), received_succ, lastDataTime]
  split
  · rename_i hr
    have hnone : ∀ b, (turns n).read ≠ .bytes b := fun b hb => by
      rw [hr] at hb
      cases hb
    rw [data?_eq_none hnone]
    simp [hr]
  · rename_i e hr
    exact absurd hr (hfailed e)
  · rename_i b hr
    have hnone := hsearch b hr
    rw [data?_of_read hr]
    simp only [hr, hnone, Option.isSome_none, Bool.false_eq_true, if_false]
    cases b <;> simp

theorem readLoopBlocking_first : ∀ (n : Nat) (rest : List ReadTurn),
    (∀ m < n, turns.Passes readTimeout startedAt m) → readLoopBlocking readTimeout [] startedAt (turns.first n ++ rest) =
      let r := readLoopBlocking readTimeout (turns.received n) (turns.lastDataTime startedAt n) rest
      { r with reads := pieces (turns.first n) ++ r.reads }
  | 0, rest, _ => rfl
  | n + 1, rest, h => by
    rw [first_succ, List.append_assoc, List.singleton_append,
      readLoopBlocking_first n (turns n :: rest) (fun m hm => h m (Nat.lt_succ_of_lt hm)),
      readLoopBlocking_passes (h n (Nat.lt_succ_self n)), ← first_succ, pieces_first_succ]
    simp

theorem first_split (turns : Turns) (hmn : m ≤ n) : ∃ rest, turns.first (n + 1) = turns.first m ++ turns m :: rest ∧
    rest.length = n - m := by
  obtain ⟨k, rfl⟩ := Nat.exists_eq_add_of_le hmn
  clear hmn
  induction k with
  | zero => exact ⟨[], first_succ turns m, by simp⟩
  | succ k ih =>
    obtain ⟨rest, hrest, hlen⟩ := ih
    refine ⟨rest ++ [turns (m + (k + 1))], ?_, ?_⟩
    · rw [first_succ, ← Nat.add_assoc, hrest, List.append_assoc, List.cons_append]
    · rw [List.length_append, hlen, List.length_singleton]
      omega

/-- **What ends the reader with an exception**, when no read fails, is its check. -/
theorem readLoopBlocking_error (ht : 0 ≤ readTimeout) (hreads : ∀ e, (turns n).read ≠ .failed e) {what : Bytes}
    {rest : List ReadTurn} (hpass : ¬ turns.Passes readTimeout startedAt n)
    (hend : (readLoopBlocking readTimeout (turns.received n) (turns.lastDataTime startedAt n) (turns n :: rest)).outcome =
      some (.error what)) :
    seconds readTimeout < (turns n).now - turns.lastDataTime startedAt n ∧
      (readLoopBlocking readTimeout (turns.received n) (turns.lastDataTime startedAt n) (turns n :: rest)).unread =
        turns n :: rest := by
  rw [readLoopBlocking] at hend ⊢
  by_cases hlate : 0 ≤ readTimeout ∧ seconds readTimeout < (turns n).now - turns.lastDataTime startedAt n
  · rw [if_pos hlate]
    exact ⟨hlate.2, rfl⟩
  · rw [if_neg hlate] at hend
    exfalso
    refine hpass ⟨fun h => hlate ⟨ht, h⟩, hreads, fun b hr => ?_⟩
    by_contra hfound
    simp only [hr, Option.isSome_iff_ne_none, if_pos hfound] at hend
    cases hend

/-- **The timeout error at turn `n`** is thrown when the reader comes to it and finds `last_data_time` too long ago. -/
theorem timesOutAt_iff (ht : 0 ≤ readTimeout) (hreads : ∀ n e, (turns n).read ≠ .failed e) :
    turns.TimesOutAt readTimeout startedAt n ↔ (∀ m < n, turns.Passes readTimeout startedAt m) ∧
      seconds readTimeout < (turns n).now - turns.lastDataTime startedAt n := by
  have hloop : turns.TimesOutAt readTimeout startedAt n ↔
      readLoopBlocking readTimeout [] startedAt (turns.first (n + 1)) =
        ⟨pieces (turns.first n), some (.error (deviceSilent readTimeout)), [turns n]⟩ := by
    rw [TimesOutAt, readUntilEomBlocking, if_neg (by simp)]
    generalize readLoopBlocking readTimeout [] startedAt (turns.first (n + 1)) = r
    obtain ⟨reads, outcome, unread⟩ := r
    rcases outcome with _ | _ | _ <;> simp [rethrow, Except.mapError]
  rw [hloop]
  constructor
  · intro h
    by_cases hall : ∀ m < n + 1, turns.Passes readTimeout startedAt m
    · rw [← List.append_nil (turns.first (n + 1)), readLoopBlocking_first (n + 1) [] hall] at h
      cases congrArg ReadEnd.outcome h
    · -- the first turn that the reader does not pass is the one that it leaves unread
      classical
      have hex : ∃ m, m < n + 1 ∧ ¬ turns.Passes readTimeout startedAt m := by
        by_contra hn
        exact hall fun m hm => not_not.1 fun hp => hn ⟨m, hm, hp⟩
      obtain ⟨hm, hstop⟩ := Nat.find_spec hex
      have hfront : ∀ k < Nat.find hex, turns.Passes readTimeout startedAt k := fun k hk =>
        not_not.1 fun hp => Nat.find_min hex hk ⟨Nat.lt_trans hk hm, hp⟩
      generalize Nat.find hex = m at hm hstop hfront
      obtain ⟨rest, hsplit, hlen⟩ := turns.first_split (Nat.le_of_lt_succ hm)
      rw [hsplit, readLoopBlocking_first m _ hfront] at h
      obtain ⟨hlate, hunread⟩ := readLoopBlocking_error ht (hreads m) hstop (congrArg ReadEnd.outcome h)
      have hone := congrArg (fun r => r.unread.length) h
      simp only [hunread, List.length_cons, List.length_nil, hlen] at hone
      obtain rfl : m = n := by omega
      exact ⟨hfront, hlate⟩
  · rintro ⟨hpass, hlate⟩
    rw [first_succ, readLoopBlocking_first n _ hpass, readLoopBlocking, if_pos ⟨ht, hlate⟩]
    simp

/-- **Bytes without a marker do not stop the reader**, unless they forge one; a read of zero bytes never does. -/
theorem FallsSilent.passes_iff (h : turns.FallsSilent startedAt) : turns.Passes readTimeout startedAt n ↔
    ¬ seconds readTimeout < (turns n).now - turns.lastDataTime startedAt n ∧
      ∀ b, (turns n).data? = some b → ¬ ForgesMarker (turns.received n) b := by
  have hmark := h.unmarked (n + 1)
  rw [received_succ] at hmark
  refine and_congr_right fun _ => ⟨fun hpass b hb => ?_, fun hforges => ⟨h.reads n, fun b hr => ?_⟩⟩
  · obtain ⟨x, bs, hr, rfl⟩ : ∃ x bs, (turns n).read = .bytes (x :: bs) ∧ x :: bs = b := by
      unfold ReadTurn.data? at hb
      split at hb
      · rename_i x bs hr
        exact ⟨x, bs, hr, Option.some.inj hb⟩
      · cases hb
    intro hf
    exact (blocking_search_iff (h.unmarked n)).2 (Or.inr hf) (hpass.2 _ hr)
  · by_contra hfound
    rw [data?_of_read hr] at hforges hmark
    by_cases hb : b = []
    · -- nothing new: no marker, and no boundary to stand on
      subst hb
      rcases (blocking_search_iff (h.unmarked n)).1 hfound with hshows | ⟨front, back, hcross⟩
      · exact hshows.find (by simpa using h.unmarked n)
      · exact hcross.back_ne (List.prefix_nil.1 hcross.right)
    · rw [if_neg hb] at hforges hmark
      rcases (blocking_search_iff (h.unmarked n)).1 hfound with hshows | hf
      · exact hshows.find hmark
      · exact hforges b rfl hf

/-! ## The bound -/

/-- **`read_timeout` bounds silence exactly when nothing misleads the reader.**  It throws the timeout error at its
first check more than `read_timeout` behind the last byte, if and only if in front of that check no chunk forges a
marker and no read of zero bytes falls into the last `read_timeout`. -/
theorem silence_bounded_iff (ht : 0 ≤ readTimeout) (h : turns.FallsSilent startedAt) :
    (∃ n, turns.FirstSilent readTimeout startedAt n ∧ turns.TimesOutAt readTimeout startedAt n) ↔
      ∀ n, turns.FirstSilent readTimeout startedAt n → turns.Undelayed readTimeout n := by
  have hunique : ∀ {n n'}, turns.FirstSilent readTimeout startedAt n → turns.FirstSilent readTimeout startedAt n' →
      n = n' := fun {n n'} hn hn' =>
    Nat.le_antisymm (Nat.le_of_not_lt fun hlt => hn.2 n' hlt hn'.1) (Nat.le_of_not_lt fun hlt => hn'.2 n hlt hn.1)
  constructor
  · rintro ⟨n, hn, htimes⟩ n' hn' m hm
    obtain rfl := hunique hn hn'
    obtain ⟨hpass, hlate⟩ := (timesOutAt_iff ht h.reads).1 htimes
    refine ⟨(h.passes_iff.1 (hpass m hm)).2, fun hr => ?_⟩
    have hstamp : (turns m).lastStamp ≤ turns.lastDataTime startedAt n := by
      have hnext := h.lastDataTime_mono (Nat.succ_le_of_lt hm)
      rwa [Nat.succ_eq_add_one, lastDataTime, hr] at hnext
    omega
  · intro hundelayed
    obtain ⟨n, hn⟩ : ∃ n, turns.FirstSilent readTimeout startedAt n := h.exists_firstSilent
    refine ⟨n, hn, (timesOutAt_iff ht h.reads).2 ⟨fun m hm => h.passes_iff.2 ⟨fun hlate => ?_, ?_⟩, ?_⟩⟩
    · apply hn.2 m hm
      have := h.lastByteAt_le m
      rw [Silent]
      omega
    · exact (hundelayed n hn m hm).1
    · rcases lastDataTime_cases turns startedAt n with hlast | ⟨m, hm, hr, hlast⟩
      · rw [hlast]
        exact hn.1
      · rw [hlast]
        exact (hundelayed n hn m hm).2 hr

/-- A channel that gives nothing, asked once a second, with this result each time. -/
def quietly (read : ChannelRead) : Turns := fun n => { now := n * 1000000000, read := read, lastStamp := n * 1000000000 }

theorem quietly_fallsSilent {read : ChannelRead} (hread : read = .eagain ∨ read = .bytes []) :
    (quietly read).FallsSilent 0 := by
  have hdata : ∀ n, ((quietly read) n).data? = none := fun n => by
    rcases hread with rfl | rfl <;> rfl
  refine ⟨Nat.zero_le _, fun n => ?_, fun n b _ => ⟨Nat.le_refl _, ?_⟩, fun t => ⟨t + 1, ?_⟩, fun n e h => ?_, fun n => ?_,
    0, fun n _ => hdata n⟩
  · simp only [quietly]
    omega
  · simp only [quietly]
    omega
  · simp only [quietly]
    omega
  · rcases hread with rfl | rfl <;> cases h
  · have hnil : (quietly read).received n = [] := by
      induction n with
      | zero => rfl
      | succ n ih => rw [received_succ, ih, hdata]; rfl
    rw [hnil]
    exact Search.find_nil_of_ne_nil eom_ne_nil

theorem quietly_timesOut : ∃ n, (quietly .eagain).FirstSilent 60 0 n ∧ (quietly .eagain).TimesOutAt 60 0 n := by
  refine (silence_bounded_iff (by decide) (quietly_fallsSilent (Or.inl rfl))).2 (fun n _ m _ => ⟨fun b hb => ?_, nofun⟩)
  cases hb

/-- **A channel at its end keeps the reader for ever.** -/
theorem quietly_never_timesOut : (quietly (.bytes [])).FallsSilent 0 ∧
    (∀ n, (readUntilEomBlocking true 60 0 ((quietly (.bytes [])).first n)).outcome = none) ∧
    ¬ ∃ n, (quietly (.bytes [])).FirstSilent 60 0 n ∧ (quietly (.bytes [])).TimesOutAt 60 0 n := by
  have hsilent : (quietly (.bytes [])).FallsSilent 0 := quietly_fallsSilent (Or.inr rfl)
  have hearly : ∀ n, ¬ seconds 60 < ((quietly (.bytes [])) n).now - (quietly (.bytes [])).lastDataTime 0 n := by
    intro n
    cases n with
    | zero => decide
    | succ n =>
      simp only [lastDataTime, quietly, seconds]
      omega
  have hpass : ∀ n, (quietly (.bytes [])).Passes 60 0 n := fun n =>
    hsilent.passes_iff.2 ⟨hearly n, fun b hb => by cases hb⟩
  refine ⟨hsilent, fun n => ?_, fun ⟨n, _, htimes⟩ => ?_⟩
  · have hloop := readLoopBlocking_first n [] (fun m _ => hpass m)
    rw [List.append_nil] at hloop
    rw [readUntilEomBlocking, if_neg (by simp), hloop]
    rfl
  · exact hearly n ((timesOutAt_iff (by decide) hsilent.reads).1 htimes).2

end Turns

end PyNetX
