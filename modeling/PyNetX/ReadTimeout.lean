import PyNetX.Silence
/-!
# ReadTimeout — `read_timeout` in the non-blocking reader

`read_until_eom_non_blocking` sets `last_data_time` behind bytes only and looks at the clock in front of every `poll`,
so neither a read of zero bytes nor an interrupted `poll` keeps it: on a channel that falls silent it gives up
(`silence_ends`), at the first turn in which it finds the time spent.  A `poll` waits in whole milliseconds, so that
it gives up when less than one is left.
-/
namespace PyNetX

open Search (find)

/-- The parameters of a call with a time limit, on a channel and a session that are there. -/
structure ReadParams.Limited (p : ReadParams) : Prop where
  chan : p.chan = true
  sess : p.sess = true
  limit : 0 ≤ p.readTimeout

/-- Nothing is wrong with the socket. -/
def PollResult.Sound : PollResult → Prop
  | .failed _ | .invalid | .closed => False
  | _ => True

namespace Turns

/-- The deadline at turn `n`: `read_timeout` behind the last byte. -/
def deadline (turns : Turns) (readTimeout : Int) (startedAt n : Nat) : Nat :=
  turns.lastByteAt startedAt n + seconds readTimeout

/-- The reader gives up in turn `n`: it throws the timeout error, with the pieces in front of that turn taken. -/
def GivesUpAt (turns : Turns) (p : ReadParams) (startedAt n : Nat) : Prop :=
  (readUntilEomNonBlocking p startedAt (turns.first (n + 1))).reads = pieces (turns.first n) ∧
  (readUntilEomNonBlocking p startedAt (turns.first (n + 1))).outcome =
    some (.error (ascii "Error occured while reading from channel: " ++ deviceSilent p.readTimeout))

/-- The reader looks at the clock in turn `n`, at its top or in front of a `poll`, and it shows `t`. -/
def LooksAt (turns : Turns) (n t : Nat) : Prop := t = (turns n).now ∨ ∃ q ∈ (turns n).polls, t = q.now

/-- A clock that goes on and on, and a channel and a socket with nothing wrong that bring bytes without a marker and then
none; a wait is not interrupted for ever, but until the deadline at the longest. -/
structure FallsQuiet (turns : Turns) (p : ReadParams) (startedAt : Nat) : Prop where
  clock : ∀ n, (turns n).now ≤ (turns (n + 1)).now
  advances : ∀ t, ∃ n, t < (turns n).now
  reads : ∀ n e, (turns n).read ≠ .failed e
  unmarked : ∀ n, find eom (turns.received n) = none
  silent : ∃ n₀, ∀ n, n₀ ≤ n → (turns n).data? = none
  polls : ∀ n, ∀ q ∈ (turns n).polls, q.result.Sound
  waits : ∀ n, (turns n).data? = none → ∃ q ∈ (turns n).polls,
    q.result ≠ .interrupted ∨ turns.deadline p.readTimeout startedAt n ≤ q.now

variable {turns : Turns} {p : ReadParams} {startedAt n : Nat}

/-! ## A wait -/

/-- **A wait that a sound socket lets come to an end** goes on, or finds that less than a millisecond is left. -/
theorem wait_cases {deadline : Nat} {readTimeout : Int} : ∀ {polls : List Poll}, (∀ q ∈ polls, q.result.Sound) →
    (∃ q ∈ polls, q.result ≠ .interrupted ∨ deadline ≤ q.now) →
    waitForLibssh2Socket.go deadline false readTimeout polls = some (.ok ()) ∨
      waitForLibssh2Socket.go deadline false readTimeout polls = some (.error (deviceSilent readTimeout)) ∧
        ∃ q ∈ polls, deadline < q.now + 1000000
  | [], _, h => by
    obtain ⟨q, hq, -⟩ := h
    cases hq
  | q :: polls, hsound, h => by
    have hq := hsound q List.mem_cons_self
    rw [waitForLibssh2Socket.go]
    by_cases hspent : remainingPollTimeoutMs deadline false q.now = 0
    · refine Or.inr ⟨if_pos ⟨Bool.false_ne_true, hspent⟩, q, List.mem_cons_self, ?_⟩
      unfold remainingPollTimeoutMs at hspent
      split at hspent
      · contradiction
      · split at hspent
        · omega
        · simp only [maxEagainPollSliceMs] at hspent
          omega
    · rw [if_neg (fun h => hspent h.2)]
      cases hr : q.result with
      | interrupted =>
        -- an interrupted poll leaves the rest of the wait
        have hrest : ∃ q ∈ polls, q.result ≠ .interrupted ∨ deadline ≤ q.now := by
          obtain ⟨q', hq', hend⟩ := h
          rcases List.mem_cons.1 hq' with rfl | hq'
          · rcases hend with hend | hend
            · exact absurd hr hend
            · exact absurd (by rw [remainingPollTimeoutMs, if_neg Bool.false_ne_true, if_pos hend]) hspent
          · exact ⟨q', hq', hend⟩
        rcases wait_cases (fun q' hq' => hsound q' (List.mem_cons_of_mem _ hq')) hrest with hok | ⟨herr, q', hq', hlate⟩
        · exact Or.inl hok
        · exact Or.inr ⟨herr, q', List.mem_cons_of_mem _ hq', hlate⟩
      | timeout | ready => exact Or.inl rfl
      | failed e | invalid | closed =>
        rw [hr] at hq
        exact hq.elim

/-! ## The reader, turn by turn -/

/-- The locals of the reader in front of turn `n`. -/
def stateAt (turns : Turns) (startedAt : Nat) : Nat → ReadState
  | 0 => { lastDataTime := startedAt, firstDataTime := startedAt }
  | n + 1 =>
    match (turns n).data? with
    | some b => (turns.stateAt startedAt n).append (turns n) b
    | none => turns.stateAt startedAt n

theorem stateAt_response (turns : Turns) (startedAt : Nat) : ∀ n, (turns.stateAt startedAt n).response = turns.received n
  | 0 => rfl
  | n + 1 => by
    rw [stateAt, received_succ, ← stateAt_response turns startedAt n]
    cases (turns n).data? with
    | none => simp
    | some b => rfl

theorem stateAt_lastDataTime (turns : Turns) (startedAt : Nat) : ∀ n,
    (turns.stateAt startedAt n).lastDataTime = turns.lastByteAt startedAt n
  | 0 => rfl
  | n + 1 => by
    rw [stateAt, lastByteAt, ← stateAt_lastDataTime turns startedAt n]
    cases (turns n).data? with
    | none => rfl
    | some b => rfl

/-- How the wait of turn `n` ends. -/
def waitAt (turns : Turns) (p : ReadParams) (startedAt n : Nat) : Outcome Unit :=
  waitForLibssh2Socket p.socFd (turns.deadline p.readTimeout startedAt n) false p.readTimeout (turns n).polls

/-- The reader goes on behind turn `n`. -/
def GoesOn (turns : Turns) (p : ReadParams) (startedAt n : Nat) : Prop :=
  (turns n).now < turns.deadline p.readTimeout startedAt n ∧
    ((turns n).data? = none → turns.waitAt p startedAt n = some (.ok ()))

/-- The time is spent in turn `n`: at its top, or in its wait. -/
def Spent (turns : Turns) (p : ReadParams) (startedAt n : Nat) : Prop :=
  turns.deadline p.readTimeout startedAt n ≤ (turns n).now ∨
    (turns n).data? = none ∧ turns.waitAt p startedAt n = some (.error (deviceSilent p.readTimeout))

theorem not_infiniteWait (hp : p.Limited) : p.infiniteWait = false :=
  decide_eq_false (Int.not_lt.2 hp.limit)

theorem deadline_stateAt (turns : Turns) (startedAt n : Nat) :
    p.deadline (turns.stateAt startedAt n) = turns.deadline p.readTimeout startedAt n := by
  rw [ReadParams.deadline, stateAt_lastDataTime, deadline]

theorem waitOrStop_stateAt (hp : p.Limited) : waitOrStop p (turns.stateAt startedAt n) (turns n) =
    match turns.waitAt p startedAt n with
    | none => some none
    | some (.error e) => some (some (.error e))
    | some (.ok ()) => none := by
  rw [waitOrStop, if_neg (by simp [not_infiniteWait hp]), deadline_stateAt, not_infiniteWait hp]
  rfl

theorem guardFires_stateAt (hp : p.Limited) (st : ReadState) (now : Nat) : p.guardFires st now = false := by
  simp [ReadParams.guardFires, ReadParams.sizeReached, ReadParams.incompleteSizeLimitEnabled,
    ReadParams.incompleteTimeLimitEnabled, not_infiniteWait hp]

/-- A turn in front of the deadline, with no data: it waits. -/
theorem readLoop_waits (hp : p.Limited) (hread : ∀ e, (turns n).read ≠ .failed e)
    (hnow : (turns n).now < turns.deadline p.readTimeout startedAt n) (hdata : (turns n).data? = none)
    (rest : List ReadTurn) : readLoop p (turns.stateAt startedAt n) (turns n :: rest) =
      match waitOrStop p (turns.stateAt startedAt n) (turns n) with
      | some o => ⟨[], o, rest⟩
      | none => readLoop p (turns.stateAt startedAt n) rest := by
  rw [readLoop, guardFires_stateAt hp, if_neg Bool.false_ne_true, deadline_stateAt,
    if_neg (fun h => absurd h.2 (Nat.not_le.2 hnow))]
  split
  · rename_i e hr
    exact absurd hr (hread e)
  · rfl
  · rfl
  · rename_i b bs hr
    rw [ReadTurn.data?, hr] at hdata
    cases hdata

theorem readLoop_goesOn (hp : p.Limited) (h : turns.FallsQuiet p startedAt) (hgo : turns.GoesOn p startedAt n)
    (rest : List ReadTurn) : readLoop p (turns.stateAt startedAt n) (turns n :: rest) =
      let r := readLoop p (turns.stateAt startedAt (n + 1)) rest
      { r with reads := (turns n).data?.toList ++ r.reads } := by
  cases hdata : (turns n).data? with
  | none =>
    rw [readLoop_waits hp (h.reads n) hgo.1 hdata, waitOrStop_stateAt hp, hgo.2 hdata, stateAt, hdata]
    rfl
  | some b =>
    have hstate : turns.stateAt startedAt (n + 1) = (turns.stateAt startedAt n).append (turns n) b := by
      rw [stateAt, hdata]
    have hmark : find eom (turns.stateAt startedAt (n + 1)).response = none := by
      rw [stateAt_response]
      exact h.unmarked (n + 1)
    obtain ⟨x, bs, hr, rfl⟩ : ∃ x bs, (turns n).read = .bytes (x :: bs) ∧ x :: bs = b := by
      unfold ReadTurn.data? at hdata
      split at hdata
      · rename_i x bs hr
        exact ⟨x, bs, hr, Option.some.inj hdata⟩
      · cases hdata
    have hsize : p.sizeReached (turns.stateAt startedAt (n + 1)).response = false := by
      simp [ReadParams.sizeReached, ReadParams.incompleteSizeLimitEnabled, not_infiniteWait hp]
    rw [readLoop, guardFires_stateAt hp, if_neg Bool.false_ne_true, deadline_stateAt,
      if_neg (fun h => absurd h.2 (Nat.not_le.2 hgo.1)), hr]
    simp only [← hstate]
    rw [hmark, hsize, if_neg (by simp)]
    rfl

theorem readLoop_first (hp : p.Limited) (h : turns.FallsQuiet p startedAt) : ∀ (n : Nat) (rest : List ReadTurn),
    (∀ m < n, turns.GoesOn p startedAt m) → readLoop p (turns.stateAt startedAt 0) (turns.first n ++ rest) =
      let r := readLoop p (turns.stateAt startedAt n) rest
      { r with reads := pieces (turns.first n) ++ r.reads }
  | 0, rest, _ => rfl
  | n + 1, rest, hgo => by
    rw [first_succ, List.append_assoc, List.singleton_append,
      readLoop_first hp h n (turns n :: rest) (fun m hm => hgo m (Nat.lt_succ_of_lt hm)),
      readLoop_goesOn hp h (hgo n (Nat.lt_succ_self n)), ← first_succ, pieces_first_succ]
    simp

/-- **A turn in which the time is spent ends the reader.** -/
theorem readLoop_spent (hp : p.Limited) (h : turns.FallsQuiet p startedAt) (hspent : turns.Spent p startedAt n) :
    ∃ unread, readLoop p (turns.stateAt startedAt n) [turns n] =
      ⟨[], some (.error (deviceSilent p.readTimeout)), unread⟩ := by
  by_cases hlate : turns.deadline p.readTimeout startedAt n ≤ (turns n).now
  · refine ⟨[turns n], ?_⟩
    rw [readLoop, guardFires_stateAt hp, if_neg Bool.false_ne_true, deadline_stateAt,
      if_pos ⟨by simp [not_infiniteWait hp], hlate⟩]
  · obtain ⟨hdata, hwait⟩ := hspent.resolve_left hlate
    refine ⟨[], ?_⟩
    rw [readLoop_waits hp (h.reads n) (Nat.lt_of_not_le hlate) hdata, waitOrStop_stateAt hp, hwait]

/-! ## The bound -/

theorem FallsQuiet.now_mono (h : turns.FallsQuiet p startedAt) {m : Nat} (hmn : m ≤ n) : (turns m).now ≤ (turns n).now :=
  monotone_nat_of_le_succ (f := fun n => (turns n).now) h.clock hmn

/-- **The deadline is reached**: once the channel is silent it stays where it is. -/
theorem FallsQuiet.exists_spent (h : turns.FallsQuiet p startedAt) : ∃ n, turns.Spent p startedAt n := by
  obtain ⟨n₀, hn₀⟩ := h.silent
  have hfixed : ∀ k, turns.lastByteAt startedAt (n₀ + k) = turns.lastByteAt startedAt n₀ := by
    intro k
    induction k with
    | zero => rfl
    | succ k ih => rw [← Nat.add_assoc, lastByteAt, if_pos (hn₀ _ (Nat.le_add_right _ _)), ih]
  obtain ⟨n, hn⟩ := h.advances (turns.deadline p.readTimeout startedAt n₀)
  refine ⟨n₀ + n, Or.inl ?_⟩
  have hlater := h.now_mono (Nat.le_add_left n n₀)
  rw [deadline] at hn ⊢
  rw [hfixed]
  omega

/-- A quiet turn's wait. -/
theorem FallsQuiet.waited (h : turns.FallsQuiet p startedAt) (n : Nat) (hdata : (turns n).data? = none) :
    waitForLibssh2Socket.go (turns.deadline p.readTimeout startedAt n) false p.readTimeout (turns n).polls =
        some (.ok ()) ∨
      waitForLibssh2Socket.go (turns.deadline p.readTimeout startedAt n) false p.readTimeout (turns n).polls =
          some (.error (deviceSilent p.readTimeout)) ∧
        ∃ q ∈ (turns n).polls, turns.deadline p.readTimeout startedAt n < q.now + 1000000 :=
  wait_cases (h.polls n) (h.waits n hdata)

theorem FallsQuiet.goesOn (h : turns.FallsQuiet p startedAt) (hfd : 0 ≤ p.socFd)
    (hspent : ¬ turns.Spent p startedAt n) : turns.GoesOn p startedAt n := by
  refine ⟨Nat.lt_of_not_le (fun hlate => hspent (Or.inl hlate)), fun hdata => ?_⟩
  have hwait : turns.waitAt p startedAt n = waitForLibssh2Socket.go (turns.deadline p.readTimeout startedAt n) false
      p.readTimeout (turns n).polls := if_neg (Int.not_lt.2 hfd)
  obtain hok | ⟨herr, -⟩ := h.waited n hdata
  · exact hwait.trans hok
  · exact absurd (Or.inr ⟨hdata, hwait.trans herr⟩) hspent

/-- **`read_timeout` bounds silence in the non-blocking reader.**  On a channel that falls silent, at its end or not, it
throws the timeout error; no check in front of that one came at the deadline or behind it, and at that one less than a
millisecond was left. -/
theorem silence_ends (hp : p.Limited) (hfd : 0 ≤ p.socFd) (h : turns.FallsQuiet p startedAt) :
    ∃ n, turns.GivesUpAt p startedAt n ∧
      (∀ m < n, (turns m).now < turns.deadline p.readTimeout startedAt m) ∧
      ∃ t, turns.LooksAt n t ∧ turns.deadline p.readTimeout startedAt n < t + 1000000 := by
  classical
  have hex : ∃ n, turns.Spent p startedAt n := h.exists_spent
  have hspent := Nat.find_spec hex
  have hgo : ∀ m < Nat.find hex, turns.GoesOn p startedAt m := fun m hm => h.goesOn hfd (Nat.find_min hex hm)
  generalize Nat.find hex = n at hspent hgo
  refine ⟨n, ?_, fun m hm => (hgo m hm).1, ?_⟩
  · obtain ⟨unread, hend⟩ := readLoop_spent hp h hspent
    have hloop := readLoop_first hp h n [turns n] hgo
    rw [hend, ← first_succ] at hloop
    have hcall : readUntilEomNonBlocking p startedAt (turns.first (n + 1)) =
        ⟨pieces (turns.first n),
          some (.error (ascii "Error occured while reading from channel: " ++ deviceSilent p.readTimeout)), unread⟩ := by
      rw [readUntilEomNonBlocking, if_neg (by simp [hp.chan, hp.sess])]
      rw [stateAt] at hloop
      rw [hloop]
      simp [rethrow, Except.mapError]
    exact ⟨congrArg ReadEnd.reads hcall, congrArg ReadEnd.outcome hcall⟩
  · rcases hspent with hlate | ⟨hdata, hwait⟩
    · exact ⟨(turns n).now, Or.inl rfl, by omega⟩
    · obtain hok | ⟨-, q, hq, hlate⟩ := h.waited n hdata
      · rw [waitAt, waitForLibssh2Socket, if_neg (Int.not_lt.2 hfd), hok] at hwait
        cases hwait
      · exact ⟨q.now, Or.inr ⟨q, hq, rfl⟩, hlate⟩

/-- A channel at its end, asked once a second; the `poll` that follows is interrupted, and then times out. -/
def endedChannel : Turns := fun n =>
  { now := n * 1000000000, read := .bytes [],
    polls := [{ now := n * 1000000000, result := .interrupted }, { now := n * 1000000000 + 500, result := .timeout }] }

theorem endedChannel_silence_ends : ∃ n, endedChannel.GivesUpAt { socFd := 7, readTimeout := 60 } 0 n := by
  have hquiet : endedChannel.FallsQuiet { socFd := 7, readTimeout := 60 } 0 := by
    refine ⟨fun n => ?_, fun t => ⟨t + 1, ?_⟩, (fun _ _ h => by cases h), fun n => ?_, ⟨0, fun _ _ => rfl⟩,
      fun n q hq => ?_,
      fun n _ => ⟨_, List.mem_cons_of_mem _ List.mem_cons_self, Or.inl (fun h => PollResult.noConfusion h)⟩⟩
    · simp only [endedChannel]
      omega
    · simp only [endedChannel]
      omega
    · have hnil : endedChannel.received n = [] := by
        induction n with
        | zero => rfl
        | succ n ih => rw [received_succ, ih]; rfl
      rw [hnil]
      exact Search.find_nil_of_ne_nil eom_ne_nil
    · rcases List.mem_cons.1 hq with rfl | hq
      · trivial
      · rw [List.mem_singleton.1 hq]
        trivial
  obtain ⟨n, hn, -⟩ := silence_ends ⟨rfl, rfl, by decide⟩ (by decide) hquiet
  exact ⟨n, hn⟩

end Turns

end PyNetX
