import Mathlib.Algebra.Order.Ring.Int
import PyNetX.QueueRun
/-!
# DropReports — what the events about a full queue add up to

Two events report drops: `notification_queue_full`, at the first drop of a full episode, and
`notification_drops_summary`, when the threshold is reached.  Each reports what was dropped since the last report, and
how much was dropped at all.
-/
namespace PyNetX

def NotificationHealthEvent.ReportsDrops (e : NotificationHealthEvent) : Prop :=
  e.type = .notificationQueueFull ∨ e.type = .notificationDropsSummary

instance (e : NotificationHealthEvent) : Decidable e.ReportsDrops := inferInstanceAs (Decidable (_ ∨ _))

/-- The events of a run that report drops, in the order in which they were made. -/
def ClientRun.dropReports (c : ClientRun) : List NotificationHealthEvent := c.events.filter (fun e => e.ReportsDrops)

def reportedDrops (reports : List NotificationHealthEvent) : Int := (reports.map (·.notificationsDroppedDelta)).sum

/-- The reports add up: to the counter at the last report, which is not ahead of the drops; what no report tells of yet is
below the threshold; and each report's total is the sum of the deltas up to it. -/
structure DropsAddUp (cfg : ClientConfig) (c : ClientRun) : Prop where
  sum : reportedDrops c.dropReports = c.queue.lastDropEventCount
  reported_le : c.queue.lastDropEventCount ≤ c.queue.droppedQueueFullCount
  unreported_lt : c.queue.droppedQueueFullCount - reportedDrops c.dropReports < cfg.notifDropEventThreshold
  total : ∀ pre e post, c.dropReports = pre ++ e :: post →
    e.notificationsDroppedQueueFull = reportedDrops (pre ++ [e])

variable {cfg : ClientConfig} {c c' : ClientRun}

theorem reportedDrops_concat (reports : List NotificationHealthEvent) (e : NotificationHealthEvent) :
    reportedDrops (reports ++ [e]) = reportedDrops reports + e.notificationsDroppedDelta := by
  simp [reportedDrops]

theorem dropReports_append {events : List NotificationHealthEvent} (h : c'.events = c.events ++ events) :
    c'.dropReports = c.dropReports ++ events.filter (fun e => e.ReportsDrops) := by
  rw [ClientRun.dropReports, h, List.filter_append]
  rfl

/-- A step that makes no report and leaves the two counters keeps the sums. -/
theorem DropsAddUp.of_same (h : DropsAddUp cfg c) (hreports : c'.dropReports = c.dropReports)
    (hdropped : c'.queue.droppedQueueFullCount = c.queue.droppedQueueFullCount)
    (hlast : c'.queue.lastDropEventCount = c.queue.lastDropEventCount) : DropsAddUp cfg c' := by
  refine ⟨?_, ?_, ?_, ?_⟩
  · rw [hreports, hlast]
    exact h.sum
  · rw [hdropped, hlast]
    exact h.reported_le
  · rw [hreports, hdropped]
    exact h.unreported_lt
  · rw [hreports]
    exact h.total

/-- A drop that nobody is told of is below the threshold, with those before it. -/
theorem DropsAddUp.silent (h : DropsAddUp cfg c) (hr : ¬ DropReported cfg c.queue)
    (hreports : c'.dropReports = c.dropReports) (hqueue : c'.queue = c.queue.dropSilently) : DropsAddUp cfg c' := by
  have hsum := h.sum
  have hle := h.reported_le
  have hpos := cfg.notifDropEventThreshold_pos
  have hbelow : c.queue.droppedQueueFullCount + 1 - c.queue.lastDropEventCount < cfg.notifDropEventThreshold.toNat :=
    Nat.lt_of_not_le (fun hreach => hr (Or.inr hreach))
  refine ⟨?_, ?_, ?_, ?_⟩
  · rw [hreports, hqueue]
    exact hsum
  · rw [hqueue]
    exact Nat.le_succ_of_le hle
  · rw [hreports, hqueue, hsum]
    simp only [NotifQueue.dropSilently]
    omega
  · rw [hreports]
    exact h.total

/-- A report tells of all drops since the one before it. -/
theorem DropsAddUp.report {e : NotificationHealthEvent} (h : DropsAddUp cfg c)
    (hreports : c'.dropReports = c.dropReports ++ [e]) (hqueue : c'.queue = c.queue.reportDrop)
    (hdelta : e.notificationsDroppedDelta =
      (c.queue.droppedQueueFullCount + 1 - c.queue.lastDropEventCount : Nat))
    (htotal : e.notificationsDroppedQueueFull = (c.queue.droppedQueueFullCount + 1 : Nat)) : DropsAddUp cfg c' := by
  have hle := h.reported_le
  have hsum : reportedDrops c'.dropReports = (c.queue.droppedQueueFullCount + 1 : Nat) := by
    rw [hreports, reportedDrops_concat, h.sum, hdelta]
    omega
  refine ⟨?_, ?_, ?_, fun pre e' post hsplit => ?_⟩
  · rw [hqueue]
    exact hsum
  · rw [hqueue]
    exact Nat.le_refl _
  · rw [hqueue, hsum]
    simp only [NotifQueue.reportDrop]
    have := cfg.notifDropEventThreshold_pos
    omega
  · obtain ⟨rfl, rfl, -⟩ | ⟨post', -, hfront⟩ := Run.split_concat (hreports.symm.trans hsplit)
    · rw [htotal, ← hreports]
      exact hsum.symm
    · exact h.total pre e' post' hfront

/-- **Every section keeps the sums.** -/
theorem QueueOp.step_dropReports (h : DropsAddUp cfg c) (op : QueueOp) : DropsAddUp cfg (op.step cfg c) := by
  have hs := op.step_outcome cfg c
  generalize op.step cfg c = c' at hs ⊢
  have hnone : ∀ {c' : ClientRun}, c'.events = c.events ++ [] → c'.dropReports = c.dropReports :=
    fun he => (dropReports_append he).trans (List.append_nil _)
  have hother : ∀ {c' : ClientRun} {e : NotificationHealthEvent}, ¬ e.ReportsDrops → c'.events = c.events ++ [e] →
      c'.dropReports = c.dropReports := by
    intro c' e hno he
    rw [dropReports_append he, List.filter_cons_of_neg (by simpa using hno)]
    exact List.append_nil _
  cases hs with
  | none hq ha hp ho hd he hf =>
    exact h.of_same (hnone (he.trans (List.append_nil _).symm)) (by rw [hq]) (by rw [hq])
  | accepted hn hroom => exact h.of_same (hnone rfl) rfl rfl
  | reported hn hfull hr =>
    refine h.report ((dropReports_append rfl).trans (congrArg _ (List.filter_cons_of_pos ?_))) rfl rfl rfl
    simp only [NotificationHealthEvent.ReportsDrops, makeNotificationHealthEventLocked]
    split <;> decide
  | silent hn hfull hr => exact h.silent hr (hnone rfl) rfl
  | diagnostic he => exact h.of_same (hother (not_or.2 ⟨he.1, he.2.1⟩) rfl) rfl rfl
  | popped hl hx hr => exact h.of_same (hnone rfl) rfl rfl
  | recovered hl hx hr =>
    exact h.of_same (hother (by simp [NotificationHealthEvent.ReportsDrops, makeNotificationHealthEventLocked]) rfl) rfl rfl
  | dead => exact h.of_same (hnone rfl) rfl rfl
  | cleared => exact h.of_same (hnone rfl) rfl rfl

/-- **Drop reporting adds up**, for every configuration and every run. -/
theorem runQueue_dropsAddUp (cfg : ClientConfig) (ops : List QueueOp) : DropsAddUp cfg (runQueue cfg ops) := by
  refine Run.run_invariant (I := DropsAddUp cfg) (fun _ op h => op.step_dropReports h) ops {} ⟨rfl, Nat.le_refl _, ?_, ?_⟩
  · exact cfg.notifDropEventThreshold_pos
  · exact fun pre e post h => by cases pre <;> cases h

end PyNetX
