import EventSourcing.Event

namespace EventSourcing

/-- A watermark and the range that the latest append announced. -/
structure Window where
  delivered : SequenceId
  first : SequenceId
  last : SequenceId
  deriving DecidableEq, Repr

namespace Window

/-- The window of a batch before which everything is delivered. -/
def opened (first last : SequenceId) : Window :=
  ⟨first - 1, first, last⟩

/-- Whether an append that did not commit left the window behind: it starts inside the log and
reaches past its end. -/
def isSpeculative (window : Window) (tail : SequenceId) : Bool :=
  window.first ≤ tail && tail < window.last

def widened (window : Window) (first last : SequenceId) : Window :=
  { window with first, last }

/-- The window cut back to the end of the log if it is speculative. -/
def clamped (window : Window) (tail : SequenceId) : Window :=
  if window.isSpeculative tail then { window with last := tail } else window

/-- The window with its watermark at `delivered` or where it was, whichever is further. -/
def acknowledged (window : Window) (delivered : SequenceId) : Window :=
  { window with delivered := max window.delivered delivered }

theorem isSpeculative_iff {window : Window} {tail : SequenceId} :
    window.isSpeculative tail = true ↔ window.first ≤ tail ∧ tail < window.last := by
  simp [isSpeculative]

/-- A window that starts behind the log and is not kept for a batch ends no later than the batch. -/
theorem last_le_of_not_kept {window : Window} {tail last : SequenceId}
    (hkept : ¬ (last < window.last ∧ ¬ window.isSpeculative tail = true))
    (hfirst : tail < window.first) : window.last ≤ last := by
  rw [isSpeculative_iff] at hkept
  lia

@[simp]
theorem first_clamped (window : Window) (tail : SequenceId) :
    (window.clamped tail).first = window.first := by
  unfold clamped
  split <;> rfl

@[simp]
theorem delivered_clamped (window : Window) (tail : SequenceId) :
    (window.clamped tail).delivered = window.delivered := by
  unfold clamped
  split <;> rfl

@[simp]
theorem acknowledged_first (window : Window) (delivered : SequenceId) :
    (window.acknowledged delivered).first = window.first :=
  rfl

@[simp]
theorem acknowledged_last (window : Window) (delivered : SequenceId) :
    (window.acknowledged delivered).last = window.last :=
  rfl

@[simp]
theorem acknowledged_delivered (window : Window) (delivered : SequenceId) :
    (window.acknowledged delivered).delivered = max window.delivered delivered :=
  rfl

/-- A window that starts behind the log is not cut back. -/
theorem clamped_of_tail_lt {window : Window} {tail : SequenceId} (h : tail < window.first) :
    window.clamped tail = window := by
  have hspeculative : ¬ window.isSpeculative tail = true := by
    rw [isSpeculative_iff]
    lia
  rw [clamped, if_neg hspeculative]

theorem first_le_last_clamped {window : Window} (h : window.first ≤ window.last)
    (tail : SequenceId) : (window.clamped tail).first ≤ (window.clamped tail).last := by
  unfold clamped
  split
  · next hspeculative => exact (isSpeculative_iff.1 hspeculative).1
  · exact h

/-- A window is never cut back further than to the end of the log. -/
theorem tail_le_last_clamped {window : Window} {tail : SequenceId} (h : tail ≤ window.last) :
    tail ≤ (window.clamped tail).last := by
  unfold clamped
  split
  · exact Nat.le_refl tail
  · exact h

end Window

end EventSourcing
