import EventSourcing.Limit
import EventSourcing.Repository.Basic

namespace EventSourcing.Repository

variable {E : Type}

/-- Puts `updated` in the place of a window, or removes the window if nothing of it is left to
deliver; `false` if the window is another by now. -/
def settleWindow (key : AggregateKey) (current : Snapshot Window) (updated : Window) :
    Operation E (Result Bool) := do
  if updated = current.value then
    return .ok true
  else if updated.delivered = updated.last then
    return .ok (← step (.windows (.compareAndRemove key current)))
  else if updated.delivered < updated.last then
    return .ok (← step (.windows (.compareAndSwap key current updated)))
  else
    return .error (.watermarkPastWindow key updated.delivered updated.last)

/-- Reports that a speculative window is about to be cut back to the end of the log. -/
def reportClamping (key : AggregateKey) (window : Window) (tail : SequenceId) :
    Operation E Unit :=
  if window.isSpeculative tail then do
    step (.report (.clampingWindow key window.last tail))
    reached .undeliveredWindowClamped key
  else
    return

/-- One pass of moving the watermark of an aggregate whose log ends at `tail`; `false` if the
window was changed in between. -/
def advanceWatermark (key : AggregateKey) (tail delivered : SequenceId) :
    Operation E (Result Bool) := do
  match ← step (.windows (.get key)) with
  | none => return .ok true
  | some current =>
    if current.value.last < tail then
      return .error (.windowBelowTail key current.value.last tail)
    else
      reportClamping key current.value tail
      settleWindow key current ((current.value.clamped tail).acknowledged delivered)

/-- The passes of recording a delivery. -/
def recordDelivery (key : AggregateKey) (delivered : SequenceId) :
    (passes : Nat) → (checkpoint : Checkpoint) → Operation E (Result Unit)
  | 0, _ => return .error (.liveLock key)
  | passes + 1, checkpoint => do
    reached checkpoint key
    let log ← step (.logs (.get key))
    let tail := (log.map fun current => current.value.tail).getD 0
    if tail < delivered then
      return .error (.beyondTail delivered tail)
    else
      match ← advanceWatermark key tail delivered with
      | .error error => return .error error
      | .ok true =>
        reached .markDeliveredEnded key
        return .ok ()
      | .ok false => recordDelivery key delivered passes .markDeliveredConflicted

/-- Records that all events up to a position have been delivered. Position zero says nothing, and a
position before the watermark changes nothing. -/
def markDelivered (config : RepositoryConfig) (key : AggregateKey) (delivered : SequenceId) :
    Operation E (Result Unit) :=
  if delivered = 0 then
    return .ok ()
  else
    recordDelivery key delivered config.liveLockLimit.value .markDeliveredStarted

end EventSourcing.Repository
