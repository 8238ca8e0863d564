namespace EventSourcing

/-- A request to stop that may or may not have been made yet. -/
structure CancellationToken where
  number : Nat
  deriving DecidableEq, Repr

/-- The tokens handed out so far and those cancelled. -/
structure Cancellations where
  issued : Nat
  cancelled : List CancellationToken
  deriving DecidableEq, Repr

namespace Cancellations

protected def empty : Cancellations :=
  ⟨0, []⟩

def issue (cancellations : Cancellations) : CancellationToken × Cancellations :=
  (⟨cancellations.issued⟩, { cancellations with issued := cancellations.issued + 1 })

/-- Cancels a token; a cancelled one stays so. -/
def cancel (cancellations : Cancellations) (token : CancellationToken) : Cancellations :=
  if token ∈ cancellations.cancelled then
    cancellations
  else
    { cancellations with cancelled := token :: cancellations.cancelled }

def isCancelled (cancellations : Cancellations) (token : CancellationToken) : Bool :=
  token ∈ cancellations.cancelled

theorem isCancelled_cancel (cancellations : Cancellations) (token other : CancellationToken) :
    (cancellations.cancel token).isCancelled other =
      (other = token || cancellations.isCancelled other) := by
  unfold cancel isCancelled
  split
  · by_cases h : other = token <;> simp_all
  · simp

end Cancellations

end EventSourcing
