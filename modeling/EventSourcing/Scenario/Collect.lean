import EventSourcing.Cancellation
import EventSourcing.Collect

namespace EventSourcing.Scenario

/-- An item that fails with a text, if one is given, and may cancel the token. -/
structure CollectItem where
  failure : Option String
  cancels : Bool
  deriving DecidableEq, Repr

/-- What is known after some items have been visited. -/
structure CollectRun where
  seen : List Nat
  isCancelled : Bool
  deriving DecidableEq, Repr

namespace CollectItem

def visit : Nat × CollectItem → StateM CollectRun (Except String Unit)
  | (position, item) => do
    modify fun run =>
      { seen := run.seen ++ [position], isCancelled := run.isCancelled || item.cancels }
    match item.failure with
    | some text => return .error text
    | none => return .ok ()

/-- Visits all items, with a token that is cancelled beforehand or not; `withToken` says whether
cancellations are looked for. -/
def visitAll (withToken preCancelled : Bool) (items : List CollectItem) :
    Except (CollectedError String) Unit × CollectRun :=
  let isCancelled : StateM CollectRun Bool := do return withToken && (← get).isCancelled
  let positioned := (List.range items.length).zip items
  (forEachCollecting isCancelled visit positioned).run ⟨[], preCancelled⟩

end CollectItem

end EventSourcing.Scenario
