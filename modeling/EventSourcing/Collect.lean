namespace EventSourcing

/-- What went wrong while all items were visited. -/
inductive CollectedError (ε : Type) where
  /-- A cancellation kept some items from being visited. -/
  | cancelled
  /-- All items were visited, and these are the failures in item order. -/
  | failed (errors : List ε)
  deriving DecidableEq, Repr

namespace CollectedError

variable {ε : Type}

def message : CollectedError ε → String
  | cancelled => "Operation cancelled"
  | failed errors =>
    let count := errors.length
    s!"{count} operation(s) failed"

def single? : CollectedError ε → Option ε
  | failed [error] => some error
  | _ => none

end CollectedError

section ForEach

variable {m : Type → Type} [Monad m] {α ε : Type}

/-- Visits the items after some have failed with `errors`. -/
def forEachCollectingFrom (isCancelled : m Bool) (visit : α → m (Except ε Unit)) :
    (errors : List ε) → List α → m (Except (CollectedError ε) Unit)
  | [], [] => return .ok ()
  | errors@(_ :: _), [] => return .error (.failed errors)
  | errors, item :: rest => do
    if ← isCancelled then
      return .error .cancelled
    match ← visit item with
    | .ok _ => forEachCollectingFrom isCancelled visit errors rest
    | .error error => forEachCollectingFrom isCancelled visit (errors ++ [error]) rest

/-- Visits all items in order unless a cancellation is found before one of them. -/
def forEachCollecting (isCancelled : m Bool) (visit : α → m (Except ε Unit)) (items : List α) :
    m (Except (CollectedError ε) Unit) :=
  forEachCollectingFrom isCancelled visit [] items

end ForEach

end EventSourcing
