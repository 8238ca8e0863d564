import EventSourcing.LogRecord
import EventSourcing.Queue.Basic

namespace EventSourcing.Worker

variable {m : Type → Type} [Monad m] {Item : Type}

/-- Runs an item that has been taken, and reports its failure. -/
def runItem (work : Item → m (Except String Unit)) (report : LogRecord → m Unit) (item : Item) :
    m Unit := do
  match ← work item with
  | .ok _ => return
  | .error text => report (.workItemFailed text)

/-- Does what is due once the queue has answered, and tells whether the worker goes on. -/
def handle (work : Item → m (Except String Unit)) (report : LogRecord → m Unit) :
    Except QueueError Item → m Bool
  | .ok item => do
    runItem work report item
    return true
  | .error _ => return false

/-- One round of a worker. Rounds follow one another as long as it goes on. -/
def round (take : m (Except QueueError Item)) (work : Item → m (Except String Unit))
    (report : LogRecord → m Unit) : m Bool := do
  handle work report (← take)

/-- Lets a worker have so many rounds, each of them only if the queue can answer at once. -/
def run (take : m (Taken Item)) (work : Item → m (Except String Unit))
    (report : LogRecord → m Unit) : (rounds : Nat) → m Unit
  | 0 => return
  | rounds + 1 => do
    match (← take).answer? with
    | none => return
    | some outcome =>
      if ← handle work report outcome then run take work report rounds else return

end EventSourcing.Worker
