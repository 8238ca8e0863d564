import EventSourcing.Queue.Error

namespace EventSourcing

/-- The items that wait, first come first. -/
structure TaskQueue (Item : Type) where
  items : List Item
  isClosed : Bool
  deriving DecidableEq

/-- What comes of asking a queue for its front item. -/
inductive Taken (Item : Type) where
  | item (item : Item)
  /-- There is no item, but one may still come. -/
  | notYet
  | failed (error : QueueError)
  deriving DecidableEq

/-- What the queue answers, unless it has no answer yet. -/
def Taken.answer? {Item : Type} : Taken Item → Option (Except QueueError Item)
  | item front => some (.ok front)
  | notYet => none
  | failed error => some (.error error)

namespace TaskQueue

variable {Item : Type}

protected def empty : TaskQueue Item :=
  ⟨[], false⟩

def enqueue (queue : TaskQueue Item) (item : Item) : Except QueueError (TaskQueue Item) :=
  if queue.isClosed then .error .closed else .ok { queue with items := queue.items ++ [item] }

/-- Closes the queue. Only one who holds its receiving end can do so. -/
def close (queue : TaskQueue Item) : TaskQueue Item :=
  { queue with isClosed := true }

/-- Takes the front item for someone whose token is `cancelled` or not. A cancellation comes before
any item, and a closed queue fails only once it is empty. Unless it is cancelled, only one who holds
the receiving end of the queue can do so. -/
def dequeue (queue : TaskQueue Item) (cancelled : Bool) : Taken Item × TaskQueue Item :=
  if cancelled then
    (.failed .cancelled, queue)
  else
    match queue.items with
    | item :: rest => (.item item, { queue with items := rest })
    | [] => (if queue.isClosed then .failed .closed else .notYet, queue)

/-- Begins to wait for the items of a queue: puts a marker behind them, which tells that they have
been run when it is run itself. The waiting ends at once if the waiter's token is `cancelled`; the
marker stays where it is. -/
def beginWait (queue : TaskQueue Item) (marker : Item) (cancelled : Bool) :
    Except QueueError Unit × TaskQueue Item :=
  match queue.enqueue marker with
  | .error error => (.error error, queue)
  | .ok queue => (if cancelled then .error .cancelled else .ok (), queue)

/-- What waiting for a marker comes to once it can end: the token is `cancelled`, or the marker was
run, or it is lost without having been run. A cancellation comes before the others. -/
def endWait (isReached cancelled : Bool) : Except QueueError Unit :=
  if cancelled then .error .cancelled else if isReached then .ok () else .error .closed

end TaskQueue

end EventSourcing
