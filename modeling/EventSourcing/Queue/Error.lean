namespace EventSourcing

inductive QueueError where
  | closed
  | cancelled
  deriving DecidableEq, Repr

namespace QueueError

def message : QueueError → String
  | closed => "Background task queue is closed"
  | cancelled => "Waiting on the background task queue was cancelled"

end QueueError

end EventSourcing
