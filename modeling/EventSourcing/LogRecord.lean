import EventSourcing.Identifier
import EventSourcing.Queue.Error

namespace EventSourcing

/-- How serious an incident is. -/
inductive LogLevel where
  | warn
  | error
  deriving DecidableEq, Repr

namespace LogLevel

def name : LogLevel → String
  | warn => "WARN"
  | error => "ERROR"

end LogLevel

/-- The value of a field of a record. -/
inductive LogValue where
  | text (value : String)
  | number (value : Nat)
  deriving DecidableEq, Repr

/-- An incident worth reporting. -/
inductive LogRecord where
  /-- A window reached past the log and is cut back. -/
  | clampingWindow (aggregate : AggregateKey) (windowLast tail : Nat)
  | retriesExhausted (attempts : Nat)
  | schedulingFailed (error : QueueError)
  | workItemFailed (text : String)
  deriving DecidableEq

namespace LogRecord

def level : LogRecord → LogLevel
  | clampingWindow _ _ _ => .warn
  | retriesExhausted _ => .warn
  | schedulingFailed _ => .warn
  | workItemFailed _ => .error

def message : LogRecord → String
  | clampingWindow _ _ _ => "Clamping undelivered window left by a lost append"
  | retriesExhausted _ => "Optimistic concurrency retries exhausted"
  | schedulingFailed _ => "Failed to schedule event delivery"
  | workItemFailed _ => "background work item failed"

def fields : LogRecord → List (String × LogValue)
  | clampingWindow aggregate windowLast tail =>
    [("aggregate", .text (toString aggregate)), ("window_last", .number windowLast),
      ("tail", .number tail)]
  | retriesExhausted attempts => [("attempts", .number attempts)]
  | schedulingFailed error => [("error", .text error.message)]
  | workItemFailed text => [("error", .text text)]

end LogRecord

end EventSourcing
