namespace EventSourcing.Repository

/-- A place inside a repository operation. -/
inductive Checkpoint where
  /-- A batch has been checked against the log it was compared with. -/
  | appendValidated
  /-- The window has been widened to the batch. -/
  | appendMarkedUndelivered
  | appendConflicted
  | appendCommitted
  /-- The first pass of recording a delivery begins. -/
  | markDeliveredStarted
  /-- A later pass of recording a delivery begins. -/
  | markDeliveredConflicted
  | markDeliveredEnded
  /-- The first pass of widening a window begins. -/
  | markUndeliveredStarted
  /-- A later pass of widening a window begins. -/
  | markUndeliveredConflicted
  /-- A window that is wide enough stays as it is. -/
  | undeliveredWindowKept
  /-- A speculative window is about to be cut back. -/
  | undeliveredWindowClamped
  deriving DecidableEq, Repr

namespace Checkpoint

def all : List Checkpoint :=
  [appendValidated, appendMarkedUndelivered, appendConflicted, appendCommitted,
    markDeliveredStarted, markDeliveredConflicted, markDeliveredEnded, markUndeliveredStarted,
    markUndeliveredConflicted, undeliveredWindowKept, undeliveredWindowClamped]

/-- The name under which a checkpoint is reported. -/
def name : Checkpoint → String
  | appendValidated => "AppendValidated"
  | appendMarkedUndelivered => "AppendMarkedUndelivered"
  | appendConflicted => "AppendConflicted"
  | appendCommitted => "AppendCommitted"
  | markDeliveredStarted => "MarkDeliveredStarted"
  | markDeliveredConflicted => "MarkDeliveredConflicted"
  | markDeliveredEnded => "MarkDeliveredEnded"
  | markUndeliveredStarted => "MarkUndeliveredStarted"
  | markUndeliveredConflicted => "MarkUndeliveredConflicted"
  | undeliveredWindowKept => "UndeliveredWindowKept"
  | undeliveredWindowClamped => "UndeliveredWindowClamped"

def ofName? (name : String) : Option Checkpoint :=
  all.find? fun checkpoint => checkpoint.name == name

end Checkpoint

end EventSourcing.Repository
