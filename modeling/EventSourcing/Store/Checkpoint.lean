namespace EventSourcing.Store

/-- A place inside the processing of a command. -/
inductive Checkpoint where
  /-- The new events are ready to be appended. -/
  | prepared
  | conflicted
  | appended
  /-- Delivery has been scheduled, if there is anything to deliver and anyone to do it. -/
  | published
  deriving DecidableEq, Repr

namespace Checkpoint

def all : List Checkpoint :=
  [prepared, conflicted, appended, published]

/-- The name under which a checkpoint is reported. -/
def name : Checkpoint → String
  | prepared => "Prepared"
  | conflicted => "Conflicted"
  | appended => "Appended"
  | published => "Published"

def ofName? (name : String) : Option Checkpoint :=
  all.find? fun checkpoint => checkpoint.name == name

end Checkpoint

end EventSourcing.Store
