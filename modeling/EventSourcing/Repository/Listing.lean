import EventSourcing.Repository.Basic

namespace EventSourcing.Repository

variable {E : Type}

def sliceOf (key : AggregateKey) (after : SequenceId) (max : Option Nat) :
    Operation E (List (RecordedEvent E)) := do
  match ← step (.logs (.get key)) with
  | none => return []
  | some log => return log.value.slice after max

def listEvents (key : AggregateKey) (after : SequenceId) (max : Option Nat) :
    Operation E (Result (List (RecordedEvent E))) := do
  return .ok (← sliceOf key after max)

/-- The undelivered events of the given windows, in the order given, at most `budget` of them.
Aggregates without such events are left out. -/
def pendingOf (budget : Option Nat) :
    List (AggregateKey × Snapshot Window) →
      Operation E (List (UndeliveredEvents E))
  | [] => return []
  | (key, window) :: rest =>
    if budget = some 0 then
      return []
    else do
      let events ← sliceOf key window.value.delivered budget
      if events.isEmpty then
        pendingOf budget rest
      else
        let others ← pendingOf (budget.map fun budget => budget - events.length) rest
        return ⟨key, events⟩ :: others

/-- Lists the undelivered events of all aggregates, at most `max` of them in all. -/
def listUndelivered (max : Option Nat) : Operation E (Result (List (UndeliveredEvents E))) :=
  if max = some 0 then
    return .error .zeroMaxCount
  else do
    let windows ← step (.windows .entries)
    return .ok (← pendingOf max windows)

/-- Lists the ids of a type in ascending order, behind `after`, at most `max` of them. -/
def listIds (type : AggregateType) (after : Option AggregateId) (max : Option Nat) :
    Operation E (Result (List AggregateId)) := do
  match ← step (.indexes (.get type)) with
  | none => return .ok []
  | some index => return .ok (index.value.page after max)

end EventSourcing.Repository
