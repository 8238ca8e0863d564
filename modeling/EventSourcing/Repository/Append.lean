import EventSourcing.Limit
import EventSourcing.Repository.Basic

namespace EventSourcing.Repository

variable {E : Type}

/-- Whether each position is one more than the position before it. -/
def contiguous : List (RecordedEvent E) → Bool
  | [] => true
  | [_] => true
  | first :: second :: rest =>
    second.sequenceId == first.sequenceId + 1 && contiguous (second :: rest)

/-- The first fault of a batch that begins with `first`, whatever the log. -/
def batchFault? (key : AggregateKey) (first : RecordedEvent E) (rest : List (RecordedEvent E)) :
    Option RepositoryError :=
  if first.sequenceId = 0 then
    some .firstIdZero
  else if !contiguous (first :: rest) then
    some .idsNotContiguous
  else if !(first :: rest).all (·.belongsTo key) then
    some (.foreignEvent key)
  else
    none

/-- The passes of widening the window of `key` to the range from `first` to `last`; `tail` is the
end of the log that the batch was checked against. -/
def widenWindow (key : AggregateKey) (tail first last : SequenceId) :
    (passes : Nat) → (checkpoint : Checkpoint) → Operation E (Result Unit)
  | 0, _ => return .error (.liveLock key)
  | passes + 1, checkpoint => do
    reached checkpoint key
    let (current, inserted) ← step (.windows (.getOrInsert key (.opened first last)))
    if inserted then
      return .ok ()
    else if last < current.value.last && !current.value.isSpeculative tail then
      reached .undeliveredWindowKept key
      return .ok ()
    else if first < current.value.first then
      return .error (.beforeWindow first current.value.first)
    else
      let swapped ←
        step (.windows (.compareAndSwap key current (current.value.widened first last)))
      if swapped then return .ok ()
      else widenWindow key tail first last passes .markUndeliveredConflicted

/-- Makes the window of `key` cover the range of a batch that is about to be committed. -/
def markUndelivered (config : RepositoryConfig) (key : AggregateKey)
    (tail first last : SequenceId) : Operation E (Result Unit) :=
  if last < first || first ≤ tail then
    return .error (.rangeWithinLog first last tail)
  else
    widenWindow key tail first last config.liveLockLimit.value .markUndeliveredStarted

/-- The passes of adding an aggregate to the index of its type. -/
def addToIndex (key : AggregateKey) : (passes : Nat) → Operation E (Result Unit)
  | 0 => return .error (.liveLock key)
  | passes + 1 => do
    let (current, _) ← step (.indexes (.getOrInsert key.type .empty))
    if key.id ∈ current.value.ids then
      return .error (.duplicateId key)
    else
      let swapped ←
        step (.indexes (.compareAndSwap key.type current (current.value.insert key.id)))
      if swapped then return .ok () else addToIndex key passes

/-- Makes a batch the end of the log that it was checked against, after widening the window to it;
`false` if the log is another by now. A batch that begins inside the log is lost from the start. -/
def commit (config : RepositoryConfig) (key : AggregateKey) (seen : Snapshot (EventLog E))
    (first last : SequenceId) (batch : List (RecordedEvent E)) : Operation E (Result Bool) :=
  if first ≤ seen.value.tail then
    return .ok false
  else do
    match ← markUndelivered config key seen.value.tail first last with
    | .error error => return .error error
    | .ok _ =>
      reached .appendMarkedUndelivered key
      let swapped ← step (.logs (.compareAndSwap key seen (seen.value.append batch)))
      return .ok swapped

/-- Reports how the race to commit ended, and adds a new aggregate to the index of its type. -/
def conclude (config : RepositoryConfig) (key : AggregateKey) (isNew committed : Bool) :
    Operation E (Result Unit) :=
  if committed then do
    reached .appendCommitted key
    if isNew then addToIndex key config.liveLockLimit.value else return .ok ()
  else do
    reached .appendConflicted key
    return .error (.optimisticConcurrency key)

/-- Appends a batch without faults of its own, from `first` to `last`. -/
def appendChecked (config : RepositoryConfig) (key : AggregateKey) (first last : SequenceId)
    (batch : List (RecordedEvent E)) : Operation E (Result Unit) := do
  let (seen, _) ← step (.logs (.getOrInsert key .empty))
  if seen.value.tail + 1 < first then
    return .error (.gap (seen.value.tail + 1) first)
  else
    reached .appendValidated key
    match ← commit config key seen first last batch with
    | .error error => return .error error
    | .ok committed => conclude config key (seen.value.tail == 0) committed

/-- Appends a batch to the log of an aggregate, as a whole or not at all. An empty batch is
accepted without a look at the log. -/
def append (config : RepositoryConfig) (key : AggregateKey) :
    List (RecordedEvent E) → Operation E (Result Unit)
  | [] => return .ok ()
  | first :: rest =>
    match batchFault? key first rest with
    | some fault => return .error fault
    | none =>
      let last := (rest.getLast?.getD first).sequenceId
      appendChecked config key first.sequenceId last (first :: rest)

end EventSourcing.Repository
