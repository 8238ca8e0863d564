import EventSourcing.Proofs.Repository.Counting
import EventSourcing.Proofs.Store.Decision

namespace EventSourcing.Repository.Counting

open Store

variable {State Command E : Type} (counting : Counting)

/-- As many positions, from this one on. None is taken before the one behind it has been found. -/
def positionsFrom? : (first : SequenceId) → (count : Nat) → Option (List SequenceId)
  | _, 0 => some []
  | first, count + 1 =>
    match counting.next? first with
    | none => none
    | some following => (positionsFrom? following count).map (first :: ·)

/-- Puts domain events behind position `last` of a stream, if there are positions for them. -/
def record? (key : AggregateKey) (source : Uuid) (last : SequenceId) (events : List E) :
    Option (List (RecordedEvent E)) :=
  match counting.next? last with
  | none => none
  | some first => (counting.positionsFrom? first events.length).map fun positions =>
    positions.zipWith (fun position event => ⟨key, position, event, source⟩) events

/-- Judges a command on a stream and appends its new events. Nothing comes of it if there are no
positions for them. -/
def judge (domain : Domain State Command E) (delivers : Bool) (key : AggregateKey)
    (command : Command) (state : State) (stream : List (RecordedEvent E)) :
    Store.Operation E (Option (Except (AttemptError State Command) (CommandResult State E))) :=
  let last := lastPosition stream
  if stream.any fun event => event.sourceId = domain.commandId command then
    return some (.ok ⟨last, [], state, true⟩)
  else
    match domain.processor key.type with
    | none => return some (.error (.final (.missingProcessor key.type)))
    | some processor =>
      match Domain.decide processor command state with
      | .failure errors =>
        return some (.error (.final (.commandFailed ⟨key, last, state, command, errors⟩)))
      | .success events =>
        match counting.record? key (domain.commandId command) last events with
        | none => return none
        | some newEvents =>
          some <$> storeResult delivers key
            ⟨(newEvents.getLast?.map (·.sequenceId)).getD last, newEvents,
              domain.fold state events, false⟩

/-- One attempt at a command. -/
def attempt (domain : Domain State Command E) (delivers : Bool) (key : AggregateKey)
    (command : Command) :
    Store.Operation E (Option (Except (AttemptError State Command) (CommandResult State E))) := do
  match ← replay domain key with
  | .error error => return some (.error (.final error))
  | .ok (state, stream) => counting.judge domain delivers key command state stream

def attemptUpTo (domain : Domain State Command E) (delivers : Bool) (key : AggregateKey)
    (command : Command) : (retries number : Nat) →
    Store.Operation E (Option (Except (StoreError State Command) (CommandResult State E)))
  | retries, number => do
    match ← counting.attempt domain delivers key command with
    | none => return none
    | some (.ok result) => return some (.ok result)
    | some (.error (.final error)) => return some (.error error)
    | some (.error (.conflict cause)) =>
      ask (.reached .conflicted key)
      match retries with
      | 0 =>
        ask (.report (.retriesExhausted number))
        return some (.error (.concurrency number cause))
      | retries + 1 => attemptUpTo domain delivers key command retries (number + 1)

/-- Runs a command, with nothing as its outcome if it has counted too far. -/
def processCommand (domain : Domain State Command E) (config : StoreConfig) (delivers : Bool)
    (key : AggregateKey) (command : Command) :
    Store.Operation E (Option (Except (StoreError State Command) (CommandResult State E))) :=
  counting.attemptUpTo domain delivers key command config.retryLimit.value 1

theorem positionsFrom?_unbounded (first : SequenceId) (count : Nat) :
    unbounded.positionsFrom? first count = some (List.range' first count) := by
  induction count generalizing first with
  | zero => rfl
  | succ count ih =>
    change (unbounded.positionsFrom? (first + 1) count).map (first :: ·) = _
    rw [ih, List.range'_succ]
    rfl

theorem record?_unbounded (key : AggregateKey) (source : Uuid) (last : SequenceId)
    (events : List E) :
    unbounded.record? key source last events = some (record key source last events) := by
  have hzip : ∀ (events : List E) (first : SequenceId),
      (List.range' (first + 1) events.length).zipWith
        (fun position event => (⟨key, position, event, source⟩ : RecordedEvent E)) events =
        record key source first events := by
    intro events
    induction events with
    | nil => exact fun _ => rfl
    | cons event rest ih => exact fun first => congrArg (_ :: ·) (ih (first + 1))
  change (unbounded.positionsFrom? (last + 1) events.length).map _ = _
  rw [positionsFrom?_unbounded, Option.map_some, hzip]

variable (domain : Domain State Command E) (delivers : Bool) (key : AggregateKey)
  (command : Command)

theorem attempt_unbounded : unbounded.attempt domain delivers key command =
    some <$> Store.attempt domain delivers key command := by
  unfold attempt Store.attempt
  rw [map_bind]
  refine bind_congr fun replayed => ?_
  cases replayed with
  | error error => rfl
  | ok found =>
    dsimp only [judge]
    split
    · rfl
    cases domain.processor key.type with
    | none => rfl
    | some processor =>
      dsimp only
      cases Domain.decide processor command found.1 with
      | failure errors => rfl
      | success events =>
        dsimp only
        rw [record?_unbounded, storeEvents_eq]

theorem attemptUpTo_unbounded (retries number : Nat) :
    unbounded.attemptUpTo domain delivers key command retries number =
      some <$> Store.attemptUpTo domain delivers key command retries number := by
  induction retries generalizing number with
  | zero =>
    rw [attemptUpTo, Store.attemptUpTo, attempt_unbounded, map_bind, bind_map_left]
    refine bind_congr fun ending => ?_
    rcases ending with (cause | error) | result <;> rfl
  | succ retries ih =>
    rw [attemptUpTo, Store.attemptUpTo, attempt_unbounded, map_bind, bind_map_left]
    refine bind_congr fun ending => ?_
    rcases ending with (cause | error) | result
    · exact bind_congr fun _ => ih (number + 1)
    · rfl
    · rfl

/-- Without bounds this is how a store processes a command. -/
theorem processCommand_unbounded (config : StoreConfig) :
    unbounded.processCommand domain config delivers key command =
      some <$> Store.processCommand domain config delivers key command :=
  attemptUpTo_unbounded domain delivers key command config.retryLimit.value 1

end EventSourcing.Repository.Counting
