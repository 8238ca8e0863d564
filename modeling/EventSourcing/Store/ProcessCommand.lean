import EventSourcing.Limit
import EventSourcing.Store.Basic

namespace EventSourcing

structure CommandResult (State E : Type) where
  /-- The last event that `state` is folded from, zero for none. -/
  lastSequenceId : SequenceId
  newEvents : List (RecordedEvent E)
  state : State
  /-- The stream already held events of this very command. -/
  isDuplicate : Bool

namespace Store

variable {State Command E : Type}

/-- The last position of a listed stream, zero if it is empty. -/
def lastPosition (events : List (RecordedEvent E)) : SequenceId :=
  (events.getLast?.map (·.sequenceId)).getD 0

/-- Positions that begin with one end with the number of events. -/
theorem lastPosition_eq_length {events : List (RecordedEvent E)}
    (h : events.map (·.sequenceId) = List.range' 1 events.length) :
    lastPosition events = events.length := by
  rw [lastPosition, ← List.getLast?_map, h, List.getLast?_range']
  split
  · next hempty => exact hempty.symm
  · change 1 + events.length - 1 = events.length
    lia

/-- Puts domain events behind position `last` of a stream. -/
def record (key : AggregateKey) (source : Uuid) : (last : SequenceId) → List E →
    List (RecordedEvent E)
  | _, [] => []
  | last, event :: rest => ⟨key, last + 1, event, source⟩ :: record key source (last + 1) rest

section Record

variable (key : AggregateKey) (source : Uuid) (last : SequenceId) (events : List E)

@[simp]
theorem length_record : (record key source last events).length = events.length := by
  induction events generalizing last with
  | nil => rfl
  | cons event rest ih => simp [record, ih]

@[simp]
theorem map_payload_record : (record key source last events).map (·.payload) = events := by
  induction events generalizing last with
  | nil => rfl
  | cons event rest ih => simp [record, ih]

theorem map_sequenceId_record :
    (record key source last events).map (·.sequenceId) = List.range' (last + 1) events.length := by
  induction events generalizing last with
  | nil => rfl
  | cons event rest ih => simp [record, ih, List.range'_succ]

theorem sourceId_of_mem_record {event : RecordedEvent E}
    (h : event ∈ record key source last events) : event.sourceId = source := by
  induction events generalizing last with
  | nil => cases h
  | cons first rest ih =>
    rcases List.mem_cons.1 h with rfl | h
    · rfl
    · exact ih (last + 1) h

theorem key_of_mem_record {event : RecordedEvent E} (h : event ∈ record key source last events) :
    event.key = key := by
  induction events generalizing last with
  | nil => cases h
  | cons first rest ih =>
    rcases List.mem_cons.1 h with rfl | h
    · rfl
    · exact ih (last + 1) h

/-- The last of the recorded events stands as far behind `last` as there are events. -/
theorem lastSequenceId_record :
    ((record key source last events).getLast?.map (·.sequenceId)).getD last =
      last + events.length := by
  rw [← List.getLast?_map, map_sequenceId_record, List.getLast?_range']
  split
  · next hempty => simp [hempty]
  · change last + 1 + events.length - 1 = last + events.length
    lia

end Record

/-- Why an attempt gives no result. -/
inductive AttemptError (State Command : Type) where
  /-- The append lost its race, so another attempt may succeed. -/
  | conflict (cause : RepositoryError)
  | final (error : StoreError State Command)

/-- The state of an aggregate with the stream that it is folded from. -/
def replay (domain : Domain State Command E) (key : AggregateKey) :
    Operation E (Except (StoreError State Command) (State × List (RecordedEvent E))) := do
  let some fresh := domain.fresh key.type | return .error (.missingAggregate key.type)
  match ← ask (.listEvents key) with
  | .error cause => return .error (.repository cause)
  | .ok events => return .ok (domain.fold fresh (events.map (·.payload)), events)

/-- Asks for a delivery run if one is wanted; that none can be scheduled is only reported. -/
def scheduleDelivery (isWanted : Bool) : Operation E Unit :=
  if isWanted then do
    match ← ask .scheduleDelivery with
    | .ok _ => return
    | .error error => ask (.report (.schedulingFailed error))
  else
    return

def storeEvents (domain : Domain State Command E) (delivers : Bool) (key : AggregateKey)
    (command : Command) (state : State) (last : SequenceId) (events : List E) :
    Operation E (Except (AttemptError State Command) (CommandResult State E)) := do
  let newEvents := record key (domain.commandId command) last events
  ask (.reached .prepared key)
  match ← ask (.appendEvents key newEvents) with
  | .error cause =>
    return .error (if cause.isTransient then .conflict cause else .final (.repository cause))
  | .ok _ =>
    ask (.reached .appended key)
    scheduleDelivery (delivers && !newEvents.isEmpty)
    ask (.reached .published key)
    return .ok {
      lastSequenceId := (newEvents.getLast?.map (·.sequenceId)).getD last
      newEvents
      state := domain.fold state events
      isDuplicate := false }

/-- One attempt at a command. -/
def attempt (domain : Domain State Command E) (delivers : Bool) (key : AggregateKey)
    (command : Command) :
    Operation E (Except (AttemptError State Command) (CommandResult State E)) := do
  match ← replay domain key with
  | .error error => return .error (.final error)
  | .ok (state, events) =>
    let last := lastPosition events
    if events.any fun event => event.sourceId = domain.commandId command then
      return .ok ⟨last, [], state, true⟩
    else
      match domain.processor key.type with
      | none => return .error (.final (.missingProcessor key.type))
      | some processor =>
        match Domain.decide processor command state with
        | .failure errors =>
          return .error (.final (.commandFailed ⟨key, last, state, command, errors⟩))
        | .success events => storeEvents domain delivers key command state last events

/-- Attempts a command, with `retries` more attempts if races are lost; this is attempt number
`number`. -/
def attemptUpTo (domain : Domain State Command E) (delivers : Bool) (key : AggregateKey)
    (command : Command) : (retries number : Nat) →
    Operation E (Except (StoreError State Command) (CommandResult State E))
  | retries, number => do
    match ← attempt domain delivers key command with
    | .ok result => return .ok result
    | .error (.final error) => return .error error
    | .error (.conflict cause) =>
      ask (.reached .conflicted key)
      match retries with
      | 0 =>
        ask (.report (.retriesExhausted number))
        return .error (.concurrency number cause)
      | retries + 1 => attemptUpTo domain delivers key command retries (number + 1)

/-- Runs a command against an aggregate and appends the events it leads to. `delivers` says whether
there is anyone to schedule deliveries with. -/
def processCommand (domain : Domain State Command E) (config : StoreConfig) (delivers : Bool)
    (key : AggregateKey) (command : Command) :
    Operation E (Except (StoreError State Command) (CommandResult State E)) :=
  attemptUpTo domain delivers key command config.retryLimit.value 1

def getAggregate (domain : Domain State Command E) (key : AggregateKey) :
    Operation E (Except (StoreError State Command) State) := do
  match ← replay domain key with
  | .error error => return .error error
  | .ok (state, _) => return .ok state

end Store

end EventSourcing
