import EventSourcing.Store.ProcessCommand

namespace EventSourcing.Store

variable {State Command E : Type}

/-- What a command comes to, judged on a stream. -/
def decision (domain : Domain State Command E) (key : AggregateKey) (command : Command)
    (events : List (RecordedEvent E)) :
    Except (StoreError State Command) (CommandResult State E) :=
  match domain.fresh key.type with
  | none => .error (.missingAggregate key.type)
  | some fresh =>
    let state := domain.fold fresh (events.map (·.payload))
    let last := lastPosition events
    if events.any fun event => event.sourceId = domain.commandId command then
      .ok ⟨last, [], state, true⟩
    else
      match domain.processor key.type with
      | none => .error (.missingProcessor key.type)
      | some processor =>
        match Domain.decide processor command state with
        | .failure errors => .error (.commandFailed ⟨key, last, state, command, errors⟩)
        | .success events =>
          let newEvents := record key (domain.commandId command) last events
          .ok ⟨(newEvents.getLast?.map (·.sequenceId)).getD last, newEvents,
            domain.fold state events, false⟩

/-- The events that a command leads to. -/
def newEvents : Except (StoreError State Command) (CommandResult State E) →
    List (RecordedEvent E)
  | .error _ => []
  | .ok result => result.newEvents

/-- Appends the new events of a result. -/
def storeResult (delivers : Bool) (key : AggregateKey) (result : CommandResult State E) :
    Operation E (Except (AttemptError State Command) (CommandResult State E)) := do
  ask (.reached .prepared key)
  match ← ask (.appendEvents key result.newEvents) with
  | .error cause =>
    return .error (if cause.isTransient then .conflict cause else .final (.repository cause))
  | .ok _ =>
    ask (.reached .appended key)
    scheduleDelivery (delivers && !result.newEvents.isEmpty)
    ask (.reached .published key)
    return .ok result

theorem storeEvents_eq (domain : Domain State Command E) (delivers : Bool) (key : AggregateKey)
    (command : Command) (state : State) (last : SequenceId) (events : List E) :
    storeEvents domain delivers key command state last events = storeResult delivers key
      ⟨((record key (domain.commandId command) last events).getLast?.map (·.sequenceId)).getD last,
        record key (domain.commandId command) last events, domain.fold state events, false⟩ := by
  unfold storeEvents storeResult
  refine congrArg (Program.ask _) (funext fun _ => ?_)
  refine congrArg (Program.ask _) (funext fun answer => ?_)
  cases answer with
  | error cause => rfl
  | ok _ => rfl

/-- Carries out a decision: the result is stored, unless it is that of a repeated command. -/
def carryOut (delivers : Bool) (key : AggregateKey) :
    Except (StoreError State Command) (CommandResult State E) →
      Operation E (Except (AttemptError State Command) (CommandResult State E))
  | .error error => return .error (.final error)
  | .ok result => if result.isDuplicate then return .ok result else storeResult delivers key result

theorem attempt_eq (domain : Domain State Command E) (delivers : Bool) {key : AggregateKey}
    (command : Command) {fresh : State} (hfresh : domain.fresh key.type = some fresh) :
    attempt domain delivers key command = .ask (.listEvents key) fun listing =>
      match listing with
      | .error cause => .done (.error (.final (.repository cause)))
      | .ok stream => carryOut delivers key (decision domain key command stream) := by
  unfold attempt replay
  rw [hfresh]
  refine congrArg (Program.ask _) (funext fun listing => ?_)
  cases listing with
  | error cause => rfl
  | ok stream =>
    change (if _ then _ else _ : Operation E _) = carryOut delivers key _
    unfold decision
    rw [hfresh]
    dsimp only
    split
    · rfl
    · cases domain.processor key.type with
      | none => rfl
      | some processor =>
        dsimp only
        cases Domain.decide processor command _ with
        | failure errors => rfl
        | success events => exact storeEvents_eq domain delivers key command _ _ events

end EventSourcing.Store
