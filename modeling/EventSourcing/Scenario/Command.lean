import EventSourcing.Round.Command

namespace EventSourcing.Scenario

/-- A command on a round, or one with a given answer. -/
inductive Command where
  | round (command : Round.Command)
  | emit (id : Uuid) (events : List Round.Event)
  | reject (id : Uuid) (errors : List DomainError)
  | crash (id : Uuid) (text : String)
  deriving DecidableEq

namespace Command

def id : Command → Uuid
  | round command => command.id
  | emit id _ => id
  | reject id _ => id
  | crash id _ => id

def name : Command → String
  | round command => command.action.name
  | emit _ _ => "Emit"
  | reject _ _ => "Reject"
  | crash _ _ => "Crash"

/-- The processor of scenario commands. A refusal without reasons makes it fail itself. -/
def process : Processor Round.State Command Round.Event := fun command state =>
  match command with
  | round command => Round.process command state
  | emit _ events => .ok (.success events)
  | reject _ errors =>
    match DomainErrors.ofList? errors with
    | some errors => .ok (.failure errors)
    | none => .error DomainErrors.emptyMessage
  | crash _ text => .error text

end Command

/-- Rounds with scenario commands. All types that are known behave as rounds: some have aggregates,
some have a processor. -/
def domain (aggregateTypes processorTypes : List String) :
    Domain Round.State Command Round.Event where
  fresh type := if type.text ∈ aggregateTypes then some .initial else none
  apply := Round.State.apply
  processor type := if type.text ∈ processorTypes then some Command.process else none
  commandId := Command.id

end EventSourcing.Scenario
