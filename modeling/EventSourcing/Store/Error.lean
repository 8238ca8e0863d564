import EventSourcing.Domain
import EventSourcing.Repository.Error

namespace EventSourcing

/-- A command that its aggregate refused, with the state it was judged on. -/
structure CommandFailed (State Command : Type) where
  key : AggregateKey
  /-- The last event of the stream that the state was folded from, zero for none. -/
  lastSequenceId : SequenceId
  state : State
  command : Command
  errors : DomainErrors

namespace CommandFailed

variable {State Command : Type}

/-- The text of a refusal names the aggregate, its position and every reason. -/
def message (failed : CommandFailed State Command) : String :=
  let key := failed.key
  let position := failed.lastSequenceId
  let reasons := "; ".intercalate (failed.errors.toList.map toString)
  s!"command rejected by aggregate {key} at sequence id {position}: {reasons}"

end CommandFailed

/-- The failure of a store operation. -/
inductive StoreError (State Command : Type) where
  | commandFailed (failed : CommandFailed State Command)
  /-- Every attempt lost its race, the last one with `cause`. -/
  | concurrency (attempts : Nat) (cause : RepositoryError)
  | repository (cause : RepositoryError)
  | missingAggregate (type : AggregateType)
  | invariantViolation (detail : String)

namespace StoreError

variable {State Command : Type}

def message : StoreError State Command → String
  | commandFailed failed => failed.message
  | concurrency attempts _ => s!"Concurrency conflict persisted after {attempts} attempts"
  | repository cause => cause.message
  | missingAggregate type => s!"No aggregate registered for type '{type}'"
  | invariantViolation detail => s!"Invariant violation: {detail}"

/-- The texts of the errors that lie behind an error. A repository's error is passed on as it is,
so nothing lies behind it. -/
def sources : StoreError State Command → List String
  | concurrency _ cause => [cause.message]
  | commandFailed _ | repository _ | missingAggregate _ | invariantViolation _ => []

def isCommandFailed : StoreError State Command → Bool
  | commandFailed _ => true
  | concurrency _ _ | repository _ | missingAggregate _ | invariantViolation _ => false

def missingProcessor (type : AggregateType) : StoreError State Command :=
  invariantViolation s!"no command processor registered for aggregate type '{type}'"

end StoreError

end EventSourcing
