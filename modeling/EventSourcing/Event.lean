import EventSourcing.Identifier
import EventSourcing.Uuid

namespace EventSourcing

/-- The position of an event in its stream; the first event has position 1. -/
abbrev SequenceId :=
  Nat

/-- A domain event with the stream it stands in, its position there and its cause. -/
structure RecordedEvent (E : Type) where
  key : AggregateKey
  sequenceId : SequenceId
  payload : E
  sourceId : Uuid
  deriving DecidableEq

namespace RecordedEvent

variable {E : Type}

def belongsTo (event : RecordedEvent E) (key : AggregateKey) : Bool :=
  event.key = key

end RecordedEvent

/-- Events of one aggregate that are still to be delivered, in stream order. -/
structure UndeliveredEvents (E : Type) where
  key : AggregateKey
  events : List (RecordedEvent E)

namespace UndeliveredEvents

variable {E : Type}

def lastSequenceId? (undelivered : UndeliveredEvents E) : Option SequenceId :=
  undelivered.events.getLast?.map (·.sequenceId)

end UndeliveredEvents

end EventSourcing
