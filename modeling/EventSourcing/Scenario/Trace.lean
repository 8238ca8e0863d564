import EventSourcing.Delivery.Error
import EventSourcing.LogRecord
import EventSourcing.Scenario.Op
import EventSourcing.Store.ProcessCommand

namespace EventSourcing.Scenario

structure Stream where
  key : AggregateKey
  events : List (RecordedEvent Round.Event)

/-- The state of a repository as far as it can be seen from outside. -/
structure Dump where
  streams : List Stream
  undelivered : List (UndeliveredEvents Round.Event)

inductive Reply where
  | done
  | identifierError (error : IdentifierError)
  | repositoryError (error : RepositoryError)
  | storeError (error : StoreError Round.State Command)
  | publishError (error : PublishError)
  | deliveryError (error : DeliveryError)
  | queueError (error : QueueError)
  | events (events : List (RecordedEvent Round.Event))
  /-- The listing is left out where its content is not determined. -/
  | undelivered (listing : Option (List (UndeliveredEvents Round.Event))) (total : Nat)
      (anyEmpty : Bool)
  | ids (ids : List AggregateId)
  | result (result : CommandResult Round.State Round.Event)
  | state (state : Round.State)
  | number (value : Nat)
  | flag (value : Bool)
  | cancellation (isCancelled ready : Bool)
  | ran
  | itemFailed (text : String)
  | wouldBlock
  | text (text : String)
  | dump (dump : Dump)

/-- Something that happened while an operation ran. -/
inductive Entry where
  | reached (place : Place) (key : AggregateKey)
  | answered (op : String) (reply : Reply) (trace : List Entry)
  | received (subscriber : String) (message : Message)
  | started (label : String) (isCancelled : Bool)
  | reported (record : LogRecord)

end EventSourcing.Scenario
