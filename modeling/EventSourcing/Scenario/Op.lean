import EventSourcing.Event
import EventSourcing.Repository.Checkpoint
import EventSourcing.Scenario.Command
import EventSourcing.Store.Checkpoint

namespace EventSourcing.Scenario

inductive Topic where
  | event
  | ping
  | text
  /-- A kind that nobody can subscribe to. -/
  | unheard
  deriving DecidableEq, Repr

inductive Message where
  | event (event : RecordedEvent Round.Event)
  | ping (number : Nat)
  | text (text : String)
  | unheard
  deriving DecidableEq

namespace Message

def topic : Message → Topic
  | event _ => .event
  | ping _ => .ping
  | text _ => .text
  | unheard => .unheard

end Message

/-- A checkpoint of the repository or of the store. -/
inductive Place where
  | repository (checkpoint : Repository.Checkpoint)
  | store (checkpoint : Store.Checkpoint)
  deriving DecidableEq, Repr

namespace Place

def hookName : Place → String
  | repository _ => "repo"
  | store _ => "store"

def checkpointName : Place → String
  | repository checkpoint => checkpoint.name
  | store checkpoint => checkpoint.name

end Place

/-- The uses of the repository that can be made to fail. -/
inductive Method where
  | appendEvents
  | listEvents
  | markDelivered
  | listUndelivered
  deriving DecidableEq, Repr

/-- What happens to a use of the repository. -/
inductive Fault where
  | pass
  | conflict
  | invalid
  | invariant
  /-- An append is done and then fails with a lost race all the same. -/
  | commitThenConflict
  /-- A listing of undelivered events gets an aggregate without events in front. -/
  | ghost
  deriving DecidableEq, Repr

/-- The text of a key. -/
structure KeyText where
  type : String
  id : String
  deriving DecidableEq, Repr

/-- An event to append. What is not given is that of the batch. -/
structure EventText where
  type : Option String
  id : Option String
  sequenceId : SequenceId
  payload : Round.Event
  sourceId : Uuid
  deriving DecidableEq

/-- Which messages a rule is for. What is not given matches everything. -/
structure Pattern where
  type : Option String
  id : Option String
  sequenceId : Option SequenceId
  number : Option Nat
  text : Option String
  deriving DecidableEq, Repr

namespace Pattern

/-- Whether a part that may be given agrees with that of a message. -/
def agrees {α : Type} [DecidableEq α] (given : Option α) (actual : α) : Bool :=
  given.all fun given => given = actual

/-- Whether a message is one that a pattern describes. -/
def fits (pattern : Pattern) : Message → Bool
  | .event event =>
    agrees pattern.type event.key.type.text && agrees pattern.id event.key.id.text &&
      agrees pattern.sequenceId event.sequenceId
  | .ping number => agrees pattern.number number
  | .text text => agrees pattern.text text
  | .unheard => true

end Pattern

/-- What a subscriber does with messages that fit a pattern. -/
structure Rule (Op : Type) where
  pattern : Pattern
  /-- How often the rule may still be used; without limit if not given. -/
  times : Option Nat
  ops : List Op
  cancels : List String
  /-- The text to fail with in the end. -/
  failure : Option String

/-- An item of work. -/
structure Item (Op : Type) where
  label : String
  ops : List Op
  cancels : List String
  /-- Also cancels the worker and whoever waits for it. -/
  cancelsWorker : Bool
  /-- The text to fail with in the end. -/
  failure : Option String

/-- What can be asked to describe itself. -/
inductive Subject where
  | store
  | drainer
  | pubSub
  | queue
  | repository
  deriving DecidableEq, Repr

inductive Op where
  | append (key : KeyText) (batch : List EventText)
  | list (key : KeyText) (after : SequenceId) (max : Option Nat)
  | mark (key : KeyText) (delivered : SequenceId)
  | undelivered (max : Option Nat)
  | ids (type : String) (after : Option String) (max : Option Nat)
  | command (key : KeyText) (command : Command)
  | aggregate (key : KeyText)
  | inject (method : Method) (fault : Fault) (times : Nat)
  /-- Runs operations at the next arrival at a checkpoint. -/
  | onFirst (place : Place) (ops : List Op)
  | pending (place : Place)
  | take (place : Place)
  | waitFor (place : Place)
  | subscribe (topic : Topic) (name : String) (rules : List (Rule Op))
  | publish (message : Message)
  | count (topic : Topic)
  | publishAll (token : Option String)
  | schedule
  | enqueue (item : Item Op)
  | dequeue (token : Option String)
  /-- Waits for the queue, with nobody to work through it. -/
  | wait (token : Option String)
  /-- Waits for the queue while a worker works through it. -/
  | drain (token : Option String)
  | close
  | cancel (token : String)
  | isCancelled (token : String)
  | debug (subject : Subject)
  | dump

namespace Op

def name : Op → String
  | append _ _ => "append"
  | list _ _ _ => "list"
  | mark _ _ => "mark"
  | undelivered _ => "undelivered"
  | ids _ _ _ => "ids"
  | command _ _ => "command"
  | aggregate _ => "aggregate"
  | inject _ _ _ => "inject"
  | onFirst _ _ => "on_first"
  | pending _ => "pending"
  | take _ => "take"
  | waitFor _ => "wait_for"
  | subscribe _ _ _ => "subscribe"
  | publish _ => "publish"
  | count _ => "count"
  | publishAll _ => "publish_all"
  | schedule => "schedule"
  | enqueue _ => "enqueue"
  | dequeue _ => "dequeue"
  | wait _ => "wait"
  | drain _ => "drain"
  | close => "close"
  | cancel _ => "cancel"
  | isCancelled _ => "is_cancelled"
  | debug _ => "debug"
  | dump => "dump"

end Op

end EventSourcing.Scenario
