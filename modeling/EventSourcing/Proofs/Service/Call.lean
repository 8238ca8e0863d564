import EventSourcing.Cancellation
import EventSourcing.Delivery.Drain
import EventSourcing.Proofs.Repository.Call
import EventSourcing.Queue.Basic
import EventSourcing.Store.ProcessCommand
import Mathlib.Data.Nat.Pairing

namespace EventSourcing

namespace Service

/-- What messages are about. -/
inductive Topic where
  | events
  | other (number : Nat)
  deriving DecidableEq

end Service

/-- What the calls of a service share. Subscribers are told apart by numbers. -/
structure Service (E : Type) where
  repository : Repository E
  pubSub : PubSub Service.Topic Nat
  queue : TaskQueue Unit
  cancellations : Cancellations
  /-- How much has been decided so far that the service leaves open. -/
  time : Nat

namespace Service

open Interleaving

variable {State Command E α : Type}

/-- What a service is made with. What it leaves open is settled here for every time: the verdicts of
subscribers and the order of listings. -/
structure Setting (State Command E : Type) where
  domain : Domain State Command E
  storeConfig : StoreConfig
  repositoryConfig : RepositoryConfig
  /-- Whether commands schedule deliveries. -/
  delivers : Bool
  verdict : (time subscriber : Nat) → RecordedEvent E → Except String Unit
  arrange : (time : Nat) → List (UndeliveredEvents E) → List (UndeliveredEvents E)
  arrange_perm : ∀ time listing, (arrange time listing).Perm listing

protected def empty : Service E :=
  ⟨.empty, .empty, .empty, .empty, 0⟩

/-- The committed events of an aggregate, oldest first. -/
def logOf (service : Service E) (key : AggregateKey) : List (RecordedEvent E) :=
  ((service.repository.logs.get? key).map (·.value.events)).getD []

/-- One indivisible step of a call. -/
inductive Request (E : Type) where
  /-- A step of an operation of the repository, which is the `number`-th thing that a call asks
  for. -/
  | repository (number : Nat) (operation : Repository.Call E) (request : Repository.Request E)
  | reached (checkpoint : Store.Checkpoint) (key : AggregateKey)
  | report (record : LogRecord)
  | scheduleDelivery
  /-- A drain begins with its listing, in the order in which that comes. -/
  | arrange (listing : List (UndeliveredEvents E))
  | isCancelled (token : CancellationToken)
  /-- The publishing of an event begins with a look at the subscriptions. -/
  | publish (event : RecordedEvent E)
  /-- A subscriber gets an event. What it calls meanwhile runs before its verdict. -/
  | hand (subscriber : Nat) (event : RecordedEvent E)
  | verdict (subscriber : Nat) (event : RecordedEvent E)
  | subscribe (topic : Topic) (subscriber : Nat)
  | cancel (token : CancellationToken)
  | close

abbrev Request.Reply : Request E → Type
  | .repository _ _ request => request.Reply
  | .scheduleDelivery => Except QueueError Unit
  | .arrange _ => List (UndeliveredEvents E)
  | .isCancelled _ => Bool
  | .publish _ => PubSub Topic Nat
  | .verdict _ _ => Except String Unit
  | .reached _ _ | .report _ | .hand _ _ | .subscribe _ _ | .cancel _ | .close => Unit

/-- What a step does to the service. -/
def answer (setting : Setting State Command E) (service : Service E) :
    (request : Request E) → request.Reply × Service E
  | .repository _ _ request =>
    let (reply, repository) := service.repository.answer request
    (reply, { service with repository })
  | .reached _ _ => ((), service)
  | .report _ => ((), service)
  | .scheduleDelivery =>
    match service.queue.enqueue () with
    | .error error => (.error error, service)
    | .ok queue => (.ok (), { service with queue })
  | .arrange listing =>
    (setting.arrange service.time listing, { service with time := service.time + 1 })
  | .isCancelled token => (service.cancellations.isCancelled token, service)
  | .publish _ => (service.pubSub, service)
  | .hand _ _ => ((), service)
  | .verdict subscriber event =>
    (setting.verdict service.time subscriber event, { service with time := service.time + 1 })
  | .subscribe topic subscriber =>
    ((), { service with pubSub := service.pubSub.subscribe topic subscriber })
  | .cancel token => ((), { service with cancellations := service.cancellations.cancel token })
  | .close => ((), { service with queue := service.queue.close })

def Request.isCheckpoint : Request E → Bool
  | .repository _ _ request => request.isCheckpoint
  | .reached _ _ => true
  | .hand _ _ => true
  | _ => false

abbrev Operation (E α : Type) :=
  Program (Request E) Request.Reply α

def ask (request : Request E) : Operation E request.Reply :=
  Program.request request

/-- Takes the steps of an operation of the repository. -/
def relay (number : Nat) (operation : Repository.Call E) :
    Repository.Operation E α → Operation E α :=
  Program.run fun request => ask (.repository number operation request)

/-- Has the repository do something. -/
def perform (config : RepositoryConfig) (number : Nat) (operation : Repository.Call E) :
    Operation E operation.Outcome :=
  relay number operation (operation.program config)

/-- Serves a request of the store. -/
def answerStore (config : RepositoryConfig) (number : Nat) :
    (request : Store.Request E) → Operation E request.Reply
  | .listEvents key => perform config number (.listEvents key 0 none)
  | .appendEvents key batch => perform config number (.append key batch)
  | .scheduleDelivery => ask .scheduleDelivery
  | .reached checkpoint key => ask (.reached checkpoint key)
  | .report record => ask (.report record)

/-- Lets a subscriber take an event. -/
def receive (subscriber : Nat) (event : RecordedEvent E) : Operation E (Except String Unit) := do
  ask (.hand subscriber event)
  ask (.verdict subscriber event)

/-- Hands an event to all who have subscribed to events by now. -/
def publish (event : RecordedEvent E) : Operation E (Except PublishError Unit) := do
  let pubSub ← ask (.publish event)
  pubSub.publish (fun _ => Topic.events) receive event

/-- Takes the listing of a drain. -/
def listUndelivered (config : RepositoryConfig) (number : Nat) :
    Operation E (Except RepositoryError (List (UndeliveredEvents E))) := do
  match ← perform config number (.listUndelivered none) with
  | .error error => return .error error
  | .ok listing => return .ok (← ask (.arrange listing))

/-- Serves a request of a drain. -/
def answerDelivery (config : RepositoryConfig) (token : CancellationToken) (number : Nat) :
    (request : Delivery.Request E) → Operation E request.Reply
  | .listUndelivered => listUndelivered config number
  | .isCancelled => ask (.isCancelled token)
  | .publish event => publish event
  | .markDelivered key last => perform config number (.markDelivered key last)

inductive Call (Command E : Type) where
  | process (key : AggregateKey) (command : Command)
  | aggregate (key : AggregateKey)
  | drain (token : CancellationToken)
  /-- A use of the repository that goes past the store and the drainer. -/
  | direct (operation : Repository.Call E)
  | subscribe (topic : Topic) (subscriber : Nat)
  | cancel (token : CancellationToken)
  | close

namespace Call

abbrev Outcome (State : Type) : Call Command E → Type
  | process _ _ => Except (StoreError State Command) (CommandResult State E)
  | aggregate _ => Except (StoreError State Command) State
  | drain _ => Except DeliveryError Unit
  | direct operation => operation.Outcome
  | subscribe _ _ | cancel _ | close => Unit

def program (setting : Setting State Command E) :
    (call : Call Command E) → Operation E (call.Outcome State)
  | process key command => do
    let (outcome, _) ← (Store.processCommand setting.domain setting.storeConfig setting.delivers key
      command).serve (answerStore setting.repositoryConfig) 0
    return outcome
  | aggregate key => do
    let (outcome, _) ← (Store.getAggregate setting.domain key).serve
      (answerStore setting.repositoryConfig) 0
    return outcome
  | drain token => do
    let (outcome, _) ← Delivery.publishAll.serve (answerDelivery setting.repositoryConfig token) 0
    return outcome
  | direct operation => perform setting.repositoryConfig 0 operation
  | subscribe topic subscriber => ask (.subscribe topic subscriber)
  | cancel token => ask (.cancel token)
  | close => ask .close

end Call

/-- All calls of a service. -/
def calls (setting : Setting State Command E) :
    System (Request E) Request.Reply (Service E) (Call Command E) (Call.Outcome State) where
  answer := answer setting
  isCheckpoint := Request.isCheckpoint
  program := Call.program setting

abbrev Entry (State Command E : Type) :=
  Interleaving.Entry (Request.Reply (E := E)) (@Call.Outcome Command E State)

abbrev History (State Command E : Type) :=
  List (Entry State Command E)

abbrev World (State Command E : Type) :=
  Interleaving.World (Service E) (Request.Reply (E := E))
    (@Call.Outcome Command E State)

abbrev Moment (State Command E : Type) :=
  Interleaving.Moment (Service E) (Request.Reply (E := E))
    (@Call.Outcome Command E State)

/-- A moment of some run that begins with the empty service. -/
def Reachable (setting : Setting State Command E) (moment : Moment State Command E) : Prop :=
  (calls setting).Reaches (.start .empty) moment

end Service

end EventSourcing
