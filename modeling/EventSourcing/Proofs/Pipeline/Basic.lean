import EventSourcing.Proofs.Repository.Writing
import EventSourcing.Proofs.Service.Call
import EventSourcing.Queue.Worker

namespace EventSourcing

/-- A service with all that its subscribers have received so far, each event with the number of the
subscriber. -/
structure Pipeline (E : Type) where
  service : Service E
  received : List (Nat × RecordedEvent E)

namespace Pipeline

open Repository

variable {State Command E α : Type}

/-- The events of an aggregate that a subscriber has received, in the order in which they came. -/
def receivedBy (subscriber : Nat) (key : AggregateKey) (received : List (Nat × RecordedEvent E)) :
    List (RecordedEvent E) :=
  (received.filter fun reception => reception.1 = subscriber ∧ reception.2.key = key).map (·.2)

/-- What a subscriber receives in a step of the service. -/
def reception? : Service.Request E → Option (Nat × RecordedEvent E)
  | .hand subscriber event => some (subscriber, event)
  | _ => none

/-- A step of the service. -/
def answerService (setting : Service.Setting State Command E) (pipeline : Pipeline E)
    (request : Service.Request E) : request.Reply × Pipeline E :=
  let (reply, service) := Service.answer setting pipeline.service request
  match reception? request with
  | none => (reply, ⟨service, pipeline.received⟩)
  | some reception => (reply, ⟨service, pipeline.received ++ [reception]⟩)

inductive Request (E : Type) where
  | service (request : Service.Request E)
  /-- The worker asks for the front item of the queue. -/
  | take (token : CancellationToken)

abbrev Request.Reply : Request E → Type
  | .service request => request.Reply
  | .take _ => Taken Unit

def withQueue (pipeline : Pipeline E) (queue : TaskQueue Unit) : Pipeline E :=
  ⟨{ pipeline.service with queue }, pipeline.received⟩

def answer (setting : Service.Setting State Command E) (pipeline : Pipeline E) :
    (request : Request E) → request.Reply × Pipeline E
  | .service request => answerService setting pipeline request
  | .take token =>
    let (taken, queue) := pipeline.service.queue.dequeue
      (pipeline.service.cancellations.isCancelled token)
    (taken, pipeline.withQueue queue)

abbrev Operation (E α : Type) :=
  Program (Request E) Request.Reply α

def ask (request : Request E) : Operation E request.Reply :=
  Program.request request

def onService : Service.Operation E α → Operation E α :=
  Program.run fun request => ask (.service request)

inductive Step (Command : Type) where
  | process (key : AggregateKey) (command : Command)
  /-- The worker runs the front item of the queue, if there is one. -/
  | work (token : CancellationToken)

/-- What an item of the queue is: a drain, the failure of which is told as a text. -/
def item (setting : Service.Setting State Command E) (token : CancellationToken) :
    Service.Operation E (Except String Unit) := do
  match ← Service.Call.program setting (.drain token) with
  | .ok _ => return .ok ()
  | .error error => return .error error.message

def Step.program (setting : Service.Setting State Command E) :
    Step Command → Operation E Unit
  | process key command => do
    let _ ← onService (Service.Call.program setting (.process key command))
    return
  | work token =>
    Worker.run (ask (.take token)) (fun _ => onService (item setting token))
      (fun record => ask (.service (.report record))) 1

/-- A new service with some subscribers to events. -/
def start (subscribers : List Nat) : Pipeline E :=
  ⟨⟨.empty, subscribers.foldl (fun pubSub => pubSub.subscribe .events) .empty, .empty, .empty, 0⟩,
    []⟩

/-- What becomes of a new service when some steps are taken, one after the other. -/
def after (setting : Service.Setting State Command E) (subscribers : List Nat)
    (steps : List (Step Command)) : Pipeline E :=
  steps.foldl (fun pipeline step => ((step.program setting).alone (answer setting) pipeline).2)
    (start subscribers)

end Pipeline

end EventSourcing
