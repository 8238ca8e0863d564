import EventSourcing.Delivery.Error
import EventSourcing.Program

namespace EventSourcing.Delivery

variable {E α : Type}

/-- One thing that a drain asks for. -/
inductive Request (E : Type) where
  | listUndelivered
  | isCancelled
  | publish (event : RecordedEvent E)
  | markDelivered (key : AggregateKey) (last : SequenceId)

abbrev Request.Reply : Request E → Type
  | .listUndelivered => Except RepositoryError (List (UndeliveredEvents E))
  | .isCancelled => Bool
  | .publish _ => Except PublishError Unit
  | .markDelivered _ _ => Except RepositoryError Unit

/-- A part of a drain. -/
abbrev Operation (E α : Type) :=
  Program (Request E) Request.Reply α

def ask (request : Request E) : Operation E request.Reply :=
  Program.request request

theorem serve_ask {Inner : Type} {InnerReply : Inner → Type} {α : Type}
    (handler : Nat → (r : Request E) → Program Inner InnerReply r.Reply) (number : Nat)
    (request : Request E) (next : request.Reply → Operation E α) :
    (ask request >>= next).serve handler number =
      handler number request >>= fun reply => (next reply).serve handler (number + 1) :=
  rfl

/-- Publishes the listed events of one aggregate and, if all are accepted, records that. -/
def deliver (undelivered : UndeliveredEvents E) : Operation E (Except DeliveryError Unit) := do
  let some last := undelivered.lastSequenceId? | return .ok ()
  match ← forEachCollecting (ask .isCancelled) (fun event => ask (.publish event))
      undelivered.events with
  | .error .cancelled => return .error .cancelled
  | .error (.failed failures) => return .error (.publish undelivered.key failures)
  | .ok _ =>
    match ← ask (.markDelivered undelivered.key last) with
    | .error cause => return .error (.repository cause)
    | .ok _ => return .ok ()

/-- The failure of a drain in which the parts for some aggregates failed: a single failure stands
for itself. -/
def failureOf : CollectedError DeliveryError → DeliveryError
  | .cancelled => .cancelled
  | .failed [error] => error
  | .failed errors => .aggregate errors

/-- Delivers the undelivered events of every aggregate once, each aggregate on its own. -/
def publishAll : Operation E (Except DeliveryError Unit) := do
  match ← ask .listUndelivered with
  | .error cause => return .error (.repository cause)
  | .ok undelivered =>
    match ← forEachCollecting (ask .isCancelled) deliver undelivered with
    | .ok _ => return .ok ()
    | .error error => return .error (failureOf error)

end EventSourcing.Delivery
