import EventSourcing.LogRecord
import EventSourcing.Program
import EventSourcing.Store.Checkpoint
import EventSourcing.Store.Error

namespace EventSourcing.Store

variable {E α : Type}

/-- One thing that the store asks for. -/
inductive Request (E : Type) where
  | listEvents (key : AggregateKey)
  | appendEvents (key : AggregateKey) (batch : List (RecordedEvent E))
  /-- A delivery run some time soon. -/
  | scheduleDelivery
  | reached (checkpoint : Checkpoint) (key : AggregateKey)
  | report (record : LogRecord)

abbrev Request.Reply : Request E → Type
  | .listEvents _ => Except RepositoryError (List (RecordedEvent E))
  | .appendEvents _ _ => Except RepositoryError Unit
  | .scheduleDelivery => Except QueueError Unit
  | .reached _ _ => Unit
  | .report _ => Unit

abbrev Operation (E α : Type) :=
  Program (Request E) Request.Reply α

def ask (request : Request E) : Operation E request.Reply :=
  Program.request request

theorem serve_ask {Inner : Type} {InnerReply : Inner → Type} {α : Type}
    (handler : Nat → (r : Request E) → Program Inner InnerReply r.Reply) (number : Nat)
    (request : Request E) (next : request.Reply → Operation E α) :
    (ask request >>= next).serve handler number =
      handler number request >>= fun reply => (next reply).serve handler (number + 1) :=
  rfl

end EventSourcing.Store
