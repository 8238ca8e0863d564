import EventSourcing.Proofs.Repository.Call
import Mathlib.Logic.Function.Basic

namespace EventSourcing.Repository

variable {E : Type}

/-- The events of one aggregate, and the position up to which they are delivered. -/
structure Account (E : Type) where
  events : List (RecordedEvent E)
  watermark : SequenceId

abbrev Ledger (E : Type) :=
  AggregateKey → Account E

/-- At most so many items of a list as are asked for. -/
def limit {α : Type} (max : Option Nat) (items : List α) : List α :=
  match max with
  | none => items
  | some max => items.take max

/-- The first `budget` events of a listing. -/
def cut : (budget : Nat) → List (UndeliveredEvents E) → List (UndeliveredEvents E)
  | _, [] => []
  | budget, undelivered :: rest =>
    if budget = 0 then []
    else
      ⟨undelivered.key, undelivered.events.take budget⟩ ::
        cut (budget - undelivered.events.length) rest

/-- A listing with at most so many events as are asked for. -/
def limitEvents (max : Option Nat) (listing : List (UndeliveredEvents E)) :
    List (UndeliveredEvents E) :=
  match max with
  | none => listing
  | some max => cut max listing

namespace Account

/-- The position of the last event, zero if there is none. -/
def tail (account : Account E) : SequenceId :=
  account.events.length

/-- A batch continues the events of the account of `key`. -/
def Accepts (account : Account E) (key : AggregateKey) (batch : List (RecordedEvent E)) : Prop :=
  batch.map (·.sequenceId) = List.range' (account.tail + 1) batch.length ∧
    ∀ event ∈ batch, event.key = key

instance (account : Account E) (key : AggregateKey) (batch : List (RecordedEvent E)) :
    Decidable (account.Accepts key batch) :=
  inferInstanceAs (Decidable (_ ∧ _))

/-- The first fault of a batch that begins with `first` and does not continue the events. -/
def fault (account : Account E) (key : AggregateKey) (first : RecordedEvent E)
    (rest : List (RecordedEvent E)) : RepositoryError :=
  if first.sequenceId = 0 then
    .firstIdZero
  else if (first :: rest).map (·.sequenceId) ≠
      List.range' first.sequenceId (first :: rest).length then
    .idsNotContiguous
  else if ∃ event ∈ first :: rest, event.key ≠ key then
    .foreignEvent key
  else if account.tail + 1 < first.sequenceId then
    .gap (account.tail + 1) first.sequenceId
  else
    .optimisticConcurrency key

def appendAnswer (account : Account E) (key : AggregateKey) :
    List (RecordedEvent E) → Result Unit
  | [] => .ok ()
  | first :: rest =>
    if account.Accepts key (first :: rest) then .ok () else .error (account.fault key first rest)

def append (account : Account E) (key : AggregateKey) (batch : List (RecordedEvent E)) :
    Account E :=
  if account.Accepts key batch then { account with events := account.events ++ batch } else account

def markAnswer (account : Account E) (delivered : SequenceId) : Result Unit :=
  if account.tail < delivered then .error (.beyondTail delivered account.tail) else .ok ()

def mark (account : Account E) (delivered : SequenceId) : Account E :=
  if account.tail < delivered then account
  else { account with watermark := max account.watermark delivered }

/-- The events that are still to be delivered. -/
def pending (account : Account E) : List (RecordedEvent E) :=
  account.events.drop account.watermark

end Account

namespace Ledger

protected def empty : Ledger E :=
  fun _ => ⟨[], 0⟩

/-- What becomes of the accounts when a call is made. -/
def apply (ledger : Ledger E) : Call E → Ledger E
  | .append key batch => Function.update ledger key ((ledger key).append key batch)
  | .markDelivered key delivered => Function.update ledger key ((ledger key).mark delivered)
  | .listEvents _ _ _ | .listUndelivered _ | .listIds _ _ _ => ledger

/-- What becomes of the accounts when some calls are made, one after the other. -/
def after (earlier : List (Call E)) : Ledger E :=
  earlier.foldl apply .empty

/-- A listing names every account with events to deliver once, in any order. -/
structure Lists (ledger : Ledger E) (listing : List (UndeliveredEvents E)) : Prop where
  nodup : (listing.map (·.key)).Nodup
  mem_iff : ∀ undelivered, undelivered ∈ listing ↔
    undelivered.events = (ledger undelivered.key).pending ∧ undelivered.events ≠ []

/-- The ids of the accounts of a type that have events, in ascending order. -/
structure Enumerates (ledger : Ledger E) (type : AggregateType) (ids : List AggregateId) :
    Prop where
  ascending : ids.Pairwise fun a b => compare a b = .lt
  mem_iff : ∀ id, id ∈ ids ↔ (ledger ⟨type, id⟩).events ≠ []

/-- What a call is to answer. Only the order in which accounts are listed is left open. -/
def Answers (ledger : Ledger E) : (call : Call E) → call.Outcome → Prop
  | .append key batch, outcome => outcome = (ledger key).appendAnswer key batch
  | .markDelivered key delivered, outcome => outcome = (ledger key).markAnswer delivered
  | .listEvents key after max, outcome =>
    outcome = .ok (limit max ((ledger key).events.filter fun event => after < event.sequenceId))
  | .listUndelivered max, outcome =>
    if max = some 0 then outcome = .error .zeroMaxCount
    else ∃ listing, ledger.Lists listing ∧ outcome = .ok (limitEvents max listing)
  | .listIds type after max, outcome =>
    ∃ ids, ledger.Enumerates type ids ∧
      outcome = .ok (limit max (ids.filter fun id => after.all (compare · id == .lt)))

end Ledger

end EventSourcing.Repository
