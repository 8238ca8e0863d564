import EventSourcing.Proofs.Interleaving.Discipline
import EventSourcing.Repository.Append
import EventSourcing.Repository.Listing
import EventSourcing.Repository.MarkDelivered

namespace EventSourcing.Repository

open Interleaving

variable {E : Type}

/-- A call of a repository with its arguments. -/
inductive Call (E : Type) where
  | append (key : AggregateKey) (batch : List (RecordedEvent E))
  | markDelivered (key : AggregateKey) (delivered : SequenceId)
  | listEvents (key : AggregateKey) (after : SequenceId) (max : Option Nat)
  | listUndelivered (max : Option Nat)
  | listIds (type : AggregateType) (after : Option AggregateId) (max : Option Nat)

namespace Call

abbrev Outcome : Call E → Type
  | append _ _ => Result Unit
  | markDelivered _ _ => Result Unit
  | listEvents _ _ _ => Result (List (RecordedEvent E))
  | listUndelivered _ => Result (List (UndeliveredEvents E))
  | listIds _ _ _ => Result (List AggregateId)

def program (config : RepositoryConfig) : (call : Call E) → Operation E call.Outcome
  | append key batch => Repository.append config key batch
  | markDelivered key delivered => Repository.markDelivered config key delivered
  | listEvents key after max => Repository.listEvents key after max
  | listUndelivered max => Repository.listUndelivered max
  | listIds type after max => Repository.listIds type after max

end Call

def Request.isCheckpoint : Request E → Bool
  | .reached _ _ => true
  | _ => false

/-- All calls of a repository, over the state of that repository. -/
def calls (config : RepositoryConfig) :
    System (Request E) Request.Reply (Repository E) (Call E) Call.Outcome where
  answer := answer
  isCheckpoint := Request.isCheckpoint
  program := Call.program config

abbrev Entry (E : Type) :=
  Interleaving.Entry (Request.Reply (E := E)) (Call.Outcome (E := E))

abbrev History (E : Type) :=
  List (Entry E)

abbrev World (E : Type) :=
  Interleaving.World (Repository E) (Request.Reply (E := E)) (Call.Outcome (E := E))

abbrev Moment (E : Type) :=
  Interleaving.Moment (Repository E) (Request.Reply (E := E)) (Call.Outcome (E := E))

/-- A moment of some run that begins with the empty repository. -/
def Reachable (config : RepositoryConfig) (moment : Moment E) : Prop :=
  (calls config).Reaches (.start .empty) moment

namespace Entry

/-- The batch that an append makes the end of the log of `key`, with the number of the call. -/
def commit? (key : AggregateKey) : Entry E → Option (Nat × List (RecordedEvent E))
  | ⟨id, .append owner batch, .answered (.logs (.compareAndSwap _ _ _)) true⟩ =>
    if owner = key then some (id, batch) else none
  | _ => none

/-- How far a call acknowledges the events of `key` when it takes effect: it has moved or removed
the window, or comes to its end without having to. -/
def acknowledged (key : AggregateKey) : Entry E → SequenceId
  | ⟨_, .markDelivered owner delivered, .answered (.windows (.compareAndSwap _ _ _)) true⟩
  | ⟨_, .markDelivered owner delivered, .answered (.windows (.compareAndRemove _ _)) true⟩
  | ⟨_, .markDelivered owner delivered, .answered (.reached .markDeliveredEnded _) _⟩ =>
    if owner = key then delivered else 0
  | _ => 0

/-- The number of an append that adds `key` to the index of its type. -/
def indexing? (key : AggregateKey) : Entry E → Option Nat
  | ⟨id, .append owner _, .answered (.indexes (.compareAndSwap _ _ _)) true⟩ =>
    if owner = key then some id else none
  | _ => none

/-- Where the window begins that an append opens for `key`. -/
def opened? (key : AggregateKey) : Entry E → Option SequenceId
  | ⟨_, .append owner _, .answered (.windows (.getOrInsert _ window)) (_, true)⟩ =>
    if owner = key then some window.first else none
  | _ => none

/-- The outcome of an append to `key`, with the number of the call and its batch. -/
def return? (key : AggregateKey) : Entry E → Option (Nat × List (RecordedEvent E) × Result Unit)
  | ⟨id, .append owner batch, .returned outcome⟩ =>
    if owner = key then some (id, batch, outcome) else none
  | _ => none

end Entry

namespace History

/-- The batches committed to the log of an aggregate, in the order of their commits. -/
def commits (history : History E) (key : AggregateKey) : List (Nat × List (RecordedEvent E)) :=
  history.filterMap (Entry.commit? key)

/-- The furthest position up to which the events of an aggregate have been acknowledged. -/
def watermark (history : History E) (key : AggregateKey) : SequenceId :=
  (history.map (Entry.acknowledged key)).foldr max 0

/-- An append has opened a window for an aggregate that begins inside the log as it was then. -/
def Reopened (history : History E) (key : AggregateKey) : Prop :=
  ∃ before entry after first, history = before ++ entry :: after ∧
    Entry.opened? key entry = some first ∧ first ≤ ((commits before key).flatMap (·.2)).length

end History

end EventSourcing.Repository
