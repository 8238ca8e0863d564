import EventSourcing.Event
import EventSourcing.Json.Record

namespace EventSourcing

/-- What a record says about a field that has not been read. -/
def Json.required {α : Type} (name : String) : Option α → Except Json.ReadError α
  | some value => .ok value
  | none => .error (.missingField name)

namespace Identifier

def writeJson {kind : IdentifierKind} (identifier : Identifier kind) : List Char :=
  Json.writeString identifier.text

/-- A string is parsed as an identifier as soon as it has been read. -/
def jsonReader (kind : IdentifierKind) : Json.Reader (Identifier kind) :=
  .checked .string (parse kind) .identifier

end Identifier

namespace Uuid

def writeJson (u : Uuid) : List Char :=
  Json.writeString (toString u)

def jsonReader : Json.Reader Uuid := do
  match parse? (← Json.Reader.string) with
  | some u => return u
  | none => throw .malformed

end Uuid

namespace AggregateKey

def writeJson (key : AggregateKey) : List Char :=
  Json.writeObject
    [("aggregate_type", key.type.writeJson), ("aggregate_id", key.id.writeJson)]

structure Parts where
  type : Option AggregateType := none
  id : Option AggregateId := none

def jsonRecord : Json.Record Parts AggregateKey where
  fields :=
    [{ name := "aggregate_type"
       isOptional := false
       isRead := fun parts => parts.type.isSome
       read := fun parts => do
        return { parts with type := some (← Identifier.jsonReader .aggregateType) } },
     { name := "aggregate_id"
       isOptional := false
       isRead := fun parts => parts.id.isSome
       read := fun parts => do
        return { parts with id := some (← Identifier.jsonReader .aggregateId) } }]
  start := {}
  finish parts := do
    return { type := ← Json.required "aggregate_type" parts.type
             id := ← Json.required "aggregate_id" parts.id }

end AggregateKey

namespace RecordedEvent

/-- An event whose domain event is a text is written as an object of five fields. -/
def writeJson (event : RecordedEvent String) : List Char :=
  Json.writeObject
    [("aggregate_type", event.key.type.writeJson), ("aggregate_id", event.key.id.writeJson),
      ("sequence_id", Json.writeNat event.sequenceId),
      ("domain_event", Json.writeString event.payload),
      ("source_id", event.sourceId.writeJson)]

structure Parts where
  type : Option AggregateType := none
  id : Option AggregateId := none
  sequenceId : Option SequenceId := none
  payload : Option String := none
  sourceId : Option Uuid := none

/-- Positions are read up to the largest of 64 bits. -/
def sequenceIdBound : Nat :=
  UInt64.size

def jsonRecord : Json.Record Parts (RecordedEvent String) where
  fields :=
    [{ name := "aggregate_type"
       isOptional := false
       isRead := fun parts => parts.type.isSome
       read := fun parts => do
        return { parts with type := some (← Identifier.jsonReader .aggregateType) } },
     { name := "aggregate_id"
       isOptional := false
       isRead := fun parts => parts.id.isSome
       read := fun parts => do
        return { parts with id := some (← Identifier.jsonReader .aggregateId) } },
     { name := "sequence_id"
       isOptional := false
       isRead := fun parts => parts.sequenceId.isSome
       read := fun parts => do
        return { parts with sequenceId := some (← Json.Reader.nat sequenceIdBound) } },
     { name := "domain_event"
       isOptional := false
       isRead := fun parts => parts.payload.isSome
       read := fun parts => do
        return { parts with payload := some (← Json.Reader.string) } },
     { name := "source_id"
       isOptional := false
       isRead := fun parts => parts.sourceId.isSome
       read := fun parts => do
        return { parts with sourceId := some (← Uuid.jsonReader) } }]
  start := {}
  finish parts := do
    let type ← Json.required "aggregate_type" parts.type
    let id ← Json.required "aggregate_id" parts.id
    let sequenceId ← Json.required "sequence_id" parts.sequenceId
    let payload ← Json.required "domain_event" parts.payload
    let sourceId ← Json.required "source_id" parts.sourceId
    return { key := ⟨type, id⟩, sequenceId, payload, sourceId }

end RecordedEvent

/-- Limits are read from numbers of up to 32 bits. -/
def Json.limitBound : Nat :=
  UInt32.size

namespace OptimisticRetryLimit

def writeJson (limit : OptimisticRetryLimit) : List Char :=
  Json.writeNat limit.value

def jsonReader : Json.Reader OptimisticRetryLimit :=
  .checked (.nat Json.limitBound) ofNat .limit

end OptimisticRetryLimit

namespace LiveLockLimit

def writeJson (limit : LiveLockLimit) : List Char :=
  Json.writeNat limit.value

def jsonReader : Json.Reader LiveLockLimit :=
  .checked (.nat Json.limitBound) ofNat .limit

end LiveLockLimit

namespace StoreConfig

def writeJson (config : StoreConfig) : List Char :=
  Json.writeObject [("optimistic_retry_limit", config.retryLimit.writeJson)]

def jsonRecord : Json.Record (Option OptimisticRetryLimit) StoreConfig :=
  .single "optimistic_retry_limit" OptimisticRetryLimit.jsonReader .standard mk

end StoreConfig

namespace RepositoryConfig

def writeJson (config : RepositoryConfig) : List Char :=
  Json.writeObject [("live_lock_limit", config.liveLockLimit.writeJson)]

def jsonRecord : Json.Record (Option LiveLockLimit) RepositoryConfig :=
  .single "live_lock_limit" LiveLockLimit.jsonReader .standard mk

end RepositoryConfig

end EventSourcing
