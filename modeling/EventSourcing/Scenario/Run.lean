import EventSourcing.Scenario.Describe
import EventSourcing.Scenario.Work

namespace EventSourcing.Scenario

namespace Session

variable (runOps : List Op → Session Unit)

/-- Parses a key, or replies with the refusal. -/
def withKey (key : KeyText) (action : AggregateKey → Session Reply) : Session Reply :=
  match AggregateKey.parse key.type key.id with
  | .ok key => action key
  | .error error => return .identifierError error

/-- Parses an event of a batch for the aggregate with the given key. -/
def parseEvent (batchKey : KeyText) (event : EventText) :
    Except IdentifierError (RecordedEvent Round.Event) := do
  let key ← AggregateKey.parse (event.type.getD batchKey.type) (event.id.getD batchKey.id)
  return ⟨key, event.sequenceId, event.payload, event.sourceId⟩

def replyDone {ε : Type} (failed : ε → Reply) : Except ε Unit → Reply
  | .ok _ => .done
  | .error error => failed error

def replyRepository {α : Type} (reply : α → Reply) : Except RepositoryError α → Reply
  | .ok value => reply value
  | .error error => .repositoryError error

def replyStore {α : Type} (reply : α → Reply) : Except (StoreError Round.State Command) α → Reply
  | .ok value => reply value
  | .error error => .storeError error

def total (listing : List (UndeliveredEvents Round.Event)) : Nat :=
  (listing.flatMap fun undelivered => undelivered.events).length

/-- The reply to a listing of undelivered events. Which aggregates are listed is undetermined when a
limit cuts the listing while several have events. -/
def replyUndelivered (max : Option Nat) (listing all : List (UndeliveredEvents Round.Event)) :
    Reply :=
  let isCut := max.isSome && total listing != total all
  let isDetermined := !isCut || all.length ≤ 1
  .undelivered (if isDetermined then some listing else none) (total listing)
    (listing.any fun undelivered => undelivered.events.isEmpty)

def performAppend (keyText : KeyText) (batch : List EventText) : Session Reply :=
  withKey keyText fun key => do
    match batch.mapM (parseEvent keyText) with
    | .error error => return .identifierError error
    | .ok events => return replyDone .repositoryError (← append runOps key events)

/-- Lists the ids of a type. The listing is not subject to faults. -/
def performIds (type : String) (after : Option String) (max : Option Nat) : Session Reply := do
  match Identifier.parse .aggregateType type with
  | .error error => return .identifierError error
  | .ok type =>
    match after.mapM (Identifier.parse .aggregateId) with
    | .error error => return .identifierError error
    | .ok after =>
      return replyRepository .ids (← runRepository runOps (Repository.listIds type after max))

def performUndelivered (max : Option Nat) : Session Reply := do
  match ← listUndelivered runOps max with
  | .error error => return .repositoryError error
  | .ok listing => return replyUndelivered max listing (← allUndelivered)

def performCommand (key : AggregateKey) (command : Command) : Session Reply := do
  let settings := (← get).settings
  return replyStore .result (← runStore runOps
    (Store.processCommand settings.domain settings.storeConfig settings.delivers key command))

def performInject (method : Method) (fault : Fault) (times : Nat) : Session Reply := do
  modify fun world =>
    { world with faults := world.faults ++ List.replicate times (method, fault) }
  return .number ((← get).faults.countP fun entry => entry.1 = method)

/-- Puts operations in place for the next arrival at a checkpoint. -/
def performOnFirst (place : Place) (ops : List Op) : Session Reply := do
  modify fun world =>
    match place with
    | .repository checkpoint =>
      { world with repositoryHook := world.repositoryHook.onFirst checkpoint ops }
    | .store checkpoint => { world with storeHook := world.storeHook.onFirst checkpoint ops }
  return .done

/-- How many arrivals at a checkpoint have not been taken. -/
def pending (place : Place) : Session Nat := do
  match place with
  | .repository checkpoint => return (← get).repositoryHook.pending checkpoint
  | .store checkpoint => return (← get).storeHook.pending checkpoint

def takeArrival (place : Place) : Session Bool :=
  modifyGet fun world =>
    match place with
    | .repository checkpoint =>
      let (taken, repositoryHook) := world.repositoryHook.tryTake checkpoint
      (taken, { world with repositoryHook })
    | .store checkpoint =>
      let (taken, storeHook) := world.storeHook.tryTake checkpoint
      (taken, { world with storeHook })

/-- Takes the front item of the queue, if that needs no waiting, and runs it. -/
def performDequeue (token : CancellationToken) : Session Reply := do
  match ← dequeue token with
  | .failed error => return .queueError error
  | .notYet => return .wouldBlock
  | .item item =>
    let itemToken ← freshToken
    match ← runItem runOps itemToken item with
    | .ok _ => return .ran
    | .error text => return .itemFailed text

/-- Begins to wait for the queue. Nobody works through it meanwhile, so waiting would not end. -/
def performWait (token : CancellationToken) : Session Reply := do
  match ← beginWait token with
  | .ok _ => return .wouldBlock
  | .error error => return .queueError error

/-- Does one operation. -/
def perform : Op → Session Reply
  | .append key batch => performAppend runOps key batch
  | .list key after max => withKey key fun key => do
    return replyRepository .events (← listEvents runOps key after max)
  | .mark key delivered => withKey key fun key => do
    return replyDone .repositoryError (← markDelivered runOps key delivered)
  | .undelivered max => performUndelivered runOps max
  | .ids type after max => performIds runOps type after max
  | .command key command => withKey key fun key => performCommand runOps key command
  | .aggregate key => withKey key fun key => do
    return replyStore .state (← runStore runOps (Store.getAggregate (← get).settings.domain key))
  | .inject method fault times => performInject method fault times
  | .onFirst place ops => performOnFirst place ops
  | .pending place => do return .number (← pending place)
  | .take place => do return .flag (← takeArrival place)
  | .waitFor place => do return .flag (← takeArrival place)
  | .subscribe topic name rules => do
    subscribe topic name rules
    return .done
  | .publish message => do return replyDone .publishError (← publish runOps message)
  | .count topic => do return .number ((← get).pubSub.count topic)
  | .publishAll token => do
    return replyDone .deliveryError (← publishAll runOps (← tokenFor token))
  | .schedule => do return replyDone .queueError (← enqueue .delivery)
  | .enqueue item => do return replyDone .queueError (← enqueue (.scripted item))
  | .dequeue token => do performDequeue runOps (← tokenFor token)
  | .wait token => do performWait (← tokenFor token)
  | .drain token => do return replyDone .queueError (← drain runOps (← tokenFor token))
  | .close => do
    modify fun world => { world with queue := world.queue.close }
    return .done
  | .cancel token => do
    cancelNamed [token]
    return .done
  | .isCancelled token => do
    let cancelled ← isCancelled (← namedToken token)
    return .cancellation cancelled cancelled
  | .debug subject => do return .text ((← get).describe subject)
  | .dump => do return .dump (← dump)

/-- Does one operation and notes its reply and what happened meanwhile. -/
def performNoted (op : Op) : Session Unit := do
  let (reply, trace) ← traced (perform runOps op)
  note (.answered op.name reply trace)

/-- Does operations one after the other, inside each other up to a depth; what lies deeper is left
undone. -/
def runNested : (depth : Nat) → List Op → Session Unit
  | 0, _ => return
  | depth + 1, ops => ops.forM (performNoted (runNested depth))

/-- How deep operations may lie inside each other. -/
def depthBound : Nat :=
  1000000

end Session

structure Script where
  /-- The standard limit if not given. -/
  liveLockLimit : Option Nat := none
  /-- The standard limit if not given. -/
  retryLimit : Option Nat := none
  delivers : Bool := false
  hasHooks : Bool := true
  /-- The names of the types that have aggregates. -/
  aggregateTypes : List String := [Round.typeName]
  /-- The names of the types that have a processor. -/
  processorTypes : List String := [Round.typeName]
  ops : List Op

structure Report where
  steps : List Entry
  maxAttempts : Nat
  final : Dump

namespace Script

/-- The settings of a script, unless a limit is out of range. -/
def settings (script : Script) : Except LimitError Settings := do
  let liveLockLimit ← (script.liveLockLimit.map LiveLockLimit.ofNat).getD (.ok .standard)
  let retryLimit ← (script.retryLimit.map OptimisticRetryLimit.ofNat).getD (.ok .standard)
  return {
    domain := domain script.aggregateTypes script.processorTypes
    storeConfig := ⟨retryLimit⟩
    repositoryConfig := ⟨liveLockLimit⟩
    delivers := script.delivers
    hasHooks := script.hasHooks }

def run (script : Script) : Except LimitError Report := do
  let settings ← script.settings
  let session : Session Dump := do
    Session.runNested Session.depthBound script.ops
    Session.dump
  let (final, world) := session.run (World.initial settings)
  return { steps := world.trace, maxAttempts := settings.storeConfig.maxAttempts, final }

end Script

end EventSourcing.Scenario
