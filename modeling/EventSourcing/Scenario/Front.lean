import EventSourcing.Repository.Append
import EventSourcing.Repository.Listing
import EventSourcing.Repository.MarkDelivered
import EventSourcing.Scenario.World

namespace EventSourcing.Scenario.Session

variable {α : Type} (runOps : List Op → Session Unit)

/-- Takes note of an arrival at a checkpoint and runs what waits there. -/
def arrive (place : Place) (key : AggregateKey) : Session Unit := do
  if (← get).settings.hasHooks then
    note (.reached place key)
    let action? ← modifyGet fun world =>
      match place with
      | .repository checkpoint =>
        let (action?, repositoryHook) := world.repositoryHook.arrive checkpoint
        (action?, { world with repositoryHook })
      | .store checkpoint =>
        let (action?, storeHook) := world.storeHook.arrive checkpoint
        (action?, { world with storeHook })
    runOps (action?.getD [])

/-- Takes one step of a repository operation. -/
def answerRepository : (request : Repository.Request Round.Event) → Session request.Reply
  | .reached checkpoint key => arrive runOps (.repository checkpoint) key
  | .report record => note (.reported record)
  | .logs request => modifyGet fun world =>
    let (reply, repository) := world.repository.answer (.logs request)
    (reply, { world with repository })
  | .windows request => modifyGet fun world =>
    let (reply, repository) := world.repository.answer (.windows request)
    (reply, { world with repository })
  | .indexes request => modifyGet fun world =>
    let (reply, repository) := world.repository.answer (.indexes request)
    (reply, { world with repository })

def runRepository (operation : Repository.Operation Round.Event α) : Session α :=
  operation.run (answerRepository runOps)

/-- Takes the fault that waits longest for a method. -/
def takeFault (method : Method) : Session Fault :=
  modifyGet fun world =>
    match world.faults.find? fun entry => entry.1 = method with
    | some (_, fault) =>
      (fault, { world with faults := world.faults.eraseP fun entry => entry.1 = method })
    | none => (.pass, world)

def injectedDetail : String :=
  "injected fault"

/-- The error that a fault raises before the repository is used at all; `conflict` is the lost race
of the use in question. -/
def faultError? (conflict : RepositoryError) : Fault → Option RepositoryError
  | .conflict => some conflict
  | .invalid => some (.invalidArgument "injected" injectedDetail)
  | .invariant => some (.invariantViolation injectedDetail)
  | .pass | .commitThenConflict | .ghost => none

def append (key : AggregateKey) (batch : List (RecordedEvent Round.Event)) :
    Session (Except RepositoryError Unit) := do
  let fault ← takeFault .appendEvents
  let conflict := RepositoryError.optimisticConcurrency key
  if let some error := faultError? conflict fault then
    return .error error
  let config := (← get).settings.repositoryConfig
  match ← runRepository runOps (Repository.append config key batch) with
  | .error error => return .error error
  | .ok _ => return if fault = .commitThenConflict then .error conflict else .ok ()

def listEvents (key : AggregateKey) (after : SequenceId) (max : Option Nat) :
    Session (Except RepositoryError (List (RecordedEvent Round.Event))) := do
  let fault ← takeFault .listEvents
  if let some error := faultError? (.optimisticConcurrency key) fault then
    return .error error
  runRepository runOps (Repository.listEvents key after max)

def markDelivered (key : AggregateKey) (delivered : SequenceId) :
    Session (Except RepositoryError Unit) := do
  let fault ← takeFault .markDelivered
  if let some error := faultError? (.optimisticConcurrency key) fault then
    return .error error
  let config := (← get).settings.repositoryConfig
  runRepository runOps (Repository.markDelivered config key delivered)

/-- A listing in ascending order of the keys. -/
def sortListing (listing : List (UndeliveredEvents Round.Event)) :
    List (UndeliveredEvents Round.Event) :=
  listing.mergeSort fun a b => (compare a.key b.key).isLE

/-- The aggregate without events that a fault puts in front of a listing. -/
def ghosts : List (UndeliveredEvents Round.Event) :=
  match AggregateKey.parse Round.typeName "ghost" with
  | .ok key => [⟨key, []⟩]
  | .error _ => []

/-- Lists the undelivered events of all aggregates. No single aggregate can lose a race here, so
that fault is a contradiction. -/
def listUndelivered (max : Option Nat) :
    Session (Except RepositoryError (List (UndeliveredEvents Round.Event))) := do
  let fault ← takeFault .listUndelivered
  if let some error := faultError? (.invariantViolation injectedDetail) fault then
    return .error error
  match ← runRepository runOps (Repository.listUndelivered max) with
  | .error error => return .error error
  | .ok listing =>
    let sorted := sortListing listing
    return .ok (if fault = .ghost then ghosts ++ sorted else sorted)

def allUndelivered : Session (List (UndeliveredEvents Round.Event)) := do
  match (Repository.runAlone (Repository.listUndelivered none) (← get).repository).1 with
  | .ok listing => return sortListing listing
  | .error _ => return []

end EventSourcing.Scenario.Session
