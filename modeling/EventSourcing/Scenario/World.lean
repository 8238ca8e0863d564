import EventSourcing.Cancellation
import EventSourcing.Queue.Basic
import EventSourcing.Repository.Basic
import EventSourcing.ScriptedHook
import EventSourcing.Scenario.Trace

namespace EventSourcing.Scenario

/-- What stays the same throughout a scenario. -/
structure Settings where
  domain : Domain Round.State Command Round.Event
  storeConfig : StoreConfig
  repositoryConfig : RepositoryConfig
  delivers : Bool
  /-- Whether checkpoints are watched. -/
  hasHooks : Bool

/-- What can stand in the queue. -/
inductive WorkItem where
  | scripted (item : Item Op)
  | delivery
  /-- Tells that the items before it have been run. -/
  | marker

/-- A subscriber with its rules, in the order in which they are tried. -/
structure Subscriber where
  name : String
  rules : List (Rule Op)

/-- The state of a running scenario. -/
structure World where
  settings : Settings
  repository : Repository Round.Event
  repositoryHook : ScriptedHook Repository.Checkpoint (List Op)
  storeHook : ScriptedHook Store.Checkpoint (List Op)
  /-- The faults that wait for their methods, in the order in which they were injected. -/
  faults : List (Method × Fault)
  /-- The subscribers, numbered in the order of their subscription. -/
  subscribers : List Subscriber
  pubSub : PubSub Topic Nat
  queue : TaskQueue WorkItem
  cancellations : Cancellations
  tokens : List (String × CancellationToken)
  /-- The tokens with which the drains in progress wait, innermost first. -/
  waiting : List CancellationToken
  trace : List Entry

namespace World

/-- The state at the beginning of a scenario. -/
def initial (settings : Settings) : World where
  settings
  repository := .empty
  repositoryHook := .empty
  storeHook := .empty
  faults := []
  subscribers := []
  pubSub := .empty
  queue := .empty
  cancellations := .empty
  tokens := []
  waiting := []
  trace := []

end World

/-- Something that uses and changes the state of a scenario. -/
abbrev Session (α : Type) :=
  StateM World α

namespace Session

variable {α : Type}

def note (entry : Entry) : Session Unit :=
  modify fun world => { world with trace := world.trace ++ [entry] }

/-- Runs something with a trace of its own. -/
def traced (action : Session α) : Session (α × List Entry) := do
  let outer := (← get).trace
  modify fun world => { world with trace := [] }
  let value ← action
  let inner := (← get).trace
  modify fun world => { world with trace := outer }
  return (value, inner)

/-- A token that nobody else has. -/
def freshToken : Session CancellationToken :=
  modifyGet fun world =>
    let (token, cancellations) := world.cancellations.issue
    (token, { world with cancellations })

/-- The token with a name, made when it is first asked for. -/
def namedToken (name : String) : Session CancellationToken := do
  match (← get).tokens.lookup name with
  | some token => return token
  | none =>
    let token ← freshToken
    modify fun world => { world with tokens := (name, token) :: world.tokens }
    return token

/-- The token with a name, or a fresh one if no name is given. -/
def tokenFor : Option String → Session CancellationToken
  | some name => namedToken name
  | none => freshToken

def cancelToken (token : CancellationToken) : Session Unit :=
  modify fun world => { world with cancellations := world.cancellations.cancel token }

def cancelNamed : List String → Session Unit
  | [] => return
  | name :: rest => do
    cancelToken (← namedToken name)
    cancelNamed rest

def isCancelled (token : CancellationToken) : Session Bool := do
  return (← get).cancellations.isCancelled token

def enqueue (item : WorkItem) : Session (Except QueueError Unit) := do
  match (← get).queue.enqueue item with
  | .ok queue =>
    modify fun world => { world with queue }
    return .ok ()
  | .error error => return .error error

def dequeue (token : CancellationToken) : Session (Taken WorkItem) :=
  modifyGet fun world =>
    let (taken, queue) := world.queue.dequeue (world.cancellations.isCancelled token)
    (taken, { world with queue })

def beginWait (token : CancellationToken) : Session (Except QueueError Unit) :=
  modifyGet fun world =>
    let (result, queue) :=
      world.queue.beginWait .marker (world.cancellations.isCancelled token)
    (result, { world with queue })

end Session

end EventSourcing.Scenario
