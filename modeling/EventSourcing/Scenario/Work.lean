import EventSourcing.Delivery.Drain
import EventSourcing.Queue.Worker
import EventSourcing.Scenario.Front

namespace EventSourcing.Scenario.Session

variable {α : Type} (runOps : List Op → Session Unit)

/-- Serves a request of the store. -/
def answerStore : (request : Store.Request Round.Event) → Session request.Reply
  | .listEvents key => listEvents runOps key 0 none
  | .appendEvents key batch => append runOps key batch
  | .scheduleDelivery => enqueue .delivery
  | .reached checkpoint key => arrive runOps (.store checkpoint) key
  | .report record => note (.reported record)

def runStore (operation : Store.Operation Round.Event α) : Session α :=
  operation.run (answerStore runOps)

/-- Splits off the first rule that fits a message and may still be used; the rules that remain hold
it with one use less. -/
def useRule (message : Message) : List (Rule Op) → Option (Rule Op) × List (Rule Op)
  | [] => (none, [])
  | rule :: rest =>
    if rule.pattern.fits message && rule.times != some 0 then
      (some rule, { rule with times := rule.times.map fun times => times - 1 } :: rest)
    else
      let (used, rest) := useRule message rest
      (used, rule :: rest)

/-- The result of something that fails with a text if one is given. -/
def failWith : Option String → Except String Unit
  | some text => .error text
  | none => .ok ()

/-- Lets a subscriber take a message and follow its rules. -/
def receive (number : Nat) (message : Message) : Session (Except String Unit) := do
  let some subscriber := (← get).subscribers[number]? | return .ok ()
  note (.received subscriber.name message)
  let (used, rules) := useRule message subscriber.rules
  modify fun world =>
    { world with subscribers := world.subscribers.set number { subscriber with rules } }
  match used with
  | none => return .ok ()
  | some rule =>
    runOps rule.ops
    cancelNamed rule.cancels
    return failWith rule.failure

def publish (message : Message) : Session (Except PublishError Unit) := do
  (← get).pubSub.publish Message.topic (receive runOps) message

def subscribe (topic : Topic) (name : String) (rules : List (Rule Op)) : Session Unit :=
  modify fun world =>
    { world with
      pubSub := world.pubSub.subscribe topic world.subscribers.length
      subscribers := world.subscribers ++ [⟨name, rules⟩] }

/-- Serves a request of a drain. -/
def answerDelivery (token : CancellationToken) :
    (request : Delivery.Request Round.Event) → Session request.Reply
  | .listUndelivered => listUndelivered runOps none
  | .isCancelled => isCancelled token
  | .publish event => publish runOps (.event event)
  | .markDelivered key last => markDelivered runOps key last

def publishAll (token : CancellationToken) : Session (Except DeliveryError Unit) :=
  Delivery.publishAll.run (answerDelivery runOps token)

/-- Cancels the token of the innermost drain in progress. -/
def cancelWaiting : Session Unit := do
  match (← get).waiting with
  | token :: _ => cancelToken token
  | [] => return

def runItem (token : CancellationToken) : WorkItem → Session (Except String Unit)
  | .marker => return .ok ()
  | .delivery => do
    match ← publishAll runOps token with
    | .ok _ => return .ok ()
    | .error error => return .error error.message
  | .scripted item => do
    note (.started item.label (← isCancelled token))
    runOps item.ops
    cancelNamed item.cancels
    if item.cancelsWorker then
      cancelToken token
      cancelWaiting
    return failWith item.failure

/-- How many rounds a worker is let have before it is stopped. -/
def workerBound : Nat :=
  1000000

/-- Waits for the queue with a token while a worker works through it. The worker is let go
on as long as it finds items, so that it reaches the marker unless both are cancelled before. -/
def drain (token : CancellationToken) : Session (Except QueueError Unit) := do
  let workerToken ← freshToken
  match ← beginWait token with
  | .error error => return .error error
  | .ok _ =>
    let outer := (← get).waiting
    modify fun world => { world with waiting := token :: outer }
    Worker.run (dequeue workerToken) (runItem runOps workerToken)
      (fun record => note (.reported record)) workerBound
    modify fun world => { world with waiting := outer }
    cancelToken workerToken
    return TaskQueue.endWait true (← isCancelled token)

end EventSourcing.Scenario.Session
