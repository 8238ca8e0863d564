import EventSourcing.Cancellation
import EventSourcing.Program
import EventSourcing.Queue.Worker

namespace EventSourcing

/-- What stands in a queue. -/
inductive Job (Item : Type) where
  | item (item : Item)
  /-- It tells someone who waits that the jobs before it have been run. -/
  | marker (number : Nat)

/-- What a job comes to if an item of work comes to `result`; a marker never fails. -/
def Job.result {Item : Type} (result : Except String Unit) : Job Item → Except String Unit
  | item _ => result
  | marker _ => .ok ()

namespace Worker

/-- One thing that a worker asks for. -/
inductive Request (Item : Type) where
  | take
  | work (item : Item)
  | report (record : LogRecord)

abbrev Request.Reply {Item : Type} : Request Item → Type
  | .take => Except QueueError Item
  | .work _ => Except String Unit
  | .report _ => Unit

/-- What is left of a round, which tells in the end whether the worker goes on. -/
abbrev Process (Item : Type) :=
  Program (Request Item) Request.Reply Bool

variable {Item : Type}

def ask (request : Request Item) : Program (Request Item) Request.Reply request.Reply :=
  Program.request request

/-- A worker at the beginning of a round, where it asks the queue. -/
def asking : Program (Request Item) Request.Reply Bool :=
  round (ask .take) (fun item => ask (.work item)) (fun record => ask (.report record))

/-- A worker that runs an item. -/
def running (item : Item) : Program (Request Item) Request.Reply Bool :=
  handle (fun item => ask (.work item)) (fun record => ask (.report record)) (.ok item)

end Worker

namespace Workplace

inductive Taker where
  | worker
  | other
  deriving DecidableEq

/-- Someone who asks for the receiving end of the queue: for a job of it, or to close it. -/
inductive Asker where
  | taker (taker : Taker) (token : CancellationToken)
  | closer
  deriving DecidableEq

def Asker.isWorker : Asker → Bool
  | taker .worker _ => true
  | _ => false

/-- One thing that has happened. -/
inductive Entry (Item : Type) where
  | enqueued (job : Job Item) (outcome : Except QueueError Unit)
  /-- Someone who has asked to close the queue is told that it is closed. -/
  | closed
  | cancelled (token : CancellationToken)
  | took (taker : Taker) (token : CancellationToken) (outcome : Except QueueError (Job Item))
  /-- A job has been run to its end. -/
  | finished (taker : Taker) (job : Job Item) (result : Except String Unit)
  | dropped (job : Job Item)
  | reported (record : LogRecord)
  | started (token : CancellationToken)
  | stopped
  /-- Waiting has come to an end. -/
  | waited (number : Nat) (outcome : Except QueueError Unit)

abbrev History (Item : Type) :=
  List (Entry Item)

/-- How things may go on. -/
inductive Move (Item : Type) where
  | enqueue (item : Item)
  /-- Someone asks to close the queue. -/
  | close
  | cancel (token : CancellationToken)
  /-- Someone who is not the worker asks for a job. -/
  | dequeue (token : CancellationToken)
  /-- One of those in line goes on if possible. -/
  | proceed (index : Nat)
  /-- One of those in line, but not the worker, gives up. -/
  | leave (index : Nat)
  /-- One of the jobs that such people hold comes to its end. -/
  | finish (index : Nat) (result : Except String Unit)
  | drop (index : Nat)
  | start (token : CancellationToken)
  /-- The worker does what it does next. If it runs an item, that comes to `result`. -/
  | work (result : Except String Unit)
  | beginWait (token : CancellationToken)
  | endWait (number : Nat)

end Workplace

structure Workplace (Item : Type) where
  queue : TaskQueue (Job Item)
  cancellations : Cancellations
  /-- Those who ask for the receiving end of the queue, in the order in which they came. The first
  of them holds it. -/
  line : List Workplace.Asker
  /-- The worker's token and what it is still to do in this round. -/
  worker : Option (CancellationToken × Worker.Process (Job Item))
  /-- The jobs that others have taken and not yet run. -/
  held : List (Job Item)
  /-- How many markers there have been. -/
  markers : Nat
  /-- Those who wait, with the numbers of their markers. -/
  waits : List (Nat × CancellationToken)
  history : Workplace.History Item

namespace Workplace

variable {Item : Type}

protected def empty : Workplace Item :=
  ⟨.empty, .empty, [], none, [], 0, [], []⟩

def record (place : Workplace Item) (entry : Entry Item) : Workplace Item :=
  { place with history := place.history ++ [entry] }

namespace Entry

/-- The job that has been put into the queue. -/
def accepted? : Entry Item → Option (Job Item)
  | enqueued job (.ok _) => some job
  | _ => none

/-- The job that has been taken out of the queue. -/
def handedOut? : Entry Item → Option (Job Item)
  | took _ _ (.ok job) => some job
  | _ => none

/-- The job that the worker has run to its end. -/
def completed? : Entry Item → Option (Job Item)
  | finished .worker job _ => some job
  | _ => none

/-- The number of the marker that someone has tried to put into the queue. -/
def marker? : Entry Item → Option Nat
  | enqueued (.marker number) _ => some number
  | _ => none

def isClosing : Entry Item → Bool
  | closed => true
  | _ => false

def isCancelling (token : CancellationToken) : Entry Item → Bool
  | cancelled other => other = token
  | _ => false

/-- Someone else than the worker has taken a job. -/
def isForeign : Entry Item → Bool
  | took .other _ (.ok _) => true
  | _ => false

/-- A marker has been run. -/
def isReaching (number : Nat) : Entry Item → Bool
  | finished _ (.marker other) _ => other = number
  | _ => false

def isDropping (number : Nat) : Entry Item → Bool
  | dropped (.marker other) => other = number
  | _ => false

end Entry

def accepted (history : History Item) : List (Job Item) :=
  history.filterMap Entry.accepted?

def handedOut (history : History Item) : List (Job Item) :=
  history.filterMap Entry.handedOut?

def completed (history : History Item) : List (Job Item) :=
  history.filterMap Entry.completed?

def markerNumbers (history : History Item) : List Nat :=
  history.filterMap Entry.marker?

def isClosed (history : History Item) : Bool :=
  history.any Entry.isClosing

def isCancelled (history : History Item) (token : CancellationToken) : Bool :=
  history.any (Entry.isCancelling token)

def isReached (history : History Item) (number : Nat) : Bool :=
  history.any (Entry.isReaching number)

def isDropped (history : History Item) (number : Nat) : Bool :=
  history.any (Entry.isDropping number)

/-- Only the worker has taken jobs. -/
def isWorkersOnly (history : History Item) : Bool :=
  !history.any Entry.isForeign

/-- What the history says that someone gets who asks for a job: a cancellation, or the first job
that was not taken yet, or the end of a closed queue, or nothing as long as a job may still come. -/
def front (history : History Item) (token : CancellationToken) :
    Option (Except QueueError (Job Item)) :=
  if isCancelled history token then
    some (.error .cancelled)
  else
    match (accepted history).drop (handedOut history).length with
    | job :: _ => some (.ok job)
    | [] => if isClosed history then some (.error .closed) else none

/-- What is due to someone who stands in the line at `index`. Only the first can get a job. -/
def due (history : History Item) (index : Nat) (token : CancellationToken) :
    Option (Except QueueError (Job Item)) :=
  if index = 0 || isCancelled history token then front history token else none

/-- Lets the worker go on until it asks for a job or is to run one. -/
def resume (token : CancellationToken) : Worker.Process (Job Item) → Workplace Item → Workplace Item
  | .done true, place => { place with worker := some (token, Worker.asking) }
  | .done false, place => { place with worker := none }.record .stopped
  | .ask (.report record) next, place => resume token (next ()) (place.record (.reported record))
  | process, place => { place with worker := some (token, process) }

/-- The worker is told what came of asking for a job. -/
def answer (outcome : Except QueueError (Job Item)) (place : Workplace Item) : Workplace Item :=
  match place.worker with
  | some (token, .ask .take next) => resume token (next outcome) place
  | _ => place

/-- Someone else than the worker keeps the job that came of asking. -/
def hold : Except QueueError (Job Item) → Workplace Item → Workplace Item
  | .ok job, place => { place with held := place.held ++ [job] }
  | .error _, place => place

/-- Asking for a job comes to its end. -/
def deliver (taker : Taker) (token : CancellationToken) (outcome : Except QueueError (Job Item))
    (place : Workplace Item) : Workplace Item :=
  let told := place.record (.took taker token outcome)
  match taker with
  | .worker => told.answer outcome
  | .other => told.hold outcome

/-- Someone asks for a job. Unless the token is cancelled that takes a place in the line. -/
def call (taker : Taker) (token : CancellationToken) (place : Workplace Item) : Workplace Item :=
  if place.cancellations.isCancelled token then
    place.deliver taker token (.error .cancelled)
  else
    { place with line := place.line ++ [.taker taker token] }

/-- The first in the line uses the receiving end of the queue and gives it up. Who asks for a job
stays as long as there is none and one may still come. Of the others only those can go on whose
tokens are cancelled. -/
def proceed (index : Nat) (place : Workplace Item) : Workplace Item :=
  let rest := place.line.eraseIdx index
  match place.line[index]? with
  | none => place
  | some (.taker taker token) =>
    let cancelled := place.cancellations.isCancelled token
    if index = 0 || cancelled then
      let (taken, queue) := place.queue.dequeue cancelled
      match taken.answer? with
      | none => place
      | some outcome => { place with queue, line := rest }.deliver taker token outcome
    else place
  | some .closer =>
    if index = 0 then
      { place with queue := place.queue.close, line := rest }.record .closed
    else place

/-- Someone other than the worker gives up asking. -/
def leave (index : Nat) (place : Workplace Item) : Workplace Item :=
  if place.line[index]?.any Asker.isWorker then place
  else { place with line := place.line.eraseIdx index }

def work (result : Except String Unit) (place : Workplace Item) : Workplace Item :=
  match place.worker with
  | some (token, .ask .take _) =>
    if place.line.any Asker.isWorker then place else place.call .worker token
  | some (token, .ask (.work job) next) =>
    resume token (next (job.result result))
      (place.record (.finished .worker job (job.result result)))
  | _ => place

/-- Someone lets go of a job, and that is told by an entry. -/
def release (index : Nat) (entry : Job Item → Entry Item) (place : Workplace Item) :
    Workplace Item :=
  match place.held[index]? with
  | none => place
  | some job => { place with held := place.held.eraseIdx index }.record (entry job)

/-- A worker begins, unless there is one. -/
def start (token : CancellationToken) (place : Workplace Item) : Workplace Item :=
  match place.worker with
  | some _ => place
  | none => { place with worker := some (token, Worker.asking) }.record (.started token)

def enqueue (item : Item) (place : Workplace Item) : Workplace Item :=
  match place.queue.enqueue (.item item) with
  | .error error => place.record (.enqueued (.item item) (.error error))
  | .ok queue => { place with queue }.record (.enqueued (.item item) (.ok ()))

/-- Someone puts a marker into the queue and waits for it. -/
def beginWait (token : CancellationToken) (place : Workplace Item) : Workplace Item :=
  let marker := .marker place.markers
  let (outcome, queue) :=
    place.queue.beginWait marker (place.cancellations.isCancelled token)
  let stored := (place.queue.enqueue marker).map fun _ => ()
  let begun := { place with queue, markers := place.markers + 1 }.record (.enqueued marker stored)
  match outcome with
  | .ok _ => { begun with waits := (place.markers, token) :: place.waits }
  | .error error => begun.record (.waited place.markers (.error error))

/-- Waiting ends if it can. -/
def endWait (number : Nat) (place : Workplace Item) : Workplace Item :=
  match place.waits.find? fun wait => wait.1 = number with
  | none => place
  | some wait =>
    let cancelled := place.cancellations.isCancelled wait.2
    let reached := isReached place.history number
    if cancelled || reached || isDropped place.history number then
      { place with waits := place.waits.filter fun wait => wait.1 ≠ number }.record
        (.waited number (TaskQueue.endWait reached cancelled))
    else place

def step (place : Workplace Item) : Move Item → Workplace Item
  | .enqueue item => place.enqueue item
  | .close => { place with line := place.line ++ [.closer] }
  | .cancel token =>
    { place with cancellations := place.cancellations.cancel token }.record (.cancelled token)
  | .dequeue token => place.call .other token
  | .proceed index => place.proceed index
  | .leave index => place.leave index
  | .finish index result =>
    place.release index fun job => .finished .other job (job.result result)
  | .drop index => place.release index .dropped
  | .start token => place.start token
  | .work result => place.work result
  | .beginWait token => place.beginWait token
  | .endWait number => place.endWait number

/-- What becomes of a new workplace when some moves are made. -/
def after (moves : List (Move Item)) : Workplace Item :=
  moves.foldl step .empty

end Workplace

end EventSourcing
