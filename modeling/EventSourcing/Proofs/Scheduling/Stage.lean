import EventSourcing.Proofs.Pipeline.Basic
import EventSourcing.Proofs.Store.Sequential

namespace EventSourcing

/-- The setting with or without someone to schedule deliveries with. -/
def Service.Setting.withTrigger {State Command E : Type} (setting : Setting State Command E)
    (delivers : Bool) : Setting State Command E :=
  { setting with delivers }

/-- What a drain meets besides the repository: the order of its listing, tokens, subscriptions and
subscribers. They do what they like, short of using the repository or the store. -/
structure Surroundings (E Ω : Type) where
  answer : Ω → (request : Service.Request E) → request.Reply × Ω
  /-- How many drains a subscriber schedules by itself when it gets an event. -/
  schedules : Ω → (subscriber : Nat) → RecordedEvent E → Nat

/-- A repository and a queue, with the state of what is around them. -/
structure Stage (E Ω : Type) where
  repository : Repository E
  queue : TaskQueue Unit
  around : Ω

namespace Stage

variable {State Command E Ω : Type}

/-- A step of a call. -/
def answer (surroundings : Surroundings E Ω) (stage : Stage E Ω) :
    (request : Service.Request E) → request.Reply × Stage E Ω
  | .repository _ _ request =>
    let (reply, repository) := stage.repository.answer request
    (reply, { stage with repository })
  | .scheduleDelivery =>
    match stage.queue.enqueue () with
    | .error error => (.error error, stage)
    | .ok queue => (.ok (), { stage with queue })
  | .reached _ _ => ((), stage)
  | .report _ => ((), stage)
  | .close => ((), { stage with queue := stage.queue.close })
  | .hand subscriber event =>
    let count := surroundings.schedules stage.around subscriber event
    let (_, around) := surroundings.answer stage.around (.hand subscriber event)
    ((), { stage with queue := Nat.repeat TaskQueue.offered count stage.queue, around })
  | request =>
    let (reply, around) := surroundings.answer stage.around request
    (reply, { stage with around })

/-- Processes a command with nothing else in between. -/
def process (setting : Service.Setting State Command E) (surroundings : Surroundings E Ω)
    (key : AggregateKey) (command : Command) (stage : Stage E Ω) :
    Except (StoreError State Command) (CommandResult State E) × Stage E Ω :=
  (Service.Call.program setting (.process key command)).alone (answer surroundings) stage

/-- Takes the front item of the queue. -/
def take (surroundings : Surroundings E Ω) (token : CancellationToken) :
    StateM (Stage E Ω) (Taken Unit) := fun stage =>
  let (cancelled, around) := surroundings.answer stage.around (.isCancelled token)
  let (taken, queue) := stage.queue.dequeue cancelled
  (taken, { stage with queue, around })

/-- A worker is let have so many rounds. -/
def work (setting : Service.Setting State Command E) (surroundings : Surroundings E Ω)
    (token : CancellationToken) (rounds : Nat) : StateM (Stage E Ω) Unit :=
  Worker.run (take surroundings token)
    (fun _ stage => (Pipeline.item setting token).alone (answer surroundings) stage)
    (fun record stage => stage.answer surroundings (.report record)) rounds

/-- A service without its repository and its queue. No subscriber uses it. -/
def ofService (setting : Service.Setting State Command E) : Surroundings E (Service E) where
  answer := Service.answer setting
  schedules _ _ _ := 0

/-- The service that has the repository and the queue on the stage. -/
def service (stage : Stage E (Service E)) : Service E :=
  { stage.around with repository := stage.repository, queue := stage.queue }

theorem answer_service (setting : Service.Setting State Command E) (stage : Stage E (Service E))
    (request : Service.Request E) : Service.answer setting stage.service request =
      ((stage.answer (ofService setting) request).1,
        (stage.answer (ofService setting) request).2.service) := by
  cases request with
  | scheduleDelivery =>
    unfold Service.answer answer TaskQueue.enqueue
    cases hclosed : stage.queue.isClosed <;> simp [service, hclosed]
  | _ => rfl

/-- A call that runs alone does on the stage what it does to the service. -/
theorem alone_service (setting : Service.Setting State Command E) {α : Type}
    (operation : Service.Operation E α) (stage : Stage E (Service E)) :
    operation.alone (Service.answer setting) stage.service =
      ((operation.alone (answer (ofService setting)) stage).1,
        (operation.alone (answer (ofService setting)) stage).2.service) := by
  induction operation generalizing stage with
  | done value => rfl
  | ask request next ih =>
    rw [Program.alone, answer_service]
    exact ih _ _

inductive Step (Command : Type) where
  | process (key : AggregateKey) (command : Command)
  | work (token : CancellationToken) (rounds : Nat)

def Step.command? : Step Command → Option (AggregateKey × Command)
  | process key command => some (key, command)
  | work _ _ => none

/-- The commands of some steps, in order. -/
def commands (steps : List (Step Command)) : List (AggregateKey × Command) :=
  steps.filterMap Step.command?

/-- Takes some steps, one after the other: what the commands come to, and the stage afterwards. -/
def play (setting : Service.Setting State Command E) (surroundings : Surroundings E Ω) :
    Stage E Ω → List (Step Command) →
      List (Except (StoreError State Command) (CommandResult State E)) × Stage E Ω
  | stage, [] => ([], stage)
  | stage, .process key command :: rest =>
    let (outcome, later) := stage.process setting surroundings key command
    let (outcomes, last) := play setting surroundings later rest
    (outcome :: outcomes, last)
  | stage, .work token rounds :: rest =>
    play setting surroundings (work setting surroundings token rounds stage).2 rest

end Stage

end EventSourcing
