import EventSourcing.Proofs.Pipeline.Independence
import EventSourcing.Proofs.Scheduling.Stage

namespace EventSourcing.TaskQueue

@[simp]
theorem isClosed_offered (queue : TaskQueue Unit) : queue.offered.isClosed = queue.isClosed := by
  unfold offered
  split <;> rfl

@[simp]
theorem isClosed_repeat_offered (count : Nat) (queue : TaskQueue Unit) :
    (Nat.repeat offered count queue).isClosed = queue.isClosed := by
  induction count with
  | zero => rfl
  | succ count ih => exact (isClosed_offered _).trans ih

@[simp]
theorem isClosed_dequeue {Item : Type} (queue : TaskQueue Item) (cancelled : Bool) :
    (queue.dequeue cancelled).2.isClosed = queue.isClosed := by
  unfold dequeue
  split
  · rfl
  · split <;> rfl

end EventSourcing.TaskQueue

namespace EventSourcing.Worker

variable {σ Item α β : Type} {inv : σ → Prop} {take : StateM σ (Taken Item)}
  {work : Item → StateM σ (Except String Unit)} {report : LogRecord → StateM σ Unit}

/-- One step after the other keeps what each of them keeps. -/
theorem bind_keeps {first : StateM σ α} {second : α → StateM σ β} {state : σ}
    (hfirst : inv (first state).2)
    (hsecond : ∀ value later, inv later → inv (second value later).2) :
    inv ((first >>= second) state).2 :=
  hsecond _ _ hfirst

theorem runItem_keeps (hwork : ∀ item state, inv state → inv (work item state).2)
    (hreport : ∀ record state, inv state → inv (report record state).2) (item : Item) {state : σ}
    (hinv : inv state) : inv (runItem work report item state).2 := by
  refine bind_keeps (hwork item state hinv) ?_
  rintro (text | _) ran hran
  · exact hreport _ ran hran
  · exact hran

theorem handle_keeps (hwork : ∀ item state, inv state → inv (work item state).2)
    (hreport : ∀ record state, inv state → inv (report record state).2)
    (outcome : Except QueueError Item) {state : σ} (hinv : inv state) :
    inv (handle work report outcome state).2 := by
  cases outcome with
  | ok item => exact bind_keeps (runItem_keeps hwork hreport item hinv) fun _ _ hrun => hrun
  | error error => exact hinv

/-- A worker keeps what taking, running and reporting an item keep. -/
theorem run_keeps (htake : ∀ state, inv state → inv (take state).2)
    (hwork : ∀ item state, inv state → inv (work item state).2)
    (hreport : ∀ record state, inv state → inv (report record state).2) (rounds : Nat) {state : σ}
    (hinv : inv state) : inv (run take work report rounds state).2 := by
  induction rounds generalizing state with
  | zero => exact hinv
  | succ rounds ih =>
    refine bind_keeps (htake state hinv) fun taken later hlater => ?_
    cases taken.answer? with
    | none => exact hlater
    | some outcome =>
      refine bind_keeps (handle_keeps hwork hreport outcome hlater) fun goesOn next hnext => ?_
      cases goesOn with
      | true => exact ih hnext
      | false => exact hnext

end EventSourcing.Worker

namespace EventSourcing.Stage

open Repository

variable {State Command E Ω α : Type} {setting : Service.Setting State Command E}
  {surroundings : Surroundings E Ω} {stage : Stage E Ω}

/-- Every step of a call is answered on the stage. -/
def handling (surroundings : Surroundings E Ω) :
    Handling (Service.Request E) Service.Request.Reply (Stage E Ω) :=
  .answering (answer surroundings) fun _ => True

/-- An operation of the repository does on the stage what it does alone. -/
theorem alone_relay (number : Nat) (call : Repository.Call E) (operation : Repository.Operation E α)
    (stage : Stage E Ω) :
    (Service.relay number call operation).alone (answer surroundings) stage =
      ((runAlone operation stage.repository).1,
        { stage with repository := (runAlone operation stage.repository).2 }) := by
  induction operation generalizing stage with
  | done value => rfl
  | ask request next ih => exact ih _ _

/-- What there is to see of a stage: a ledger and the queue. -/
def Shows (ledger : Ledger E) (queue : TaskQueue Unit) (stage : Stage E Ω) : Prop :=
  Mirrors stage.repository.view ledger ∧ stage.queue = queue

section Requests

variable {ledger : Ledger E} {queue : TaskQueue Unit}

theorem Shows.ensures_perform (hshows : Shows ledger queue stage) (config : RepositoryConfig)
    (number : Nat) (call : Repository.Call E) :
    (Service.perform config number call).Ensures (handling surroundings) (fun outcome later =>
      ledger.Answers call outcome ∧ Shows (ledger.apply call) queue later) stage := by
  have hcall := hshows.1.call config call
  refine Program.ensures_of_alone ?_
  rw [Service.perform, alone_relay]
  exact ⟨hcall.1, hcall.2, hshows.2⟩

theorem serves (config : RepositoryConfig) (surroundings : Surroundings E Ω) :
    Store.Serves (.serving (Service.answerStore config) (handling surroundings)) Shows where
  sound hshows := hshows.1.sound
  lists := by
    intro ledger queue stage hshows key number
    refine (hshows.ensures_perform config number (.listEvents key 0 none)).mono ?_
    rintro listing later ⟨hanswers, hlater⟩
    exact ⟨Ledger.listing_eq_of_answers (hshows.1.sound key) hanswers, hlater⟩
  appends := by
    intro ledger queue stage hshows key batch haccepts number
    refine (hshows.ensures_perform config number (.append key batch)).mono ?_
    rintro outcome later ⟨hanswers, hlater⟩
    exact ⟨Ledger.outcome_eq_of_answers haccepts hanswers, hlater⟩
  schedules := by
    rintro ledger queue stage ⟨hmirrors, rfl⟩ number
    refine ⟨trivial, ?_⟩
    change Shows ledger stage.queue.offered (stage.answer surroundings .scheduleDelivery).2
    unfold answer TaskQueue.enqueue TaskQueue.offered
    cases hclosed : stage.queue.isClosed
    · exact ⟨hmirrors, by simp⟩
    · exact ⟨hmirrors, rfl⟩
  reaches hshows _ _ _ := ⟨trivial, hshows⟩
  reports hshows _ _ := ⟨trivial, hshows⟩

/-- A command comes to what the account of its aggregate decides, and its new events are added. -/
theorem Shows.ensures_process (hshows : Shows ledger queue stage)
    (setting : Service.Setting State Command E) (surroundings : Surroundings E Ω)
    (key : AggregateKey) (command : Command) :
    (Service.Call.program setting (.process key command)).Ensures (handling surroundings)
      (fun outcome later => outcome =
          Store.decision setting.domain key command (ledger key).events ∧
        Store.Becomes Shows setting.delivers ledger queue key
          (Store.newEvents (Store.decision setting.domain key command (ledger key).events)) later)
      stage := by
  have hprocess := (serves setting.repositoryConfig surroundings).ensures_processCommand hshows
    setting.domain setting.storeConfig setting.delivers key command
  rw [Service.Call.program, Program.ensures_bind]
  exact (hprocess.serve 0).mono fun served later hserved => hserved

end Requests

/-- The repository stands for a ledger with these logs, whatever is delivered of them. -/
def Holds (logs : AggregateKey → List (RecordedEvent E)) (stage : Stage E Ω) : Prop :=
  ∃ ledger, Mirrors stage.repository.view ledger ∧ ∀ key, (ledger key).events = logs key

/-- The logs with what a command comes to. -/
def logsAfter (logs : AggregateKey → List (RecordedEvent E)) (key : AggregateKey)
    (outcome : Except (StoreError State Command) (CommandResult State E)) :
    AggregateKey → List (RecordedEvent E) :=
  Function.update logs key (logs key ++ Store.newEvents outcome)

variable {logs : AggregateKey → List (RecordedEvent E)}

/-- A command comes to what the log of its aggregate decides. Its new events are added to that log,
and a drain is scheduled if there are any. -/
theorem Holds.process (setting : Service.Setting State Command E) (surroundings : Surroundings E Ω)
    (hholds : Holds logs stage) (key : AggregateKey) (command : Command) :
    (stage.process setting surroundings key command).1 =
        Store.decision setting.domain key command (logs key) ∧
      Holds (logsAfter logs key (Store.decision setting.domain key command (logs key)))
        (stage.process setting surroundings key command).2 ∧
      (stage.process setting surroundings key command).2.queue =
        if setting.delivers &&
            !(Store.newEvents (Store.decision setting.domain key command (logs key))).isEmpty
        then stage.queue.offered else stage.queue := by
  obtain ⟨ledger, hmirrors, hlogs⟩ := hholds
  have hcall := Shows.ensures_process (show Shows ledger stage.queue stage from ⟨hmirrors, rfl⟩)
    setting surroundings key command
  have haccepts := Store.accepts_decision (hmirrors.sound key) setting.domain command
  obtain ⟨houtcome, hlater, hqueue⟩ := hcall.alone
  rw [hlogs] at houtcome hlater hqueue haccepts
  refine ⟨houtcome, ⟨_, hlater, fun other => ?_⟩, hqueue⟩
  by_cases hother : other = key
  · subst hother
    rw [logsAfter, Function.update_self, Ledger.apply, Function.update_self, Account.append,
      if_pos haccepts, hlogs]
  · rw [logsAfter, Function.update_of_ne hother, Ledger.apply, Function.update_of_ne hother, hlogs]

/-- What drains leave as it is. -/
def Keeps (logs : AggregateKey → List (RecordedEvent E)) (isClosed : Bool) (stage : Stage E Ω) :
    Prop :=
  Holds logs stage ∧ stage.queue.isClosed = isClosed

variable {isClosed : Bool}

/-- Whatever goes on around a drain, the logs stay as they are. -/
theorem Keeps.ensures_publish (hkeeps : Keeps logs isClosed stage) (event : RecordedEvent E) :
    (Service.publish event).Ensures (handling surroundings) (fun _ => Keeps logs isClosed)
      stage := by
  have hlooked : Keeps logs isClosed (answer surroundings stage (.publish event)).2 := hkeeps
  refine ⟨trivial, ?_⟩
  change Program.Ensures _ _
    (PubSub.publish (fun _ => Service.Topic.events) Service.receive _ event)
    (answer surroundings stage (.publish event)).2
  rw [PubSub.publish, PubSub.publishTo, Program.ensures_bind]
  refine (Program.ensures_forEachCollecting_of_keeps (fun _ => id) ?_ _ hlooked).mono ?_
  · intro subscription state hstate
    unfold PubSub.hand
    split
    · have hhanded : Keeps logs isClosed
          (answer surroundings state (.hand subscription.subscriber event)).2 :=
        ⟨hstate.1, (TaskQueue.isClosed_repeat_offered _ _).trans hstate.2⟩
      exact ⟨trivial, trivial, hhanded⟩
    · exact hstate
  · rintro ((_ | _) | _) later hlater <;> exact hlater

/-- A call of the repository that appends nothing leaves the logs as they are. -/
theorem Keeps.ensures_perform (hkeeps : Keeps logs isClosed stage) (config : RepositoryConfig)
    (number : Nat) {call : Repository.Call E}
    (hcall : ∀ (ledger : Ledger E) key, (ledger.apply call key).events = (ledger key).events) :
    (Service.perform config number call).Ensures (handling surroundings)
      (fun _ => Keeps logs isClosed) stage := by
  obtain ⟨⟨ledger, hmirrors, hlogs⟩, hclosed⟩ := hkeeps
  have hshows : Shows ledger stage.queue stage := ⟨hmirrors, rfl⟩
  refine (hshows.ensures_perform config number call).mono ?_
  rintro outcome later ⟨-, hlater, hqueue⟩
  exact ⟨⟨_, hlater, fun key => (hcall ledger key).trans (hlogs key)⟩, hqueue ▸ hclosed⟩

theorem Keeps.ensures_drain (hkeeps : Keeps logs isClosed stage) (token : CancellationToken) :
    (Service.Call.program setting (.drain token)).Ensures (handling surroundings)
      (fun _ => Keeps logs isClosed) stage := by
  have hrequests : ∀ (request : Delivery.Request E) (state : Stage E Ω),
      Keeps logs isClosed state → ∀ number,
        (Service.answerDelivery setting.repositoryConfig token number request).Ensures
          (handling surroundings) (fun _ => Keeps logs isClosed) state := by
    intro request state hstate number
    cases request with
    | listUndelivered =>
      refine Program.ensures_bind.2 ((hstate.ensures_perform _ number fun _ _ => rfl).mono ?_)
      rintro (error | listing) later hlater
      · exact hlater
      · exact ⟨trivial, hlater⟩
    | isCancelled => exact ⟨trivial, hstate⟩
    | publish event => exact hstate.ensures_publish event
    | markDelivered key last =>
      exact hstate.ensures_perform _ number fun ledger => ledger.events_apply_markDelivered key last
  have hdrain : (Delivery.publishAll (E := E)).Ensures
      (.serving (Service.answerDelivery setting.repositoryConfig token) (handling surroundings))
      (fun _ => Keeps logs isClosed) stage :=
    Program.ensures_of_keeps hrequests _ hkeeps
  rw [Service.Call.program, Program.ensures_bind]
  exact (hdrain.serve 0).mono fun _ _ hlater => hlater

theorem Keeps.work (hkeeps : Keeps logs isClosed stage) (token : CancellationToken) (rounds : Nat) :
    Keeps logs isClosed (work setting surroundings token rounds stage).2 := by
  refine Worker.run_keeps (fun state hstate => ?_) (fun item state hstate => ?_)
    (fun record state hstate => hstate) rounds hkeeps
  · exact ⟨hstate.1, (TaskQueue.isClosed_dequeue _ _).trans hstate.2⟩
  · have hitem : (Pipeline.item setting token).Ensures (handling surroundings)
        (fun _ => Keeps logs isClosed) state := by
      refine Program.ensures_bind.2 ((hstate.ensures_drain token).mono ?_)
      rintro (error | _) later hlater <;> exact hlater
    exact hitem.alone

/-- What some commands come to, one after the other, judged on logs, and the logs afterwards. -/
def judged (domain : Domain State Command E) :
    (AggregateKey → List (RecordedEvent E)) → List (AggregateKey × Command) →
      List (Except (StoreError State Command) (CommandResult State E)) ×
        (AggregateKey → List (RecordedEvent E))
  | logs, [] => ([], logs)
  | logs, (key, command) :: rest =>
    let outcome := Store.decision domain key command (logs key)
    let (outcomes, last) := judged domain (logsAfter logs key outcome) rest
    (outcome :: outcomes, last)

/-- The commands of a play come to what is judged on the logs at its beginning, whatever is
delivered meanwhile. -/
theorem Keeps.play (setting : Service.Setting State Command E) (surroundings : Surroundings E Ω)
    (hkeeps : Keeps logs isClosed stage) (steps : List (Step Command)) :
    (play setting surroundings stage steps).1 =
        (judged setting.domain logs (commands steps)).1 ∧
      Keeps (judged setting.domain logs (commands steps)).2 isClosed
        (play setting surroundings stage steps).2 := by
  induction steps generalizing logs stage with
  | nil => exact ⟨rfl, hkeeps⟩
  | cons step rest ih =>
    cases step with
    | process key command =>
      obtain ⟨houtcome, hholds, hqueue⟩ := hkeeps.1.process setting surroundings key command
      have hclosed : (stage.process setting surroundings key command).2.queue.isClosed =
          isClosed := by
        rw [hqueue]
        split
        · exact (TaskQueue.isClosed_offered _).trans hkeeps.2
        · exact hkeeps.2
      have hrest := ih ⟨hholds, hclosed⟩
      exact ⟨congrArg₂ List.cons houtcome hrest.1, hrest.2⟩
    | work token rounds => exact ih (hkeeps.work token rounds)

/-- Two plays: every command comes to the same, and so do logs and ids. -/
structure Agrees {Ω' : Type}
    (one : List (Except (StoreError State Command) (CommandResult State E)) × Stage E Ω)
    (other : List (Except (StoreError State Command) (CommandResult State E)) × Stage E Ω') :
    Prop where
  outcomes : one.1 = other.1
  logs : ∀ key, one.2.repository.view.events key = other.2.repository.view.events key
  ids : ∀ type, one.2.repository.view.ids type = other.2.repository.view.ids type

/-- Logs tell all that there is to know of a repository but what is delivered. -/
theorem Holds.same {Ω' : Type} {other : Stage E Ω'} (hholds : Holds logs stage)
    (hother : Holds logs other) :
    (∀ key, stage.repository.view.events key = other.repository.view.events key) ∧
      ∀ type, stage.repository.view.ids type = other.repository.view.ids type := by
  obtain ⟨ledger, hmirrors, hlogs⟩ := hholds
  obtain ⟨otherLedger, hotherMirrors, hotherLogs⟩ := hother
  have hevents : ∀ key, (ledger key).events = (otherLedger key).events :=
    fun key => (hlogs key).trans (hotherLogs key).symm
  refine ⟨fun key => ?_, fun type => ?_⟩
  · rw [hmirrors.events, hotherMirrors.events, hevents]
  · exact (hotherMirrors.enumerates type).eq (hmirrors.enumerates type) hevents

/-- Plays of the same commands agree that begin with the same logs. -/
theorem agrees_of_keeps {Ω' : Type} {other : Stage E Ω'} {isOtherClosed : Bool}
    (hkeeps : Keeps logs isClosed stage) (hother : Keeps logs isOtherClosed other)
    (setting : Service.Setting State Command E) (delivers otherDelivers : Bool)
    (surroundings : Surroundings E Ω) (otherSurroundings : Surroundings E Ω')
    {steps otherSteps : List (Step Command)} (hcommands : commands otherSteps = commands steps) :
    Agrees (play (setting.withTrigger otherDelivers) otherSurroundings other otherSteps)
      (play (setting.withTrigger delivers) surroundings stage steps) := by
  obtain ⟨houtcomes, hheld, -⟩ := hkeeps.play (setting.withTrigger delivers) surroundings steps
  obtain ⟨hotherOutcomes, hotherHeld, -⟩ :=
    hother.play (setting.withTrigger otherDelivers) otherSurroundings otherSteps
  rw [hcommands] at hotherOutcomes hotherHeld
  obtain ⟨hlogs, hids⟩ := hotherHeld.same hheld
  exact ⟨hotherOutcomes.trans houtcomes.symm, hlogs, hids⟩

/-- Whether a command has led to a new event; it has not if it is a duplicate. -/
def accomplishes : Except (StoreError State Command) (CommandResult State E) → Bool
  | .ok result => !result.isDuplicate && !result.newEvents.isEmpty
  | .error _ => false

theorem accomplishes_decision (domain : Domain State Command E) (key : AggregateKey)
    (command : Command) (events : List (RecordedEvent E)) :
    accomplishes (Store.decision domain key command events) =
      !(Store.newEvents (Store.decision domain key command events)).isEmpty := by
  cases hdecision : Store.decision domain key command events with
  | error error => rfl
  | ok result =>
    cases hduplicate : result.isDuplicate with
    | true =>
      have hnone : result.newEvents = [] := Store.newEvents_of_isDuplicate hdecision hduplicate
      simp [accomplishes, Store.newEvents, hnone]
    | false => simp [accomplishes, Store.newEvents, hduplicate]

/-- A command with a trigger at an open queue schedules one drain if it has led to a new event, and
none otherwise. -/
theorem Keeps.queue_process (hkeeps : Keeps logs false stage)
    (setting : Service.Setting State Command E) (surroundings : Surroundings E Ω)
    (key : AggregateKey) (command : Command) :
    (stage.process (setting.withTrigger true) surroundings key command).2.queue =
      ⟨stage.queue.items ++ if accomplishes (stage.process (setting.withTrigger true) surroundings
        key command).1 then [()] else [], false⟩ := by
  obtain ⟨houtcome, -, hqueue⟩ :=
    hkeeps.1.process (setting.withTrigger true) surroundings key command
  rw [houtcome, accomplishes_decision, hqueue, Service.Setting.withTrigger, Bool.true_and]
  split
  · exact TaskQueue.offered_of_open hkeeps.2
  · rw [List.append_nil, ← hkeeps.2]

variable {Ω' Ω'' : Type}

/-- Without a trigger, with one at an open queue and with one at a closed queue, whatever is
delivered between the commands and however subscribers take it: every command comes to the same, and
so do logs and ids. At the open queue just those commands schedule a drain, one each, that have led
to a new event. -/
theorem scheduling_never_influences_commands (setting : Service.Setting State Command E)
    (earlier : List (Repository.Call E)) {silent : Stage E Ω} {opened : Stage E Ω'}
    {closed : Stage E Ω''}
    (hsilent : silent.repository = Repository.after setting.repositoryConfig earlier)
    (hopened : opened.repository = silent.repository ∧ opened.queue.isClosed = false)
    (hclosed : closed.repository = silent.repository ∧ closed.queue.isClosed = true)
    (aroundSilent : Surroundings E Ω) (aroundOpened : Surroundings E Ω')
    (aroundClosed : Surroundings E Ω'') {silentSteps openedSteps closedSteps : List (Step Command)}
    (hopenedSteps : commands openedSteps = commands silentSteps)
    (hclosedSteps : commands closedSteps = commands silentSteps) :
    Agrees (play (setting.withTrigger true) aroundOpened opened openedSteps)
      (play (setting.withTrigger false) aroundSilent silent silentSteps) ∧
    Agrees (play (setting.withTrigger true) aroundClosed closed closedSteps)
      (play (setting.withTrigger false) aroundSilent silent silentSteps) ∧
    ∀ before key command after, openedSteps = before ++ .process key command :: after →
      let moment := (play (setting.withTrigger true) aroundOpened opened before).2
      let (outcome, later) := moment.process (setting.withTrigger true) aroundOpened key command
      later.queue = ⟨moment.queue.items ++ if accomplishes outcome then [()] else [], false⟩ := by
  have hmirrors := mirrors_after setting.repositoryConfig earlier
  rw [← hsilent] at hmirrors
  have hkeepsSilent : Keeps (fun key => (Ledger.after earlier key).events) silent.queue.isClosed
      silent := ⟨⟨_, hmirrors, fun _ => rfl⟩, rfl⟩
  have hkeepsOpened : Keeps (fun key => (Ledger.after earlier key).events) false opened :=
    ⟨⟨_, hopened.1 ▸ hmirrors, fun _ => rfl⟩, hopened.2⟩
  have hkeepsClosed : Keeps (fun key => (Ledger.after earlier key).events) true closed :=
    ⟨⟨_, hclosed.1 ▸ hmirrors, fun _ => rfl⟩, hclosed.2⟩
  refine ⟨agrees_of_keeps hkeepsSilent hkeepsOpened _ _ _ _ _ hopenedSteps,
    agrees_of_keeps hkeepsSilent hkeepsClosed _ _ _ _ _ hclosedSteps, ?_⟩
  intro before key command after _
  have hmoment := (hkeepsOpened.play (setting.withTrigger true) aroundOpened before).2
  exact hmoment.queue_process setting aroundOpened key command

/-- A service with two subscribers. One of them refuses everything, and asks for another drain
instead. -/
def grumbling : Surroundings Nat (Service Nat) where
  answer := Service.answer
    { Service.sampleSetting with
      verdict := fun _ subscriber _ => if subscriber = 1 then .error "unwanted" else .ok () }
  schedules _ subscriber _ := subscriber

def attended (queue : TaskQueue Unit) : Stage Nat (Service Nat) :=
  ⟨Repository.after .standard Pipeline.twoAggregates, queue, (Pipeline.start [0, 1]).service⟩

/-- Two commands with a repetition of the first, and a worker in between. -/
def attendedSteps : List (Step Nat) :=
  [.process Service.sampleKey 5, .work ⟨0⟩ 2, .process Service.sampleKey 5, .work ⟨0⟩ 1,
    .process Service.sampleKey 7]

def unattendedSteps : List (Step Nat) :=
  [.process Service.sampleKey 5, .process Service.sampleKey 5, .process Service.sampleKey 7]

/-- The stage before the last command. -/
def attendedLate : Stage Nat (Service Nat) :=
  (play (Service.sampleSetting.withTrigger true) grumbling (attended .empty)
    (attendedSteps.take 4)).2

theorem scheduling_never_influences_commands_of_grumbling :
    commands attendedSteps = commands unattendedSteps ∧
    (play (Service.sampleSetting.withTrigger false) grumbling (attended .empty)
      unattendedSteps).1.map accomplishes = [true, false, true] ∧
    Agrees (play (Service.sampleSetting.withTrigger true) grumbling (attended .empty) attendedSteps)
      (play (Service.sampleSetting.withTrigger false) grumbling (attended .empty)
        unattendedSteps) ∧
    Agrees (play (Service.sampleSetting.withTrigger true) grumbling (attended ⟨[], true⟩)
        attendedSteps)
      (play (Service.sampleSetting.withTrigger false) grumbling (attended .empty)
        unattendedSteps) ∧
    (attendedLate.process (Service.sampleSetting.withTrigger true) grumbling Service.sampleKey
      7).2.queue = ⟨attendedLate.queue.items ++ [()], false⟩ := by
  have hcommands : commands attendedSteps = commands unattendedSteps := by decide +kernel
  have hsilent : (attended .empty).repository =
      Repository.after Service.sampleSetting.repositoryConfig Pipeline.twoAggregates := rfl
  have hopened : (attended .empty).repository = (attended .empty).repository ∧
      (attended .empty).queue.isClosed = false := ⟨rfl, rfl⟩
  have hclosed : (attended ⟨[], true⟩).repository = (attended .empty).repository ∧
      (attended ⟨[], true⟩).queue.isClosed = true := ⟨rfl, rfl⟩
  obtain ⟨hagrees, hagreesClosed, hqueue⟩ := scheduling_never_influences_commands
    Service.sampleSetting Pipeline.twoAggregates hsilent hopened hclosed grumbling grumbling
    grumbling hcommands hcommands
  have hlate := hqueue (attendedSteps.take 4) Service.sampleKey 7 [] rfl
  have haccomplishes : accomplishes (attendedLate.process (Service.sampleSetting.withTrigger true)
      grumbling Service.sampleKey 7).1 = true := by decide +kernel
  refine ⟨hcommands, by decide +kernel, hagrees, hagreesClosed, hlate.trans ?_⟩
  exact congrArg (fun items => TaskQueue.mk (attendedLate.queue.items ++ items) false)
    (if_pos haccomplishes)

end EventSourcing.Stage
