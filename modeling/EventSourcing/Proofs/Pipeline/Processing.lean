import EventSourcing.Proofs.Pipeline.Showing
import EventSourcing.Proofs.Store.Sequential

namespace EventSourcing.Pipeline

open Repository

variable {State Command E : Type} {setting : Service.Setting State Command E}
  {pipeline : Pipeline E} {live : Set CancellationToken} {subscribers : List Nat}
  {base ledger : Ledger E}
  {queue : TaskQueue Unit} {received : List (Nat × RecordedEvent E)}

/-- Requests of the store are answered by the parts of the service. -/
def storeHandling (setting : Service.Setting State Command E) (base : Ledger E) :
    Handling (Store.Request E) Store.Request.Reply (Pipeline E) :=
  .serving (Service.answerStore setting.repositoryConfig) (handling setting base)

theorem Shows.ensures_schedule (hshows : Shows live subscribers ledger queue received pipeline)
    (hgrows : base.Grows ledger) :
    (Service.ask .scheduleDelivery).Ensures (handling setting base)
      (fun _ later => Shows live subscribers ledger queue.offered received later) pipeline := by
  have hlater : (answerService setting pipeline .scheduleDelivery).2 =
      pipeline.withQueue queue.offered := by
    have hqueue := hshows.queue
    unfold answerService Service.answer TaskQueue.enqueue TaskQueue.offered
    rw [← hqueue]
    cases pipeline.service.queue.isClosed <;> rfl
  refine ⟨hshows.holds hgrows, ?_⟩
  change Shows live subscribers ledger queue.offered received (answerService setting pipeline _).2
  rw [hlater]
  exact { hshows with queue := rfl }

theorem Shows.ensures_listEvents (hshows : Shows live subscribers ledger queue received pipeline)
    (hgrows : base.Grows ledger) (number : Nat) (key : AggregateKey) :
    (Service.answerStore setting.repositoryConfig number (.listEvents key)).Ensures
      (handling setting base) (fun listing later => listing = .ok (ledger key).events ∧
        Shows live subscribers ledger queue received later) pipeline := by
  refine (hshows.ensures_perform hgrows number (.listEvents key 0 none)).mono ?_
  rintro listing later ⟨⟨hanswers, -⟩, hlater, -⟩
  exact ⟨Ledger.listing_eq_of_answers (hshows.mirrors.sound key) hanswers, hlater⟩

theorem Shows.ensures_appendEvents (hshows : Shows live subscribers ledger queue received pipeline)
    (hgrows : base.Grows ledger) (number : Nat) {key : AggregateKey}
    {batch : List (RecordedEvent E)} (haccepts : (ledger key).Accepts key batch) :
    (Service.answerStore setting.repositoryConfig number (.appendEvents key batch)).Ensures
      (handling setting base) (fun outcome later => outcome = .ok () ∧
        Shows live subscribers (ledger.apply (.append key batch)) queue received later)
      pipeline := by
  refine (hshows.ensures_perform hgrows number (.append key batch)).mono ?_
  rintro outcome later ⟨⟨hanswers, -⟩, hlater, -⟩
  exact ⟨Ledger.outcome_eq_of_answers haccepts hanswers, hlater⟩

/-- The pipeline shows a ledger that has grown from another. -/
def Stands (live : Set CancellationToken) (subscribers : List Nat)
    (received : List (Nat × RecordedEvent E)) (base ledger : Ledger E) (queue : TaskQueue Unit)
    (pipeline : Pipeline E) : Prop :=
  base.Grows ledger ∧ Shows live subscribers ledger queue received pipeline

theorem serves (setting : Service.Setting State Command E) (live : Set CancellationToken)
    (subscribers : List Nat) (received : List (Nat × RecordedEvent E)) (base : Ledger E) :
    Store.Serves (storeHandling setting base) (Stands live subscribers received base) where
  sound hstands := hstands.2.mirrors.sound
  lists hstands key number :=
    (hstands.2.ensures_listEvents hstands.1 number key).mono fun _ _ hlater =>
      ⟨hlater.1, hstands.1, hlater.2⟩
  appends hstands _ _ haccepts number :=
    (hstands.2.ensures_appendEvents hstands.1 number haccepts).mono fun _ _ hlater =>
      ⟨hlater.1, hstands.1.trans (Ledger.grows_apply _ _), hlater.2⟩
  schedules hstands _ :=
    (hstands.2.ensures_schedule hstands.1).mono fun _ _ hlater => ⟨hstands.1, hlater⟩
  reaches hstands _ _ _ := ⟨hstands.2.holds hstands.1, hstands⟩
  reports hstands _ _ := ⟨hstands.2.holds hstands.1, hstands⟩

/-- What becomes of a pipeline when a command comes to something. -/
def Becomes (setting : Service.Setting State Command E) (live : Set CancellationToken)
    (subscribers : List Nat)
    (ledger : Ledger E) (queue : TaskQueue Unit) (received : List (Nat × RecordedEvent E))
    (key : AggregateKey) (newEvents : List (RecordedEvent E)) (pipeline : Pipeline E) : Prop :=
  Shows live subscribers (ledger.apply (.append key newEvents))
    (if setting.delivers && !newEvents.isEmpty then queue.offered else queue) received pipeline

/-- A command comes to what the log of its aggregate decides, and only its new events are added. -/
theorem Shows.ensures_process (hshows : Shows live subscribers ledger queue received pipeline)
    (hgrows : base.Grows ledger) (key : AggregateKey) (command : Command) :
    (Service.Call.program setting (.process key command)).Ensures (handling setting base)
      (fun outcome later => outcome =
          Store.decision setting.domain key command (ledger key).events ∧
        Becomes setting live subscribers ledger queue received key
          (Store.newEvents (Store.decision setting.domain key command (ledger key).events)) later)
      pipeline := by
  have hprocess := (serves setting live subscribers received base).ensures_processCommand
    ⟨hgrows, hshows⟩ setting.domain setting.storeConfig setting.delivers key command
  rw [Service.Call.program, Program.ensures_bind]
  exact (hprocess.serve 0).mono fun served later hserved => ⟨hserved.1, hserved.2.2⟩

end EventSourcing.Pipeline
