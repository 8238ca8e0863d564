import EventSourcing.Proofs.Ensures
import EventSourcing.Proofs.Repository.Mirror
import EventSourcing.Proofs.Store.Decision
import EventSourcing.Queue.Basic

namespace EventSourcing

/-- A queue that has been asked to take an item more. -/
def TaskQueue.offered (queue : TaskQueue Unit) : TaskQueue Unit :=
  if queue.isClosed then queue else ⟨queue.items ++ [()], queue.isClosed⟩

theorem TaskQueue.offered_of_open {queue : TaskQueue Unit} (h : queue.isClosed = false) :
    queue.offered = ⟨queue.items ++ [()], false⟩ := by
  rw [offered, h]
  rfl

namespace Repository.Ledger

variable {E : Type} {ledger : Ledger E} {key : AggregateKey}

/-- A listing without bounds is the whole log. -/
theorem listing_eq_of_answers (hsound : (ledger key).IsSound key)
    {listing : Result (List (RecordedEvent E))}
    (hanswers : ledger.Answers (.listEvents key 0 none) listing) :
    listing = .ok (ledger key).events := by
  have hevents : (ledger key).events.filter (fun event => 0 < event.sequenceId) =
      (ledger key).events := hsound.filter_eq_drop 0
  rwa [Answers, limit, hevents] at hanswers

theorem outcome_eq_of_answers {batch : List (RecordedEvent E)}
    (haccepts : (ledger key).Accepts key batch) {outcome : Result Unit}
    (hanswers : ledger.Answers (.append key batch) outcome) : outcome = .ok () := by
  rwa [Answers, Account.appendAnswer_of_accepts haccepts] at hanswers

end Repository.Ledger

namespace Store

open Repository

variable {State Command E σ : Type}

/-- A batch that continues the log is taken. -/
theorem accepts_record {account : Account E} {key : AggregateKey} (hsound : account.IsSound key)
    (source : Uuid) (events : List E) :
    account.Accepts key (record key source (lastPosition account.events) events) := by
  rw [lastPosition_eq_length hsound.positions]
  refine ⟨?_, fun event => key_of_mem_record _ _ _ _⟩
  rw [map_sequenceId_record, length_record]
  rfl

/-- What a command leads to continues the log on which it was judged. -/
theorem accepts_decision {account : Account E} {key : AggregateKey} (hsound : account.IsSound key)
    (domain : Domain State Command E) (command : Command) :
    account.Accepts key (newEvents (decision domain key command account.events)) := by
  have hnone : account.Accepts key [] := ⟨rfl, List.forall_mem_nil _⟩
  unfold decision
  cases domain.fresh key.type with
  | none => exact hnone
  | some fresh =>
    dsimp only
    split
    · exact hnone
    cases domain.processor key.type with
    | none => exact hnone
    | some processor =>
      dsimp only
      cases Domain.decide processor command _ with
      | failure errors => exact hnone
      | success events => exact accepts_record hsound _ events

/-- Nothing new comes of a command that is found in the log. -/
theorem newEvents_of_isDuplicate {domain : Domain State Command E} {key : AggregateKey}
    {command : Command} {events : List (RecordedEvent E)} {result : CommandResult State E}
    (hdecision : decision domain key command events = .ok result)
    (hduplicate : result.isDuplicate = true) : result.newEvents = [] := by
  unfold decision at hdecision
  cases hfresh : domain.fresh key.type with
  | none =>
    rw [hfresh] at hdecision
    cases hdecision
  | some fresh =>
    rw [hfresh] at hdecision
    dsimp only at hdecision
    split at hdecision
    · cases hdecision
      rfl
    cases hprocessor : domain.processor key.type with
    | none =>
      rw [hprocessor] at hdecision
      cases hdecision
    | some processor =>
      rw [hprocessor] at hdecision
      dsimp only at hdecision
      split at hdecision
      · cases hdecision
      · cases hdecision
        cases hduplicate

/-- The requests of the store are answered by someone who stands for a ledger and a queue. -/
structure Serves (handling : Handling (Request E) Request.Reply σ)
    (stands : Ledger E → TaskQueue Unit → σ → Prop) : Prop where
  sound : ∀ {ledger queue state}, stands ledger queue state → ∀ key, (ledger key).IsSound key
  lists : ∀ {ledger queue state}, stands ledger queue state → ∀ key,
    handling.ensures (.listEvents key) (fun listing later => listing = .ok (ledger key).events ∧
      stands ledger queue later) state
  appends : ∀ {ledger queue state}, stands ledger queue state → ∀ {key batch},
    (ledger key).Accepts key batch → handling.ensures (.appendEvents key batch)
      (fun outcome later => outcome = .ok () ∧
        stands (ledger.apply (.append key batch)) queue later) state
  schedules : ∀ {ledger queue state}, stands ledger queue state →
    handling.ensures .scheduleDelivery (fun _ later => stands ledger queue.offered later) state
  reaches : ∀ {ledger queue state}, stands ledger queue state → ∀ checkpoint key,
    handling.ensures (.reached checkpoint key) (fun _ later => stands ledger queue later) state
  reports : ∀ {ledger queue state}, stands ledger queue state → ∀ record,
    handling.ensures (.report record) (fun _ later => stands ledger queue later) state

section Serves

variable {handling : Handling (Request E) Request.Reply σ}
  {stands : Ledger E → TaskQueue Unit → σ → Prop} {ledger : Ledger E} {queue : TaskQueue Unit}
  {state : σ}

theorem Serves.ensures_scheduleDelivery (hserves : Serves handling stands)
    (hstands : stands ledger queue state) (isWanted : Bool) :
    (scheduleDelivery isWanted).Ensures handling
      (fun _ later => stands ledger (if isWanted then queue.offered else queue) later) state := by
  cases isWanted with
  | false => exact hstands
  | true =>
    refine handling.mono (hserves.schedules hstands) fun reply later hlater => ?_
    cases reply with
    | ok _ => exact hlater
    | error error => exact hserves.reports hlater _

theorem Serves.ensures_storeResult (hserves : Serves handling stands)
    (hstands : stands ledger queue state) (delivers : Bool) {key : AggregateKey}
    {result : CommandResult State E} (haccepts : (ledger key).Accepts key result.newEvents) :
    (storeResult delivers key result : Operation E (Except (AttemptError State Command) _)).Ensures
      handling (fun outcome later => outcome = .ok result ∧
        stands (ledger.apply (.append key result.newEvents))
          (if delivers && !result.newEvents.isEmpty then queue.offered else queue) later) state := by
  refine handling.mono (hserves.reaches hstands _ key) fun _ prepared hprepared => ?_
  refine handling.mono (hserves.appends hprepared haccepts) ?_
  rintro outcome appended ⟨rfl, happended⟩
  refine handling.mono (hserves.reaches happended _ key) fun _ reached hreached => ?_
  change (scheduleDelivery _ >>= _ : Operation E _).Ensures _ _ reached
  refine Program.ensures_bind.2 ?_
  refine (hserves.ensures_scheduleDelivery hreached _).mono fun _ scheduled hscheduled => ?_
  exact handling.mono (hserves.reaches hscheduled _ key) fun _ later hlater => ⟨rfl, hlater⟩

/-- What becomes of a ledger and a queue when a command comes to something. -/
def Becomes (stands : Ledger E → TaskQueue Unit → σ → Prop) (delivers : Bool) (ledger : Ledger E)
    (queue : TaskQueue Unit) (key : AggregateKey) (newEvents : List (RecordedEvent E))
    (state : σ) : Prop :=
  stands (ledger.apply (.append key newEvents))
    (if delivers && !newEvents.isEmpty then queue.offered else queue) state

/-- Without a new event everything stays as it is. -/
theorem becomes_nil (hstands : stands ledger queue state) (delivers : Bool) (key : AggregateKey) :
    Becomes stands delivers ledger queue key [] state := by
  unfold Becomes
  rw [ledger.apply_append_nil, List.isEmpty_nil, Bool.not_true, Bool.and_false,
    if_neg Bool.false_ne_true]
  exact hstands

theorem Serves.ensures_attempt (hserves : Serves handling stands)
    (hstands : stands ledger queue state) (domain : Domain State Command E) (delivers : Bool)
    (key : AggregateKey) (command : Command) :
    (attempt domain delivers key command).Ensures handling (fun outcome later =>
      outcome = (decision domain key command (ledger key).events).mapError .final ∧
        Becomes stands delivers ledger queue key
          (newEvents (decision domain key command (ledger key).events)) later) state := by
  cases hfresh : domain.fresh key.type with
  | none =>
    rw [attempt, replay, decision, hfresh]
    exact ⟨rfl, becomes_nil hstands delivers key⟩
  | some fresh =>
    rw [attempt_eq domain delivers command hfresh]
    refine handling.mono (hserves.lists hstands key) ?_
    rintro listing listed ⟨rfl, hlisted⟩
    have haccepts := accepts_decision (hserves.sound hlisted key) domain command
    dsimp only
    cases hdecision : decision domain key command (ledger key).events with
    | error error => exact ⟨rfl, becomes_nil hlisted delivers key⟩
    | ok result =>
      rw [hdecision] at haccepts
      rw [carryOut]
      split
      · next hduplicate =>
        have hnone : newEvents (.ok result : Except (StoreError State Command) _) = [] :=
          newEvents_of_isDuplicate hdecision hduplicate
        rw [hnone]
        exact ⟨rfl, becomes_nil hlisted delivers key⟩
      · exact hserves.ensures_storeResult hlisted delivers haccepts

/-- A command comes to what the log of its aggregate decides, and only its new events are added. -/
theorem Serves.ensures_processCommand (hserves : Serves handling stands)
    (hstands : stands ledger queue state) (domain : Domain State Command E) (config : StoreConfig)
    (delivers : Bool) (key : AggregateKey) (command : Command) :
    (processCommand domain config delivers key command).Ensures handling (fun outcome later =>
      outcome = decision domain key command (ledger key).events ∧
        Becomes stands delivers ledger queue key
          (newEvents (decision domain key command (ledger key).events)) later) state := by
  unfold processCommand
  rw [attemptUpTo, Program.ensures_bind]
  refine (hserves.ensures_attempt hstands domain delivers key command).mono ?_
  rintro outcome later ⟨rfl, hlater⟩
  cases hdecision : decision domain key command (ledger key).events with
  | error error => exact ⟨rfl, hdecision ▸ hlater⟩
  | ok result => exact ⟨rfl, hdecision ▸ hlater⟩

end Serves

end Store

end EventSourcing
