import EventSourcing.Proofs.Repository.Reporting
import EventSourcing.Proofs.Service.Reachable
import EventSourcing.Proofs.Store.Reporting

namespace EventSourcing.Service

open Interleaving Program

variable {State Command E : Type} {setting : Setting State Command E} {id : Nat}

abbrev Exchanges (E : Type) :=
  List (Exchange (Request.Reply (E := E)))

/-- The checkpoint of the store that an exchange reports. -/
def report? : Exchange (Request.Reply (E := E)) → Option Store.Checkpoint
  | ⟨.reached checkpoint _, _⟩ => some checkpoint
  | _ => none

/-- The checkpoints of the store that call number `id` has reported, in their order. -/
def reportsOf (id : Nat) (history : History State Command E) : List Store.Checkpoint :=
  (exchangesOf id history).filterMap report?

/-- A step of an operation of the repository, as a step of a call. -/
def relayed (number : Nat) (operation : Repository.Call E)
    (exchange : Exchange (Repository.Request.Reply (E := E))) : Exchange (Request.Reply (E := E)) :=
  ⟨.repository number operation exchange.request, exchange.reply⟩

theorem exists_relayed {α : Type} {number : Nat} {operation : Repository.Call E}
    {program : Repository.Operation E α} {told : Exchanges E} {value : α}
    (hyields : (relay number operation program).Yields told value) :
    ∃ transcript, told = transcript.map (relayed number operation) ∧
      program.Yields transcript value := by
  induction program generalizing told with
  | done result =>
    obtain ⟨rfl, rfl⟩ := hyields
    exact ⟨[], rfl, rfl, rfl⟩
  | ask request next ih =>
    obtain ⟨reply, rest, rfl, hrest⟩ := hyields
    obtain ⟨transcript, rfl, hnext⟩ := ih reply hrest
    exact ⟨⟨request, reply⟩ :: transcript, rfl, reply, transcript, rfl, hnext⟩

private theorem report?_relayed {number : Nat} {operation : Repository.Call E}
    (transcript : Repository.Transcript E) :
    (transcript.map (relayed number operation)).filterMap report? = [] := by
  rw [List.filterMap_map]
  exact List.filterMap_eq_nil_iff.2 fun _ _ => rfl

/-- Handling a request of the store reports what the store does. -/
private theorem reports_answerStore {config : RepositoryConfig} {number : Nat}
    {request : Store.Request E} {reply : request.Reply} {told : Exchanges E}
    (hyields : (answerStore config number request).Yields told reply) :
    told.filterMap report? = Store.reports [⟨request, reply⟩] := by
  cases request with
  | listEvents key =>
    obtain ⟨transcript, rfl, -⟩ := exists_relayed hyields
    exact report?_relayed transcript
  | appendEvents key batch =>
    obtain ⟨transcript, rfl, -⟩ := exists_relayed hyields
    exact report?_relayed transcript
  | scheduleDelivery | reached checkpoint key | report record =>
    obtain ⟨_, _, rfl, rfl, rfl⟩ := hyields
    rfl

/-- An operation of the repository has the number of the request that it handles. -/
private theorem number_eq_of_answerStore {config : RepositoryConfig} {number other : Nat}
    {request : Store.Request E} {reply : request.Reply} {told : Exchanges E}
    {operation : Repository.Call E} {inner : Repository.Request E} {answer : inner.Reply}
    (hyields : (answerStore config number request).Yields told reply)
    (hmem : ⟨.repository other operation inner, answer⟩ ∈ told) : other = number := by
  cases request with
  | listEvents key =>
    obtain ⟨transcript, rfl, -⟩ := exists_relayed hyields
    obtain ⟨exchange, -, heq⟩ := List.mem_map.1 hmem
    cases heq
    rfl
  | appendEvents key batch =>
    obtain ⟨transcript, rfl, -⟩ := exists_relayed hyields
    obtain ⟨exchange, -, heq⟩ := List.mem_map.1 hmem
    cases heq
    rfl
  | scheduleDelivery | reached checkpoint key | report record =>
    obtain ⟨_, _, rfl, rfl, rfl⟩ := hyields
    cases List.mem_singleton.1 hmem

variable {config : RepositoryConfig} {transcript : Store.Transcript E} {told : Exchanges E}

private theorem reports_of_handled {number : Nat}
    (hhandled : Handled (answerStore config) number transcript told) :
    told.filterMap report? = Store.reports transcript := by
  induction hhandled with
  | nil => rfl
  | @cons number request reply rest during late hduring _ ih =>
    rw [List.filterMap_append, reports_answerStore hduring, ih]
    exact (Store.reports_append [⟨request, reply⟩] rest).symm

variable {history : History State Command E}

/-- A commit of a call is one of the things that the call has been told. -/
private theorem exists_of_mem_commits {number : Nat} {owner : AggregateKey}
    {batch : List (RecordedEvent E)} (hcommit : (Nat.pair id number, batch) ∈
      Repository.History.commits (History.operations history) owner) :
    ∃ key seen new, ⟨.repository number (.append owner batch)
      (.logs (.compareAndSwap key seen new)), true⟩ ∈ exchangesOf id history := by
  obtain ⟨inner, hinner, hcommits⟩ := List.mem_filterMap.1 hcommit
  obtain ⟨key, seen, new, rfl⟩ := Repository.Entry.exists_of_commit?_eq_some hcommits
  obtain ⟨entry, hentry, hoperation⟩ := List.mem_filterMap.1 hinner
  unfold Entry.operation? at hoperation
  split at hoperation
  · next other _ number' _ _ _ =>
    simp only [Option.some.injEq, Interleaving.Entry.mk.injEq, Nat.pair_eq_pair] at hoperation
    obtain ⟨⟨rfl, rfl⟩, rfl, hsame⟩ := hoperation
    cases hsame
    exact ⟨key, seen, new, List.mem_filterMap.2 ⟨_, hentry, if_pos rfl⟩⟩
  · cases hoperation

/-- What a call has been told of a commit is a commit. -/
private theorem mem_commits_of_exchange {number : Nat} {owner : AggregateKey}
    {batch : List (RecordedEvent E)} {exchange : Exchange (Repository.Request.Reply (E := E))}
    (hcommit : Repository.isCommit exchange = true)
    (hmem : relayed number (.append owner batch) exchange ∈ exchangesOf id history) :
    (Nat.pair id number, batch) ∈
      Repository.History.commits (History.operations history) owner := by
  obtain ⟨call, hentry⟩ := exists_of_mem_exchangesOf hmem
  obtain ⟨request, reply⟩ := exchange
  refine List.mem_filterMap.2 ⟨_, List.mem_filterMap.2 ⟨_, hentry, rfl⟩, ?_⟩
  unfold Repository.isCommit at hcommit
  split at hcommit
  · next heq =>
    cases heq
    subst hcommit
    exact if_pos rfl
  · cases hcommit

/-- An append of the store that is answered with a conflict has committed nothing, and one that is
answered well has committed its batch, if there is anything to commit. -/
private theorem commits_of_handled
    (hhandled : Handled (answerStore config) 0 transcript (exchangesOf id history)) {number : Nat}
    {key : AggregateKey} {batch : List (RecordedEvent E)} {answer : Except RepositoryError Unit}
    (hanswer : transcript[number]? = some ⟨.appendEvents key batch, answer⟩) :
    ((∃ lost, answer = .error (.optimisticConcurrency lost)) → ∀ owner other,
        (Nat.pair id number, other) ∉
          Repository.History.commits (History.operations history) owner) ∧
      (answer = .ok () → batch ≠ [] → (Nat.pair id number, batch) ∈
        Repository.History.commits (History.operations history) key) := by
  constructor
  · rintro ⟨lost, rfl⟩ owner other hcommit
    -- The commit would be a step of this very append, which takes no such step if it loses.
    obtain ⟨_, seen, new, hmem⟩ := exists_of_mem_commits hcommit
    obtain ⟨position, exchange, during, hexchange, hinner, hduring⟩ := hhandled.exists_of_mem hmem
    rw [Nat.zero_add] at hduring
    obtain rfl : number = position := number_eq_of_answerStore hduring hinner
    obtain rfl : _ = exchange := Option.some.inj (hanswer.symm.trans hexchange)
    obtain ⟨appending, rfl, hyields⟩ := exists_relayed hduring
    obtain ⟨⟨request, reply⟩, hstep, heq⟩ := List.mem_map.1 hinner
    cases heq
    rcases (Repository.course_of_yields config hyields).commits_cases with
      hquiet | ⟨_, _, _, _, hfinal, _⟩
    · exact Bool.false_ne_true (hquiet _ hstep).1.symm
    · cases hfinal
  · rintro rfl hne
    obtain ⟨during, hduring, hyields⟩ := hhandled.exists_of_getElem? hanswer
    obtain ⟨appending, rfl, happend⟩ := exists_relayed hyields
    have hcourse := Repository.course_of_yields config happend
    rcases hcourse.commits_cases with hquiet | ⟨before, seen, indexing, heq, -⟩
    · obtain ⟨exchange, hmem, hreport⟩ := List.mem_filterMap.1 (hcourse.committed_of_ok hne rfl)
      exact absurd hreport (hquiet exchange hmem).2
    · have hcommit : ⟨.logs (.compareAndSwap key seen (seen.value.append batch)), true⟩ ∈
          appending := by
        simp [heq]
      have htold := hduring _ (List.mem_map_of_mem hcommit)
      rw [Nat.zero_add] at htold
      exact mem_commits_of_exchange rfl htold

/-- The attempts of a call that has processed a command report how they have ended, and this is what
has become of their events. -/
structure AttemptsReport (setting : Setting State Command E) (id : Nat) (key : AggregateKey)
    (command : Command) (outcome : Except (StoreError State Command) (CommandResult State E))
    (history : History State Command E) (attempts : List (Store.Attempt State Command E))
    (transcript : Store.Transcript E) : Prop where
  /-- All that the call has asked for are the requests of the store. -/
  handled : Handled (answerStore setting.repositoryConfig) 0 transcript (exchangesOf id history)
  transcript_eq : transcript =
    attempts.flatMap (Store.Attempt.reported key) ++ Store.exhaustion outcome
  made : ∀ attempt ∈ attempts, attempt.IsMade setting.domain setting.delivers key command
  reports_eq : reportsOf id history =
    attempts.flatMap fun attempt => Store.reports (attempt.reported key)
  unprepared : ∀ attempt ∈ attempts,
    (∀ exchange ∈ attempt.reported key, Store.isAppend exchange = false) →
      Store.reports (attempt.reported key) = []
  prepared : ∀ attempt ∈ attempts, ∀ early owner batch answer late,
    attempt.reported key = early ++ ⟨.appendEvents owner batch, answer⟩ :: late →
      owner = key ∧ Store.reports early = [.prepared] ∧
        Store.reports late = Store.reportsBehind answer
  /-- Where an append was answered with a conflict, it has committed nothing. -/
  uncommitted : ∀ number owner batch lost,
    transcript[number]? = some ⟨.appendEvents owner batch, .error (.optimisticConcurrency lost)⟩ →
      ∀ log other, (Nat.pair id number, other) ∉
        Repository.History.commits (History.operations history) log
  committed : ∀ number owner batch, batch ≠ [] →
    transcript[number]? = some ⟨.appendEvents owner batch, .ok ()⟩ →
      (Nat.pair id number, batch) ∈
        Repository.History.commits (History.operations history) owner

theorem Reachable.attemptsReport {moment : Moment State Command E}
    (hreach : Reachable setting moment) {key : AggregateKey} {command : Command}
    {outcome : Except (StoreError State Command) (CommandResult State E)}
    (hreturned : ⟨id, .process key command, .returned outcome⟩ ∈ moment.world.history) :
    ∃ attempts transcript,
      AttemptsReport setting id key command outcome moment.world.history attempts transcript := by
  have hyields := System.Reaches.yields hreach hreturned
  obtain ⟨told, rest, ⟨result, last⟩, htold, hserved, hrest⟩ := yields_bind_iff.1 hyields
  obtain ⟨rfl, rfl⟩ : rest = [] ∧ result = outcome := hrest
  rw [List.append_nil] at htold
  subst htold
  obtain ⟨transcript, hprocess, hhandled⟩ := exists_handled hserved
  obtain ⟨attempts, hmade, hasked⟩ := Store.exists_attempts hprocess
  refine ⟨attempts, transcript, ?_⟩
  exact {
    handled := hhandled
    transcript_eq := hasked
    made := hmade
    reports_eq := by
      have hreports := reports_of_handled hhandled
      rw [hasked, Store.reports_append, Store.reports_exhaustion,
        List.append_nil] at hreports
      exact hreports.trans List.filterMap_flatMap
    unprepared := fun attempt hmem => (hmade attempt hmem).reports_eq_nil
    prepared := fun attempt hmem early owner batch answer late hsplit =>
      (hmade attempt hmem).reports_of_append hsplit
    uncommitted := fun number owner batch lost hanswer log other =>
      (commits_of_handled hhandled hanswer).1 ⟨lost, rfl⟩ log other
    committed := fun number owner batch hne hanswer =>
      (commits_of_handled hhandled hanswer).2 rfl hne }

/-- At every moment of every run of a repository: an append with a batch that is not empty reports
first that the batch has been checked, if it reports anything. It reports a commit once at most and
not without the announcement before, right after the batch has become the end of the log, and
exactly if it returns well; it reports a lost race exactly if it returns with that error, and never
both. At every moment of every run of a service: each attempt at a command that gets as far as
appending reports that the events are ready, and then that it has lost the race if the append was
answered so and has committed nothing, or that the events are appended and published if the append
was answered well, or nothing more. -/
theorem checkpoints_tell_truth {Event : Type} (config : RepositoryConfig)
    (setting : Setting State Command E) :
    (∀ (moment : Repository.Moment Event) (id : Nat) (key : AggregateKey)
      (batch : List (RecordedEvent Event)), Repository.Reachable config moment →
      ⟨id, .append key batch, .called⟩ ∈ moment.world.history → batch ≠ [] →
        Repository.ReportsTruly config id key batch moment) ∧
    ∀ (moment : Moment State Command E) (id : Nat) (key : AggregateKey) (command : Command),
      Reachable setting moment → ⟨id, .process key command, .called⟩ ∈ moment.world.history →
        (∃ later outcome, (calls setting).Reaches moment later ∧
          ⟨id, .process key command, .returned outcome⟩ ∈ later.world.history) ∧
        ∀ outcome, ⟨id, .process key command, .returned outcome⟩ ∈ moment.world.history →
          ∃ attempts transcript, AttemptsReport setting id key command outcome
            moment.world.history attempts transcript := by
  refine ⟨fun moment id key batch hreach hcalled hne => hreach.reportsTruly hcalled hne, ?_⟩
  intro moment id key command hreach hcalled
  exact ⟨System.Reaches.exists_returned hreach hcalled,
    fun outcome hreturned => hreach.attemptsReport hreturned⟩

/-- An append that has been overtaken reports its lost race, and a command that has been overtaken
reports the race that it has lost and then the one that it has won. -/
theorem checkpoints_tell_truth_of_overtaken :
    (∃ moment, Repository.sampleRun Repository.lostRace = some moment ∧
      Repository.ReportsTruly .standard 0 Repository.sampleKey (Repository.sampleBatch 1 2) moment ∧
      Repository.reportsOf 0 moment.world.history = [.appendValidated, .markUndeliveredStarted,
        .appendMarkedUndelivered, .appendConflicted]) ∧
    ∃ moment, sampleRun overlapping = some moment ∧
      reportsOf 0 moment.world.history =
        [.prepared, .conflicted, .prepared, .appended, .published] ∧
      ∃ outcome attempts transcript, AttemptsReport sampleSetting 0 sampleKey 5 outcome
        moment.world.history attempts transcript := by
  constructor
  · have hrun : Repository.sampleRun Repository.lostRace = some _ := rfl
    refine ⟨_, hrun, ?_, by decide +kernel⟩
    exact (checkpoints_tell_truth .standard sampleSetting).1 _ 0 _ _
      (Repository.reachable_of_sampleRun hrun) (List.mem_of_getElem? (i := 0) rfl) (by decide)
  · obtain ⟨moment, hrun, hreach, hmoment⟩ := exists_of_sampleRun overlapping
      (fun moment => moment.frames.isEmpty && decide (reportsOf 0 moment.world.history =
        [.prepared, .conflicted, .prepared, .appended, .published])) (by decide +kernel)
    obtain ⟨hframes, hreports⟩ := Bool.and_eq_true_iff.1 hmoment
    have hmoves : overlapping = .call (.process sampleKey 5) :: _ := rfl
    have hcalled : ⟨0, .process sampleKey 5, .called⟩ ∈ moment.world.history := by
      rw [sampleRun, hmoves] at hrun
      exact System.mem_history_of_run? hrun
    obtain ⟨call, outcome, hreturned⟩ : ∃ call outcome,
        ⟨0, call, .returned outcome⟩ ∈ moment.world.history := by
      rcases System.Reaches.in_flight_or_returned hreach hcalled with ⟨frame, hframe, -⟩ | h
      · rw [List.isEmpty_iff.1 hframes] at hframe
        cases hframe
      · exact h
    obtain rfl : call = .process sampleKey 5 :=
      System.Reaches.call_eq hreach hreturned hcalled rfl
    obtain ⟨-, hattempts⟩ := (@checkpoints_tell_truth Nat Nat Nat Unit .standard sampleSetting).2
      moment 0 sampleKey 5 hreach hcalled
    exact ⟨moment, hrun, of_decide_eq_true hreports, outcome, hattempts outcome hreturned⟩

end EventSourcing.Service
