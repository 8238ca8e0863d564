import EventSourcing.Proofs.Service.Reachable

namespace EventSourcing.Service

open Interleaving

variable {State Command E : Type} {setting : Setting State Command E} {key : AggregateKey}

/-- The same service with other command processors. -/
def Setting.withProcessor (setting : Setting State Command E)
    (processor : AggregateType → Option (Processor State Command E)) :
    Setting State Command E :=
  { setting with domain := { setting.domain with processor } }

/-- A call that processes a command begins by reading the log, and if it finds an event of this very
command there, it asks for nothing more. -/
private theorem program_process (setting : Setting State Command E) {fresh : State}
    (hfresh : setting.domain.fresh key.type = some fresh) (command : Command) :
    ∃ next, Call.program setting (.process key command) =
        .ask (.repository 0 (.listEvents key 0 none) (.logs (.get key))) next ∧
      ∀ repository : Repository E,
        (∃ event ∈ repository.eventsBehind key 0,
          event.sourceId = setting.domain.commandId command) →
        next (repository.logs.get? key) = .done (.ok
          ⟨Store.lastPosition (repository.eventsBehind key 0), [],
            setting.domain.fold fresh ((repository.eventsBehind key 0).map (·.payload)),
            true⟩) := by
  rw [Call.program, Store.processCommand, Store.attemptUpTo, Store.attempt, Store.replay, hfresh]
  refine ⟨_, rfl, ?_⟩
  rintro repository ⟨event, hevent, hsource⟩
  unfold Repository.eventsBehind at hevent ⊢
  cases hlog : repository.logs.get? key with
  | none =>
    rw [hlog] at hevent
    cases hevent
  | some log =>
    rw [hlog] at hevent
    have hany : (log.value.slice 0 none).any (fun event =>
        event.sourceId = setting.domain.commandId command) = true :=
      List.any_eq_true.2 ⟨event, hevent, decide_eq_true hsource⟩
    change Program.bind (Program.serve (answerStore setting.repositoryConfig) 1
      ((if (log.value.slice 0 none).any _ = true then Program.done _ else _) >>= _)) _ = _
    rw [if_pos hany]
    rfl

/-- A command that a call has told of as repeated, or as having led to events, has left an event in
the log. -/
theorem Lawful.exists_recorded {world : World State Command E} (hlawful : Lawful setting world)
    {id : Nat} {command : Command} {result : CommandResult State E}
    (hreturned : ⟨id, .process key command, .returned (.ok result)⟩ ∈ world.history)
    (hrecorded : result.isDuplicate = true ∨ result.newEvents ≠ []) :
    (∃ event ∈ History.log world.history key,
        event.sourceId = setting.domain.commandId command) ∧
      ∃ fresh, setting.domain.fresh key.type = some fresh := by
  obtain ⟨before, after, hhistory⟩ := List.append_of_mem hreturned
  obtain ⟨past, hpast, -, hstate, hnew, hsource, -, hduplicate⟩ := hlawful.warranted _ _ _ hhistory
  have hlog : past <+: History.log world.history key :=
    hpast.trans (History.log_prefix (hhistory ▸ List.prefix_append _ _) key)
  obtain ⟨fresh, hfresh, -⟩ := Option.map_eq_some_iff.1 hstate
  refine ⟨?_, fresh, hfresh⟩
  rcases hrecorded with hrepeated | hne
  · obtain ⟨-, event, hevent, hsource⟩ := hduplicate hrepeated
    exact ⟨event, hlog.subset hevent, hsource⟩
  · obtain ⟨event, hevent⟩ := List.exists_mem_of_ne_nil _ hne
    exact ⟨event, hlog.subset (hnew.subset hevent), hsource event hevent⟩

/-- Once a call has told of a command as repeated or as having led to events, every later call with
a command of the same id on the same aggregate recognises it, whatever has been done in between: it
reads the log and returns, with nothing else in between, and tells of no new event. Nothing of the
service has changed, and no command processor has had a part in it. -/
theorem resubmission_recognised {moment : Moment State Command E}
    (hreach : Reachable setting moment) {id : Nat} {command again : Command}
    {result : CommandResult State E}
    (hreturned : ⟨id, .process key command, .returned (.ok result)⟩ ∈ moment.world.history)
    (hrecorded : result.isDuplicate = true ∨ result.newEvents ≠ [])
    (hagain : setting.domain.commandId again = setting.domain.commandId command)
    (hparked : moment.frames.head?.all (·.isParked) = true) :
    ∃ state, setting.domain.stateAfter? key.type (logOf moment.world.state key) = some state ∧
      ∀ processor, (calls (setting.withProcessor processor)).run? moment
          (.call (.process key again) :: .replicate 2 .proceed) =
        some ⟨⟨moment.world.state, moment.world.history ++
          [⟨moment.nextId, .process key again, .called⟩,
            ⟨moment.nextId, .process key again,
              .answered (.repository 0 (.listEvents key 0 none) (.logs (.get key)))
                (moment.world.state.repository.logs.get? key)⟩,
            ⟨moment.nextId, .process key again,
              .returned (.ok ⟨(logOf moment.world.state key).length, [], state, true⟩)⟩]⟩,
          moment.frames, moment.nextId + 1⟩ := by
  have hlawful := hreach.lawful
  obtain ⟨⟨event, hevent, hsource⟩, fresh, hfresh⟩ := hlawful.exists_recorded hreturned hrecorded
  -- What the call reads is the whole log.
  have hread : moment.world.state.repository.eventsBehind key 0 =
      logOf moment.world.state key := by
    rw [hlawful.eventsBehind_eq, List.drop_zero, hlawful.logOf_eq]
  have hlast : Store.lastPosition (logOf moment.world.state key) =
      (logOf moment.world.state key).length := by
    rw [hlawful.logOf_eq]
    exact Store.lastPosition_eq_length (hlawful.positions key)
  refine ⟨setting.domain.fold fresh ((logOf moment.world.state key).map (·.payload)), ?_, ?_⟩
  · rw [Domain.stateAfter?, hfresh]
    rfl
  intro processor
  obtain ⟨next, hprogram, hnext⟩ := program_process (setting.withProcessor processor) hfresh again
  have hdone := hnext moment.world.state.repository
    ⟨event, hread ▸ hlawful.logOf_eq key ▸ hevent, hsource.trans hagain.symm⟩
  rw [hread, hlast] at hdone
  exact System.run?_of_single (S := calls (setting.withProcessor processor)) (.process key again)
    hparked hprogram hdone

/-- Which call has accepted a command, whether as a repeated one, and of how many new events it has
told. -/
def Entry.acceptance? : Entry State Command E → Option (Nat × AggregateKey × Command × Bool × Nat)
  | ⟨id, .process key command, .returned (.ok result)⟩ =>
    some (id, key, command, result.isDuplicate, result.newEvents.length)
  | _ => none

def acceptances (moment : Moment State Command E) :
    List (Nat × AggregateKey × Command × Bool × Nat) :=
  moment.world.history.filterMap Entry.acceptance?

theorem exists_of_mem_acceptances {moment : Moment State Command E} {id count : Nat}
    {command : Command} {isDuplicate : Bool}
    (h : (id, key, command, isDuplicate, count) ∈ acceptances moment) :
    ∃ result, ⟨id, .process key command, .returned (.ok result)⟩ ∈ moment.world.history ∧
      result.isDuplicate = isDuplicate ∧ result.newEvents.length = count := by
  obtain ⟨entry, hentry, h⟩ := List.mem_filterMap.1 h
  unfold Entry.acceptance? at h
  split at h
  · next id key command result =>
    cases h
    exact ⟨result, hentry, rfl, rfl⟩
  · cases h

/-- A command is processed, and nothing else is done. -/
def applied : List (Move (Call Nat Nat)) :=
  .call (.process sampleKey 5) :: .replicate 15 .proceed

/-- Another command with the id of the first one is recognised even where there is nobody to process
it. -/
theorem resubmission_recognised_of_applied : ∃ moment later, sampleRun applied = some moment ∧
    (calls (sampleSetting.withProcessor fun _ => none)).run? moment
      (.call (.process sampleKey (Nat.pow 2 128 + 5)) :: .replicate 2 .proceed) = some later ∧
    later.world.state = moment.world.state := by
  obtain ⟨moment, hrun, hreach, hmoment⟩ := exists_of_sampleRun applied
    (fun moment => decide ((0, sampleKey, 5, false, 2) ∈ acceptances moment ∧
      moment.frames.length = 0)) (by decide +kernel)
  obtain ⟨haccepted, hframes⟩ := of_decide_eq_true hmoment
  obtain ⟨result, hreturned, -, hcount⟩ := exists_of_mem_acceptances haccepted
  have hne : result.newEvents ≠ [] := fun h => by simp [h] at hcount
  have hparked : moment.frames.head?.all (·.isParked) = true := by
    rw [List.eq_nil_of_length_eq_zero hframes]
    rfl
  have hagain : sampleSetting.domain.commandId (Nat.pow 2 128 + 5) =
      sampleSetting.domain.commandId 5 := by decide
  obtain ⟨state, -, hlater⟩ := resubmission_recognised hreach hreturned (.inr hne) hagain hparked
  exact ⟨moment, _, hrun, hlater _, rfl⟩

/-- Every command is accepted without an event. -/
def eventlessSetting : Setting Nat Nat Nat :=
  sampleSetting.withProcessor fun _ => some fun _ _ => .ok (.success [])

/-- A command that is accepted without an event is decided again when it is submitted once more. -/
theorem resubmission_unrecognised_of_eventless : ∃ moment first second,
    (calls eventlessSetting).run? (.start .empty)
      (.call (.process sampleKey 5) :: .replicate 5 .proceed ++
        .call (.process sampleKey 5) :: .replicate 5 .proceed) = some moment ∧
    moment.frames.length = 0 ∧
    ⟨0, .process sampleKey 5, .returned (.ok first)⟩ ∈ moment.world.history ∧
    ⟨1, .process sampleKey 5, .returned (.ok second)⟩ ∈ moment.world.history ∧
    second.isDuplicate = false := by
  have hmoment : ((calls eventlessSetting).run? (.start .empty)
      (.call (.process sampleKey 5) :: .replicate 5 .proceed ++
        .call (.process sampleKey 5) :: .replicate 5 .proceed)).any (fun moment =>
      decide (moment.frames.length = 0 ∧ (0, sampleKey, 5, false, 0) ∈ acceptances moment ∧
        (1, sampleKey, 5, false, 0) ∈ acceptances moment)) = true := by decide +kernel
  obtain ⟨moment, hrun, hmoment⟩ := (Option.any_eq_true _ _).1 hmoment
  obtain ⟨hframes, hfirst, hsecond⟩ := of_decide_eq_true hmoment
  obtain ⟨first, hfirst, -, -⟩ := exists_of_mem_acceptances hfirst
  obtain ⟨second, hsecond, hnew, -⟩ := exists_of_mem_acceptances hsecond
  exact ⟨moment, first, second, hrun, hframes, hfirst, hsecond, hnew⟩

end EventSourcing.Service
