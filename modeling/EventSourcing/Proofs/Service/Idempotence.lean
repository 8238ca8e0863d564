import EventSourcing.Proofs.Service.Serializability

namespace EventSourcing.Service

open Interleaving

variable {State Command E : Type} {setting : Setting State Command E} {key : AggregateKey}
  {source : Uuid}

/-- The events of a log that come from one command stand next to each other: they are a batch that
has been committed at once. -/
def History.IsOneBatch (history : History State Command E) (key : AggregateKey) (source : Uuid) :
    Prop :=
  ∃ before commit after, History.commits history key = before ++ commit :: after ∧
    (∀ event ∈ before.flatMap (·.batch), event.sourceId ≠ source) ∧
    commit.batch ≠ [] ∧ (∀ event ∈ commit.batch, event.sourceId = source) ∧
    ∀ event ∈ after.flatMap (·.batch), event.sourceId ≠ source

/-- Call number `id` has told that a command, known by its id, is no repeated one and has led to new
events. -/
def History.HasApplied (domain : Domain State Command E) (history : History State Command E)
    (key : AggregateKey) (source : Uuid) (id : Nat) : Prop :=
  ∃ command result, ⟨id, .process key command, .returned (.ok result)⟩ ∈ history ∧
    domain.commandId command = source ∧ result.isDuplicate = false ∧ result.newEvents ≠ []

theorem Lawful.isOneBatch {world : World State Command E} (hlawful : Lawful setting world)
    (happends : History.AppendsByCommand world.history) {event : RecordedEvent E}
    (hevent : event ∈ History.log world.history key) :
    History.IsOneBatch world.history key event.sourceId := by
  obtain ⟨commit, hcommit, hevent⟩ := List.mem_flatMap.1 hevent
  obtain ⟨before, after, hcommits⟩ := List.append_of_mem hcommit
  obtain ⟨command, hserved⟩ := hlawful.exists_isServed happends hcommits
  refine ⟨before, commit, after, hcommits, fun other hother => ?_, hserved.batch_ne_nil,
    fun other hother => ?_, fun other hother => ?_⟩
  · obtain ⟨earlier, hearlier, hother⟩ := List.mem_flatMap.1 hother
    exact hlawful.sourceId_ne_of_mem happends hcommits (List.mem_append_left _ hearlier) hevent
      other hother
  · rw [hserved.sourceId_eq other hother, hserved.sourceId_eq event hevent]
  · obtain ⟨later, hlater, hother⟩ := List.mem_flatMap.1 hother
    exact hlawful.sourceId_ne_of_mem happends hcommits (List.mem_append_right _ hlater) hevent
      other hother

/-- The new events of a call stand in a batch that it has committed itself. -/
theorem Lawful.exists_commit {world : World State Command E} (hlawful : Lawful setting world)
    {id : Nat} (happlied : History.HasApplied setting.domain world.history key source id) :
    ∃ commit ∈ History.commits world.history key, commit.id = id ∧
      ∃ event ∈ commit.batch, event.sourceId = source := by
  obtain ⟨command, result, hreturned, rfl, -, hne⟩ := happlied
  obtain ⟨before, after, hhistory⟩ := List.append_of_mem hreturned
  obtain ⟨past, -, -, -, -, hsource, hadded, -⟩ := hlawful.warranted _ _ _ hhistory
  obtain ⟨event, hevent⟩ := List.exists_mem_of_ne_nil _ hne
  have hmem : event ∈ History.added before key id := by
    rw [hadded, if_pos rfl]
    exact hevent
  obtain ⟨commit, hcommit, hevent'⟩ := List.mem_flatMap.1 hmem
  obtain ⟨entry, hentry, hcommits⟩ := List.mem_filterMap.1 hcommit
  obtain ⟨hbefore, rfl⟩ := History.mem_own.1 hentry
  refine ⟨commit, List.mem_filterMap.2 ⟨entry, ?_, hcommits⟩, ?_, event, hevent',
    hsource event hevent⟩
  · exact hhistory ▸ List.mem_append_left _ hbefore
  · obtain ⟨_, _, _, rfl⟩ := Entry.of_commit?_eq_some hcommits
    rfl

/-- At every moment of every run in which nothing is appended but by processing commands, the events
of a log that carry the id of a command are one batch, if there are any, and only the call that has
committed it tells that it has applied the command. -/
theorem command_applied_once {moment : Moment State Command E} (hreach : Reachable setting moment)
    (happends : History.AppendsByCommand moment.world.history) (key : AggregateKey)
    (source : Uuid) :
    logOf moment.world.state key =
        (History.commits moment.world.history key).flatMap (·.batch) ∧
      ((∃ event ∈ logOf moment.world.state key, event.sourceId = source) →
        History.IsOneBatch moment.world.history key source) ∧
      ∀ id other, History.HasApplied setting.domain moment.world.history key source id →
        History.HasApplied setting.domain moment.world.history key source other → id = other := by
  have hlawful := hreach.lawful
  refine ⟨hlawful.logOf_eq key, ?_, ?_⟩
  · rintro ⟨event, hevent, rfl⟩
    exact hlawful.isOneBatch happends (hlawful.logOf_eq key ▸ hevent)
  · intro id other hid hother
    obtain ⟨commit, hcommit, rfl, event, hevent, hsource⟩ := hlawful.exists_commit hid
    obtain ⟨commit', hcommit', rfl, event', hevent', hsource'⟩ := hlawful.exists_commit hother
    obtain ⟨before, after, hcommits⟩ := List.append_of_mem hcommit
    -- Another commit with this source would have to be somewhere else in the log.
    refine Classical.byContradiction fun hne => ?_
    have hothers : commit' ∈ before ++ after := by
      rw [hcommits, List.mem_append, List.mem_cons] at hcommit'
      rcases hcommit' with h | rfl | h
      · exact List.mem_append_left _ h
      · exact absurd rfl hne
      · exact List.mem_append_right _ h
    exact hlawful.sourceId_ne_of_mem happends hcommits hothers hevent event' hevent'
      (hsource'.trans hsource.symm)

/-- A command is parked with its decision made, and it is submitted once more meanwhile. The second
copy is processed to its end, and the first one finds that out when it is decided again. -/
def resubmitted : List (Move (Call Nat Nat)) :=
  .call (.process sampleKey 5) :: .replicate 2 .proceed ++
    .call (.process sampleKey 5) :: .replicate 21 .proceed

theorem command_applied_once_of_resubmitted : ∃ moment, sampleRun resubmitted = some moment ∧
    moment.frames.length = 0 ∧ (logOf moment.world.state sampleKey).map (·.payload) = [5, 0] ∧
    History.IsOneBatch moment.world.history sampleKey (sampleSetting.domain.commandId 5) := by
  obtain ⟨moment, hrun, hreach, hmoment⟩ := exists_of_sampleRun resubmitted
    (fun moment => decide (History.AppendsByCommand moment.world.history ∧
      moment.frames.length = 0 ∧
      (logOf moment.world.state sampleKey).map (·.payload) = [5, 0] ∧
      ∃ event ∈ logOf moment.world.state sampleKey,
        event.sourceId = sampleSetting.domain.commandId 5)) (by decide +kernel)
  obtain ⟨happends, hframes, hlog, hevent⟩ := of_decide_eq_true hmoment
  obtain ⟨-, hbatch, -⟩ := command_applied_once hreach happends sampleKey
    (sampleSetting.domain.commandId 5)
  exact ⟨moment, hrun, hframes, hlog, hbatch hevent⟩

end EventSourcing.Service
