import EventSourcing.Proofs.Service.Reachable

namespace EventSourcing.Service

open Interleaving

variable {State Command E : Type} {setting : Setting State Command E}

/-- What is true of a log and of the doings of a call stays true while others go on. -/
theorem History.Agrees.mono {domain : Domain State Command E}
    {first second : History State Command E} {id : Nat} {key : AggregateKey} {command : Command}
    {outcome : Except (StoreError State Command) (CommandResult State E)}
    (hextends : first <+: second)
    (hadded : ∀ other, History.added second other id = History.added first other id)
    (hagrees : History.Agrees domain first id key command outcome) :
    History.Agrees domain second id key command outcome := by
  have hlog := History.log_prefix hextends key
  cases outcome with
  | ok result =>
    obtain ⟨past, hpast, hlast, hstate, hnew, hsource, hbefore, hduplicate⟩ := hagrees
    exact ⟨past, hpast.trans hlog, hlast, hstate, hnew, hsource,
      fun other => (hadded other).trans (hbefore other), hduplicate⟩
  | error error =>
    cases error with
    | commandFailed failed =>
      obtain ⟨hkey, hcommand, ⟨past, hpast, hlast, hstate⟩, hrefuses, hbefore⟩ := hagrees
      exact ⟨hkey, hcommand, ⟨past, hpast.trans hlog, hlast, hstate⟩, hrefuses,
        fun other => (hadded other).trans (hbefore other)⟩
    | _ => exact fun other => (hadded other).trans (hagrees other)

/-- At every moment of every run, what the calls that have processed a command have told is true of
the log: the state is what the events up to the position told lead to, and the new events, which are
the last of them, are all that the call has added to any log. A refusal is the answer to the command
on the state that it tells, and it comes with no new events, as every other failure does. An
aggregate is rebuilt from all events that its log holds when the call returns. -/
theorem outcome_agrees {moment : Moment State Command E} (hreach : Reachable setting moment) :
    (∀ key, logOf moment.world.state key =
        (History.commits moment.world.history key).flatMap (·.batch)) ∧
      (∀ id key command outcome,
        ⟨id, .process key command, .returned outcome⟩ ∈ moment.world.history →
          History.Agrees setting.domain moment.world.history id key command outcome) ∧
      ∀ id key outcome, moment.Returns id (.aggregate key) outcome →
        outcome = rebuilt setting key (logOf moment.world.state key) := by
  have hlawful := hreach.lawful
  refine ⟨hlawful.logOf_eq, ?_, fun _ _ _ => hreach.rebuilt⟩
  intro id key command outcome hreturned
  obtain ⟨before, after, hhistory⟩ := List.append_of_mem hreturned
  have hagrees : History.Agrees setting.domain before id key command outcome :=
    hlawful.warranted _ _ _ hhistory
  -- The call does nothing any more, so what it has added is what it had added then.
  obtain ⟨hafter, -⟩ := (System.Reaches.numbered hreach).returned _ _ _ _ _ hhistory
  refine hagrees.mono (hhistory ▸ List.prefix_append _ _) fun other => ?_
  have hreturn : History.added ([⟨id, .process key command, .returned outcome⟩] :
      History State Command E) other id = [] := by
    rw [History.added, History.own_eq_self (by simp)]
    rfl
  have hnone : History.added after other id = [] := by
    rw [History.added, History.own_eq_nil hafter]
    rfl
  rw [hhistory, List.append_cons, History.added_append, History.added_append, hreturn, hnone,
    List.append_nil, List.append_nil]

/-- Which call is the innermost and of which aggregate it is about to return the state. -/
def telling? (moment : Moment State Command E) : Option (Nat × AggregateKey) :=
  match moment.frames with
  | ⟨id, .aggregate key, .done _, _⟩ :: _ => some (id, key)
  | _ => none

theorem exists_returns_of_telling? {moment : Moment State Command E} {id : Nat}
    {key : AggregateKey} (h : telling? moment = some (id, key)) :
    ∃ outcome, moment.Returns id (.aggregate key) outcome := by
  unfold telling? at h
  split at h
  · next _ _ outcome isParked frames hframes =>
    cases h
    exact ⟨outcome, isParked, frames, hframes⟩
  · cases h

/-- The overlapping commands have led to a state that a call is about to tell. -/
theorem outcome_agrees_of_overlapping : ∃ moment outcome,
    sampleRun (overlapping ++ [.call (.aggregate sampleKey), .proceed]) = some moment ∧
      moment.Returns 2 (.aggregate sampleKey) outcome ∧ outcome = .ok 19 := by
  obtain ⟨moment, hrun, hreach, hmoment⟩ := exists_of_sampleRun
    (overlapping ++ [.call (.aggregate sampleKey), .proceed])
    (fun moment => decide (telling? moment = some (2, sampleKey) ∧
      (logOf moment.world.state sampleKey).map (·.payload) = [7, 0, 5, 7])) (by decide +kernel)
  obtain ⟨htelling, hlog⟩ := of_decide_eq_true hmoment
  obtain ⟨outcome, hreturns⟩ := exists_returns_of_telling? htelling
  refine ⟨moment, outcome, hrun, hreturns, ?_⟩
  obtain ⟨-, -, hrebuilt⟩ := outcome_agrees hreach
  rw [hrebuilt 2 sampleKey outcome hreturns, rebuilt, Domain.stateAfter?, hlog]
  rfl

end EventSourcing.Service
