import EventSourcing.Proofs.Service.Operations

namespace EventSourcing.Service

open Interleaving

variable {State Command E : Type} {setting : Setting State Command E} {id number : Nat}
  {call : Call Command E} {world : World State Command E} {key : AggregateKey}

/-- Call number `id` has read some beginning of the log of an aggregate and put a batch behind it,
and it has added nothing else to any log. What it asks for next has a number that is not in use. -/
structure Progress (setting : Setting State Command E) (id number : Nat) (key : AggregateKey)
    (past batch : List (RecordedEvent E)) (world : World State Command E) : Prop where
  lawful : Lawful setting world
  numbered : History.IsNumbered world.history id number
  read : past ++ batch <+: History.log world.history key
  added : ∀ other, History.added world.history other id = if other = key then batch else []

namespace Progress

variable {past batch : List (RecordedEvent E)} {α : Type}
  {post : α → World State Command E → Prop}

/-- It stays true as long as the call adds no event. -/
theorem since {later : World State Command E} {done : History State Command E}
    (hprogress : Progress setting id number key past batch world)
    (hsince : Since setting id done world later) (hlog : ∀ other, History.log done other = [])
    (hdone : ∀ entry ∈ done, ∀ other ∈ Entry.number? entry, other < number + 1) :
    Progress setting id (number + 1) key past batch later where
  lawful := hsince.lawful
  numbered := hsince.isNumbered hprogress.numbered (Nat.le_succ _) hdone
  read := hprogress.read.trans (History.log_prefix hsince.history key)
  added other := by rw [hsince.added, hlog, List.append_nil, hprogress.added]

theorem keeps_ask {request : Request E} {next : request.Reply → Operation E α}
    (hprogress : Progress setting id number key past batch world) (hplain : request.IsPlain)
    (hwarranted : ∀ history reply,
      Entry.IsWarranted setting history ⟨id, call, .answered request reply⟩)
    (hnext : ∀ reply later, Progress setting id (number + 1) key past batch later →
      (calls setting).Keeps (laws setting) id call post (next reply) later) :
    (calls setting).Keeps (laws setting) id call post (ask request >>= next) world := by
  refine Service.keeps_ask hprogress.lawful hplain (hwarranted _ _) fun later _ hsince => ?_
  obtain ⟨hoperation, hnumber, -⟩ :=
    hplain.entry State id call (answer setting world.state request).1
  refine hnext _ later (hprogress.since hsince (fun other => ?_) fun entry hentry => ?_)
  · simp [History.log, History.commits, Entry.commit?, hoperation]
  · simp [List.mem_singleton.1 hentry, hnumber]

/-- What has been put behind the beginning that was read need not be remembered. -/
theorem forget (hprogress : Progress setting id number key past [] world) :
    Progress setting id number key [] [] world :=
  { hprogress with read := List.nil_prefix }

end Progress

/-- How a replay may end: with the log as it is now and the state folded from it, unless there is no
aggregate of this type. -/
def Replayed (setting : Setting State Command E) (id : Nat) (key : AggregateKey)
    (served : Except (StoreError State Command) (State × List (RecordedEvent E)) × Nat)
    (world : World State Command E) : Prop :=
  match served with
  | (.ok (state, events), number) =>
    Progress setting id number key events [] world ∧
      events = History.log world.history key ∧
        setting.domain.stateAfter? key.type events = some state
  | (.error error, number) =>
    Progress setting id number key [] [] world ∧ setting.domain.fresh key.type = none ∧
      error = .missingAggregate key.type

theorem keeps_replay (hprogress : Progress setting id number key [] [] world)
    (hwarranted : ∀ history request reply, Entry.IsWarranted setting history
      ⟨id, call, .answered (.repository number (.listEvents key 0 none) request) reply⟩) :
    (calls setting).Keeps (laws setting) id call (Replayed setting id key)
      ((Store.replay setting.domain key).serve (answerStore setting.repositoryConfig) number)
      world := by
  unfold Store.replay
  cases hfresh : setting.domain.fresh key.type with
  | none => exact ⟨hprogress, hfresh, rfl⟩
  | some fresh =>
    dsimp only
    rw [Store.serve_ask]
    refine keeps_listEvents hprogress.lawful hwarranted fun later done hsince hdone => ?_
    have hlater := hprogress.since hsince
      (fun other => log_eq_nil_of_isStep other hdone (by simp)) (number?_of_isStep hdone)
    refine ⟨{ hlater with read := ?_ }, rfl, ?_⟩
    · simp only [List.append_nil, List.prefix_rfl]
    · rw [Domain.stateAfter?, hfresh, Option.map_some]

/-- How an attempt may end: with what the call may tell, or with no trace in any log. -/
def AttemptEnds (setting : Setting State Command E) (id : Nat) (key : AggregateKey)
    (command : Command)
    (served : Except (Store.AttemptError State Command) (CommandResult State E) × Nat)
    (world : World State Command E) : Prop :=
  match served with
  | (.ok result, _) =>
    Lawful setting world ∧
      History.Agrees setting.domain world.history id key command (.ok result)
  | (.error (.final error), _) =>
    Lawful setting world ∧
      History.Agrees setting.domain world.history id key command (.error error)
  | (.error (.conflict _), number) => Progress setting id number key [] [] world

section Attempt

variable {command : Command} {past : List (RecordedEvent E)} {state : State}

/-- What an append has added stands right behind what was read before. -/
theorem Progress.appended {batch : List (RecordedEvent E)} {events : List E} {source : Uuid}
    {later : World State Command E} {done : History State Command E}
    (hprogress : Progress setting id number key past [] world)
    (hsince : Since setting id done world later)
    (hlog : ∀ other, History.log done other = if other = key then batch else [])
    (hdone : ∀ entry ∈ done, ∀ other ∈ Entry.number? entry, other < number + 1)
    (hbatch : batch = Store.record key source past.length events)
    (hmem : batch ≠ [] → ⟨id, call, batch⟩ ∈ History.commits later.history key) :
    Progress setting id (number + 1) key past batch later where
  lawful := hsince.lawful
  numbered := hsince.isNumbered hprogress.numbered (Nat.le_succ _) hdone
  read := by
    have hpast : past <+: History.log later.history key :=
      (List.append_nil past ▸ hprogress.read).trans (History.log_prefix hsince.history key)
    by_cases hne : batch = []
    · rw [hne, List.append_nil]
      exact hpast
    · obtain ⟨before, after, hcommits⟩ := List.append_of_mem (hmem hne)
      have hbefore := hsince.lawful.flatMap_batch_eq hcommits hpast hbatch hne
      refine ⟨after.flatMap (·.batch), ?_⟩
      simp [History.log, hcommits, hbefore]
  added other := by
    have hnone := hprogress.added other
    rw [ite_self] at hnone
    rw [hsince.added, hnone, hlog, List.nil_append]

theorem keeps_scheduleDelivery {batch : List (RecordedEvent E)} (isWanted : Bool)
    (hprogress : Progress setting id number key past batch world) :
    (calls setting).Keeps (laws setting) id (.process key command)
      (fun served later => Progress setting id served.2 key past batch later)
      ((Store.scheduleDelivery isWanted).serve (answerStore setting.repositoryConfig) number)
      world := by
  cases isWanted with
  | false => exact hprogress
  | true =>
    change (calls setting).Keeps _ _ _ _ ((Store.ask .scheduleDelivery >>= _).serve _ _) _
    rw [Store.serve_ask]
    refine hprogress.keeps_ask trivial (fun _ _ => trivial) fun reply later hlater => ?_
    cases reply with
    | ok _ => exact hlater
    | error error =>
      exact hlater.keeps_ask trivial (fun _ _ => trivial) fun _ _ hlast => hlast

theorem keeps_storeEvents {events : List E}
    (hprogress : Progress setting id number key past [] world)
    (hstate : setting.domain.stateAfter? key.type past = some state)
    (haccepted : setting.domain.answer? key.type command state = some (.ok (.success events)))
    (hfirst : ∀ event ∈ past, event.sourceId ≠ setting.domain.commandId command) :
    (calls setting).Keeps (laws setting) id (.process key command)
      (AttemptEnds setting id key command)
      ((Store.storeEvents setting.domain setting.delivers key command state past.length
        events).serve (answerStore setting.repositoryConfig) number) world := by
  unfold Store.storeEvents
  dsimp only
  rw [Store.serve_ask]
  refine hprogress.keeps_ask trivial (fun _ _ => trivial) fun _ later hlater => ?_
  rw [Store.serve_ask]
  refine keeps_append hlater.lawful hlater.numbered ?_ ?_
  · intro history hhistory _ _
    have hpast := hlater.read.trans (History.log_prefix hhistory key)
    rw [List.append_nil] at hpast
    exact ⟨rfl, past, events, hpast, ⟨state, hstate, haccepted⟩, hfirst, rfl⟩
  · intro outcome after done hsince hdone hlog hmem
    have hnumbers := number?_of_isStep hdone
    cases outcome with
    | error cause =>
      have hnone := (hlater.since hsince (fun other => by simp [hlog]) hnumbers).forget
      dsimp only
      split
      · exact hnone
      · exact ⟨hnone.lawful, fun other => (hnone.added other).trans (ite_self _)⟩
    | ok _ =>
      have hstored := hlater.appended hsince (fun other => by simp [hlog]) hnumbers rfl
        fun hne => hmem hne rfl
      dsimp only
      rw [Store.serve_ask]
      refine hstored.keeps_ask trivial (fun _ _ => trivial) fun _ _ hnow => ?_
      rw [Program.serve_bind]
      refine (keeps_scheduleDelivery _ hnow).bind fun served _ hnow => ?_
      rw [Store.serve_ask]
      refine hnow.keeps_ask trivial (fun _ _ => trivial) fun _ _ hnow => ?_
      refine ⟨hnow.lawful, _, hnow.read, ?_, ?_, List.suffix_append _ _,
        fun _ => Store.sourceId_of_mem_record _ _ _ _, hnow.added, by simp⟩
      · simp [Store.lastSequenceId_record]
      · obtain ⟨fresh, hfresh, rfl⟩ := Option.map_eq_some_iff.1 hstate
        simp [Domain.stateAfter?, hfresh, Domain.fold]

theorem keeps_attempt (hprogress : Progress setting id number key [] [] world) :
    (calls setting).Keeps (laws setting) id (.process key command)
      (AttemptEnds setting id key command)
      ((Store.attempt setting.domain setting.delivers key command).serve
        (answerStore setting.repositoryConfig) number) world := by
  unfold Store.attempt
  rw [Program.serve_bind]
  refine (keeps_replay hprogress ?_).bind ?_
  · exact fun _ _ _ => trivial
  rintro ⟨replayed, next⟩ later hreplayed
  cases replayed with
  | error error =>
    obtain ⟨hnone, -, rfl⟩ := hreplayed
    exact ⟨hnone.lawful, fun other => (hnone.added other).trans (ite_self _)⟩
  | ok read =>
    obtain ⟨state, past⟩ := read
    obtain ⟨hread, hpast, hstate⟩ := hreplayed
    have hlast : Store.lastPosition past = past.length := by
      refine Store.lastPosition_eq_length ?_
      rw [hpast]
      exact hread.lawful.positions key
    have hlog := List.append_nil past ▸ hread.read
    dsimp only
    rw [hlast]
    split
    · next hduplicate =>
      obtain ⟨event, hevent, hsource⟩ := List.any_eq_true.1 hduplicate
      exact ⟨hread.lawful, past, hlog, rfl, hstate, List.nil_suffix, by simp, hread.added,
        fun _ => ⟨rfl, event, hevent, of_decide_eq_true hsource⟩⟩
    · next hfirst =>
      have hnone := fun other => (hread.added other).trans (ite_self _)
      split
      · exact ⟨hread.lawful, hnone⟩
      · next processor hprocessor =>
        have hanswer : setting.domain.answer? key.type command state =
            some (processor command state) := by
          rw [Domain.answer?, hprocessor]
          rfl
        have hrefused : ∀ errors, setting.domain.Refuses key.type command state errors →
            AttemptEnds setting id key command
              (.error (.final (.commandFailed ⟨key, past.length, state, command, errors⟩)), next)
              later :=
          fun errors hrefuses =>
            ⟨hread.lawful, rfl, rfl, ⟨past, hlog, rfl, hstate⟩, hrefuses, hnone⟩
        rw [Domain.decide]
        cases hdecided : processor command state with
        | error text => exact hrefused _ (.inr ⟨text, hanswer.trans (congrArg some hdecided), rfl⟩)
        | ok outcome =>
          rw [hdecided] at hanswer
          cases outcome with
          | failure errors => exact hrefused errors (.inl hanswer)
          | success events =>
            refine keeps_storeEvents hread hstate hanswer fun event hevent hsource => ?_
            exact hfirst (List.any_eq_true.2 ⟨event, hevent, decide_eq_true hsource⟩)

/-- Attempts that have lost their races leave the call as it was when it began. -/
theorem keeps_attemptUpTo (retries count : Nat) {number : Nat} {world : World State Command E}
    (hprogress : Progress setting id number key [] [] world) :
    (calls setting).Keeps (laws setting) id (.process key command)
      (fun served later => Lawful setting later ∧
        History.Agrees setting.domain later.history id key command served.1)
      ((Store.attemptUpTo setting.domain setting.delivers key command retries count).serve
        (answerStore setting.repositoryConfig) number) world := by
  unfold Store.attemptUpTo
  rw [Program.serve_bind]
  refine (keeps_attempt hprogress).bind ?_
  rintro ⟨outcome, next⟩ later hends
  match outcome, hends with
  | .ok result, hends => exact hends
  | .error (.final error), hends => exact hends
  | .error (.conflict cause), hnone =>
    dsimp only
    rw [Store.serve_ask]
    refine hnone.keeps_ask trivial (fun _ _ => trivial) fun _ after hafter => ?_
    cases retries with
    | zero =>
      refine hafter.keeps_ask trivial (fun _ _ => trivial) fun _ last hlast => ?_
      exact ⟨hlast.lawful, fun other => (hlast.added other).trans (ite_self _)⟩
    | succ retries => exact keeps_attemptUpTo retries (count + 1) hafter

end Attempt

/-- What a call that has just begun knows. -/
theorem Progress.begin (hlawful : Lawful setting world)
    (hown : ∀ entry ∈ History.own world.history id, entry = ⟨id, call, .called⟩) :
    Progress setting id 0 key [] [] world where
  lawful := hlawful
  numbered := History.isNumbered_of_called hown
  read := List.nil_prefix
  added other := by
    rw [ite_self]
    refine List.flatMap_eq_nil_iff.2 fun commit hcommit => ?_
    obtain ⟨entry, hentry, hcommit⟩ := List.mem_filterMap.1 hcommit
    rw [hown entry hentry] at hcommit
    cases hcommit

theorem keeps_processCommand {command : Command}
    (hprogress : Progress setting id 0 key [] [] world) :
    (calls setting).Keeps (laws setting) id (.process key command)
      (fun outcome later => Lawful setting later ∧
        History.Agrees setting.domain later.history id key command outcome)
      (Call.program setting (.process key command)) world :=
  (keeps_attemptUpTo _ _ hprogress).bind fun _ _ hends => hends

theorem keeps_getAggregate (hprogress : Progress setting id 0 key [] [] world) :
    (calls setting).Keeps (laws setting) id (.aggregate key)
      (fun outcome later => Lawful setting later ∧
        outcome = rebuilt setting key (logOf later.state key))
      (Call.program setting (.aggregate key)) world := by
  change (calls setting).Keeps _ _ _ _ ((Store.getAggregate setting.domain key).serve
    (answerStore setting.repositoryConfig) 0 >>= fun served => .done served.1) _
  unfold Store.getAggregate
  rw [Program.serve_bind, bind_assoc]
  refine (keeps_replay hprogress ?_).bind ?_
  · exact fun _ _ _ => trivial
  rintro ⟨replayed, next⟩ later hreplayed
  cases replayed with
  | error error =>
    obtain ⟨hnone, hfresh, rfl⟩ := hreplayed
    refine ⟨hnone.lawful, ?_⟩
    rw [rebuilt, Domain.stateAfter?, hfresh]
    rfl
  | ok read =>
    obtain ⟨state, past⟩ := read
    obtain ⟨hread, hpast, hstate⟩ := hreplayed
    refine ⟨hread.lawful, ?_⟩
    rw [hread.lawful.logOf_eq, ← hpast, rebuilt, hstate]

end EventSourcing.Service
