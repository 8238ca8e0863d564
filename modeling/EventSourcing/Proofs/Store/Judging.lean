import EventSourcing.Proofs.Store.Numbering

namespace EventSourcing

open Repository (Counting)

namespace Repository.Counting

variable {counting : Counting} {E : Type}

/-- These positions follow each other behind the last one, and another one could follow them. -/
inductive Counts (counting : Counting) : (last : SequenceId) → List SequenceId → Prop
  | nil {last next} : counting.next? last = some next → counting.Counts last []
  | cons {last next rest} : counting.next? last = some next → counting.Counts next rest →
      counting.Counts last (next :: rest)

theorem counts_of_positionsFrom? {last first : SequenceId} {count : Nat}
    {positions : List SequenceId} (hfirst : counting.next? last = some first)
    (hpositions : counting.positionsFrom? first count = some positions) :
    counting.Counts last positions ∧ positions.length = count := by
  induction count generalizing last first positions with
  | zero =>
    cases hpositions
    exact ⟨.nil hfirst, rfl⟩
  | succ count ih =>
    unfold positionsFrom? at hpositions
    split at hpositions
    · cases hpositions
    · next following hfollowing =>
      obtain ⟨rest, hrest, rfl⟩ := Option.map_eq_some_iff.1 hpositions
      obtain ⟨hcounts, hlength⟩ := ih hfollowing hrest
      exact ⟨.cons hfirst hcounts, congrArg (· + 1) hlength⟩

theorem Counts.exists_positionsFrom? {last : SequenceId} {positions : List SequenceId}
    (hcounts : counting.Counts last positions) : ∃ first, counting.next? last = some first ∧
      counting.positionsFrom? first positions.length = some positions := by
  induction hcounts with
  | nil hnext => exact ⟨_, hnext, rfl⟩
  | cons hnext _ ih =>
    obtain ⟨following, hfollowing, hrest⟩ := ih
    refine ⟨_, hnext, ?_⟩
    rw [List.length_cons, positionsFrom?, hfollowing]
    dsimp only
    rw [hrest]
    rfl

section Record

variable {key : AggregateKey} {source : Uuid} {last : SequenceId} {events : List E}

/-- Events that are recorded at given positions stand there. -/
theorem map_zipWith (key : AggregateKey) (source : Uuid) {positions : List SequenceId}
    {events : List E} (hlength : positions.length = events.length) :
    let newEvents := positions.zipWith
      (fun position event => (⟨key, position, event, source⟩ : RecordedEvent E)) events
    newEvents.map (·.sequenceId) = positions ∧ newEvents.map (·.payload) = events := by
  induction positions generalizing events with
  | nil =>
    obtain rfl := List.length_eq_zero_iff.1 hlength.symm
    exact ⟨rfl, rfl⟩
  | cons position positions ih =>
    cases events with
    | nil => cases hlength
    | cons event events =>
      obtain ⟨hids, hpayloads⟩ := ih (Nat.succ.inj hlength)
      exact ⟨congrArg (position :: ·) hids, congrArg (event :: ·) hpayloads⟩

theorem of_record?_eq_some {newEvents : List (RecordedEvent E)}
    (h : counting.record? key source last events = some newEvents) :
    counting.Counts last (newEvents.map (·.sequenceId)) ∧ newEvents.map (·.payload) = events ∧
      ∀ event ∈ newEvents, event.key = key ∧ event.sourceId = source := by
  unfold record? at h
  split at h
  · cases h
  · next first hfirst =>
    obtain ⟨positions, hpositions, rfl⟩ := Option.map_eq_some_iff.1 h
    obtain ⟨hcounts, hlength⟩ := counts_of_positionsFrom? hfirst hpositions
    obtain ⟨hids, hpayloads⟩ := map_zipWith key source hlength
    refine ⟨by rwa [hids], hpayloads, fun event hmem => ?_⟩
    obtain ⟨index, _, rfl⟩ := List.mem_iff_getElem.1 hmem
    simp

theorem of_record?_eq_none (h : counting.record? key source last events = none)
    {positions : List SequenceId} (hlength : positions.length = events.length) :
    ¬counting.Counts last positions := by
  intro hcounts
  obtain ⟨first, hfirst, hpositions⟩ := hcounts.exists_positionsFrom?
  rw [record?, hfirst, ← hlength] at h
  dsimp only at h
  rw [hpositions] at h
  cases h

end Record

end Repository.Counting

namespace Store

variable {State Command E : Type}

/-- The last position of a stream; one without events ends at zero. -/
inductive EndsAt : List (RecordedEvent E) → SequenceId → Prop
  | empty : EndsAt [] 0
  | behind (front : List (RecordedEvent E)) (last : RecordedEvent E) :
      EndsAt (front ++ [last]) last.sequenceId

/-- The stream ends at this position, and its events lead from a fresh aggregate to this state. -/
structure Replays (domain : Domain State Command E) (type : AggregateType)
    (stream : List (RecordedEvent E)) (last : SequenceId) (state : State) : Prop where
  endsAt : EndsAt stream last
  folds : ∃ fresh, domain.fresh type = some fresh ∧
    state = stream.foldl (fun state event => domain.apply state event.payload) fresh

/-- The command is new to the stream, and the processor gives this answer when it is shown the state
that the stream leads to. -/
structure Answers (domain : Domain State Command E) (key : AggregateKey) (command : Command)
    (stream : List (RecordedEvent E)) (last : SequenceId) (state : State)
    (answer : Except String (Outcome E)) : Prop where
  replays : Replays domain key.type stream last state
  isNew : ∀ event ∈ stream, event.sourceId ≠ domain.commandId command
  processed : ∃ processor, domain.processor key.type = some processor ∧
    processor command state = answer

/-- The stream settles the command without new events. -/
inductive Settles (domain : Domain State Command E) (key : AggregateKey) (command : Command)
    (stream : List (RecordedEvent E)) :
    Except (StoreError State Command) (CommandResult State E) → Prop
  | repeated {event last state} : Replays domain key.type stream last state → event ∈ stream →
      event.sourceId = domain.commandId command →
      Settles domain key command stream (.ok ⟨last, [], state, true⟩)
  | unprocessed {last state} : Replays domain key.type stream last state →
      (∀ event ∈ stream, event.sourceId ≠ domain.commandId command) →
      domain.processor key.type = none →
      Settles domain key command stream (.error (.invariantViolation
        s!"no command processor registered for aggregate type '{key.type}'"))
  | refused {last state errors} :
      Answers domain key command stream last state (.ok (.failure errors)) →
      Settles domain key command stream
        (.error (.commandFailed ⟨key, last, state, command, errors⟩))
  /-- The processor itself has failed, and its text is the only reason for the refusal. -/
  | crashed {last state text errors} :
      Answers domain key command stream last state (.error text) →
      errors.toList = [⟨none, text, some text⟩] →
      Settles domain key command stream
        (.error (.commandFailed ⟨key, last, state, command, errors⟩))

/-- On this stream the command is accepted, with this result if its new events are stored: they
follow the stream, and lead on from the state that the processor was shown. -/
inductive Accepts (counting : Counting) (domain : Domain State Command E) (key : AggregateKey)
    (command : Command) (stream : List (RecordedEvent E)) : CommandResult State E → Prop
  | intro {last state events newEvents newLast newState} :
      Answers domain key command stream last state (.ok (.success events)) →
      newEvents.map (·.payload) = events →
      (∀ event ∈ newEvents, event.key = key ∧ event.sourceId = domain.commandId command) →
      counting.Counts last (newEvents.map (·.sequenceId)) →
      Replays domain key.type (stream ++ newEvents) newLast newState →
      Accepts counting domain key command stream ⟨newLast, newEvents, newState, false⟩

/-- The command is accepted, but there are no positions for its events behind the stream. -/
def Overruns (counting : Counting) (domain : Domain State Command E) (key : AggregateKey)
    (command : Command) (stream : List (RecordedEvent E)) : Prop :=
  ∃ last state events, Answers domain key command stream last state (.ok (.success events)) ∧
    ∀ positions : List SequenceId, positions.length = events.length →
      ¬counting.Counts last positions

theorem endsAt_lastPosition (stream : List (RecordedEvent E)) :
    EndsAt stream (lastPosition stream) := by
  obtain rfl | ⟨front, last, rfl⟩ := List.eq_nil_or_concat stream
  · exact .empty
  · rw [List.concat_eq_append, lastPosition, List.getLast?_append]
    exact .behind front last

/-- New events move the end of a stream. -/
theorem EndsAt.append {stream : List (RecordedEvent E)} {last : SequenceId}
    (hends : EndsAt stream last) (newEvents : List (RecordedEvent E)) :
    EndsAt (stream ++ newEvents) ((newEvents.getLast?.map (·.sequenceId)).getD last) := by
  obtain rfl | ⟨front, final, rfl⟩ := List.eq_nil_or_concat newEvents
  · rwa [List.append_nil]
  · rw [List.concat_eq_append, ← List.append_assoc, List.getLast?_append]
    exact .behind (stream ++ front) final

theorem replays_fold {domain : Domain State Command E} {type : AggregateType} {fresh : State}
    (hfresh : domain.fresh type = some fresh) (stream : List (RecordedEvent E)) :
    Replays domain type stream (lastPosition stream)
      (domain.fold fresh (stream.map (·.payload))) :=
  ⟨endsAt_lastPosition stream, fresh, hfresh, List.foldl_map⟩

theorem Replays.append {domain : Domain State Command E} {type : AggregateType}
    {stream : List (RecordedEvent E)} {last : SequenceId} {state : State}
    (hreplays : Replays domain type stream last state) (newEvents : List (RecordedEvent E)) :
    Replays domain type (stream ++ newEvents)
      ((newEvents.getLast?.map (·.sequenceId)).getD last)
      (domain.fold state (newEvents.map (·.payload))) := by
  obtain ⟨fresh, hfresh, rfl⟩ := hreplays.folds
  refine ⟨hreplays.endsAt.append newEvents, fresh, hfresh, ?_⟩
  rw [List.foldl_append, Domain.fold, List.foldl_map]

end Store

end EventSourcing
