import EventSourcing.Event

namespace EventSourcing

/-- The failure of a repository operation. -/
inductive RepositoryError where
  | optimisticConcurrency (key : AggregateKey)
  /-- The caller broke the contract with one of its arguments. -/
  | invalidArgument (argument detail : String)
  /-- The repository contradicts itself. -/
  | invariantViolation (detail : String)
  deriving DecidableEq

namespace RepositoryError

def message : RepositoryError → String
  | optimisticConcurrency key =>
    s!"Conflict: optimistic concurrency check failed for aggregate {key}"
  | invalidArgument argument detail => s!"Invalid argument '{argument}': {detail}"
  | invariantViolation detail => s!"Invariant violation: {detail}"

/-- Whether the same work may succeed when it is done again. -/
def isTransient : RepositoryError → Bool
  | optimisticConcurrency _ => true
  | invalidArgument _ _ => false
  | invariantViolation _ => false

/-- The first position of a batch is zero. -/
def firstIdZero : RepositoryError :=
  invalidArgument "events" "First event sequenceId is not a natural number"

/-- The positions of a batch do not follow each other. -/
def idsNotContiguous : RepositoryError :=
  invalidArgument "events" "Event sequence ids are inconsistent"

/-- A batch holds an event of another aggregate. -/
def foreignEvent (key : AggregateKey) : RepositoryError :=
  invalidArgument "events" s!"Every event must belong to aggregate {key}"

/-- A batch starts further than one past the end of the log. -/
def gap (expected given : SequenceId) : RepositoryError :=
  invalidArgument "events"
    s!"Invalid firstSequenceId (gap in sequence ids) expected: '{expected}' given: '{given}'"

/-- A batch starts before the range that a window announces. -/
def beforeWindow (first windowFirst : SequenceId) : RepositoryError :=
  invalidArgument "events"
    s!"First sequence id {first} precedes the undelivered window starting at {windowFirst}"

/-- More is said to be delivered than was ever appended. -/
def beyondTail (delivered tail : SequenceId) : RepositoryError :=
  invalidArgument "delivered_sequence_id"
    s!"'{delivered}' is greater than the last appended sequence id '{tail}'"

/-- A listing is asked for no events at all. -/
def zeroMaxCount : RepositoryError :=
  invalidArgument "max_count" "'0' is not a positive integer"

/-- A range to announce does not lie behind the log. -/
def rangeWithinLog (first last tail : SequenceId) : RepositoryError :=
  invariantViolation s!"Undelivered range {first}..={last} does not follow tail {tail}"

/-- A window ends inside the log. -/
def windowBelowTail (key : AggregateKey) (last tail : SequenceId) : RepositoryError :=
  invariantViolation s!"Undelivered window of {key} ends at {last} below committed tail {tail}"

/-- A watermark lies past the end of its window. -/
def watermarkPastWindow (key : AggregateKey) (delivered last : SequenceId) : RepositoryError :=
  invariantViolation s!"Delivered sequence id {delivered} passed window end {last} of {key}"

/-- An aggregate without events is already in the index. -/
def duplicateId (key : AggregateKey) : RepositoryError :=
  invariantViolation s!"Aggregate id duplicate detected: {key}"

def liveLock (key : AggregateKey) : RepositoryError :=
  invariantViolation s!"Live lock detected on {key}"

/-- The letter with which the text of a contradiction begins. Contradictions of the same kind begin
alike, whatever they are about. -/
def initial? : RepositoryError → Option Char
  | invariantViolation detail => detail.toList.head?
  | _ => none

section Initials

variable (key : AggregateKey) (first last tail : SequenceId)

@[simp]
theorem initial?_rangeWithinLog : (rangeWithinLog first last tail).initial? = some 'U' := by
  simp [initial?, rangeWithinLog, toString]

@[simp]
theorem initial?_windowBelowTail : (windowBelowTail key last tail).initial? = some 'U' := by
  simp [initial?, windowBelowTail, toString]

@[simp]
theorem initial?_watermarkPastWindow :
    (watermarkPastWindow key first last).initial? = some 'D' := by
  simp [initial?, watermarkPastWindow, toString]

@[simp]
theorem initial?_duplicateId : (duplicateId key).initial? = some 'A' := by
  simp [initial?, duplicateId, toString]

@[simp]
theorem initial?_liveLock : (liveLock key).initial? = some 'L' := by
  simp [initial?, liveLock, toString]

end Initials

theorem ne_of_initial?_ne {error other : RepositoryError} (h : error.initial? ≠ other.initial?) :
    error ≠ other :=
  fun heq => h (congrArg initial? heq)

end RepositoryError

end EventSourcing
