import EventSourcing.Proofs.Repository.Batch
import EventSourcing.Proofs.Transcript

namespace EventSourcing.Repository

open Program

variable {E : Type}

/-- How the position behind and before another one is found, if there is one. -/
structure Counting where
  next? : SequenceId → Option SequenceId
  previous? : SequenceId → Option SequenceId

namespace Counting

/-- No position is too far. -/
def unbounded : Counting where
  next? position := some (position + 1)
  previous? position := some (position - 1)

/-- Positions are words of 64 bits. What would wrap around has no result. -/
def words : Counting where
  next? position := if position + 1 < UInt64.size then some (position + 1) else none
  previous? position := if position = 0 then none else some (position - 1)

/-- Positions are words of 64 bits, and zero comes again behind the last one. -/
def wrapping : Counting where
  next? position := some ((position + 1) % UInt64.size)
  previous? position := some ((position + (UInt64.size - 1)) % UInt64.size)

variable (counting : Counting)

def contiguous : List (RecordedEvent E) → Bool
  | [] => true
  | [_] => true
  | first :: second :: rest =>
    counting.next? first.sequenceId == some second.sequenceId && contiguous (second :: rest)

def batchFault? (key : AggregateKey) (first : RecordedEvent E) (rest : List (RecordedEvent E)) :
    Option RepositoryError :=
  if first.sequenceId = 0 then
    some .firstIdZero
  else if !counting.contiguous (first :: rest) then
    some .idsNotContiguous
  else if !(first :: rest).all (·.belongsTo key) then
    some (.foreignEvent key)
  else
    none

def opened? (first last : SequenceId) : Option Window :=
  (counting.previous? first).map fun delivered => ⟨delivered, first, last⟩

def widenWindow (key : AggregateKey) (tail first last : SequenceId) :
    (passes : Nat) → (checkpoint : Checkpoint) → Operation E (Option (Result Unit))
  | 0, _ => return some (.error (.liveLock key))
  | passes + 1, checkpoint => do
    reached checkpoint key
    match counting.opened? first last with
    | none => return none
    | some window =>
      let (current, inserted) ← step (.windows (.getOrInsert key window))
      if inserted then
        return some (.ok ())
      else if last < current.value.last && !current.value.isSpeculative tail then
        reached .undeliveredWindowKept key
        return some (.ok ())
      else if first < current.value.first then
        return some (.error (.beforeWindow first current.value.first))
      else
        let swapped ←
          step (.windows (.compareAndSwap key current (current.value.widened first last)))
        if swapped then return some (.ok ())
        else widenWindow key tail first last passes .markUndeliveredConflicted

def markUndelivered (config : RepositoryConfig) (key : AggregateKey)
    (tail first last : SequenceId) : Operation E (Option (Result Unit)) :=
  if last < first || first ≤ tail then
    return some (.error (.rangeWithinLog first last tail))
  else
    counting.widenWindow key tail first last config.liveLockLimit.value .markUndeliveredStarted

def commit (config : RepositoryConfig) (key : AggregateKey) (seen : Snapshot (EventLog E))
    (expected first last : SequenceId) (batch : List (RecordedEvent E)) :
    Operation E (Option (Result Bool)) :=
  if first < expected then
    return some (.ok false)
  else do
    match ← counting.markUndelivered config key seen.value.tail first last with
    | none => return none
    | some (.error error) => return some (.error error)
    | some (.ok _) =>
      reached .appendMarkedUndelivered key
      let swapped ← step (.logs (.compareAndSwap key seen (seen.value.append batch)))
      return some (.ok swapped)

def appendChecked (config : RepositoryConfig) (key : AggregateKey) (first last : SequenceId)
    (batch : List (RecordedEvent E)) : Operation E (Option (Result Unit)) := do
  let (seen, _) ← step (.logs (.getOrInsert key .empty))
  match counting.next? seen.value.tail with
  | none => return none
  | some expected =>
    if expected < first then
      return some (.error (.gap expected first))
    else
      reached .appendValidated key
      match ← counting.commit config key seen expected first last batch with
      | none => return none
      | some (.error error) => return some (.error error)
      | some (.ok committed) =>
        return some (← conclude config key (seen.value.tail == 0) committed)

/-- Appends a batch, with nothing as its outcome if it has counted too far. -/
def append (config : RepositoryConfig) (key : AggregateKey) :
    List (RecordedEvent E) → Operation E (Option (Result Unit))
  | [] => return some (.ok ())
  | first :: rest =>
    match counting.batchFault? key first rest with
    | some fault => return some (.error fault)
    | none =>
      let last := (rest.getLast?.getD first).sequenceId
      counting.appendChecked config key first.sequenceId last (first :: rest)

section Agreement

variable {counting} {config : RepositoryConfig} {key : AggregateKey} {first last : SequenceId}
  (hprevious : counting.previous? first = some (first - 1))

include hprevious

private theorem widenWindow_eq (tail : SequenceId) (passes : Nat) (checkpoint : Checkpoint) :
    counting.widenWindow (E := E) key tail first last passes checkpoint =
      some <$> Repository.widenWindow key tail first last passes checkpoint := by
  induction passes generalizing checkpoint with
  | zero => rfl
  | succ passes ih =>
    have hopened : counting.opened? first last = some (.opened first last) := by
      simp [opened?, hprevious, Window.opened]
    rw [widenWindow, Repository.widenWindow, map_bind, hopened]
    refine bind_congr fun _ => ?_
    rw [map_bind]
    refine bind_congr fun found => ?_
    dsimp only
    split
    · rfl
    split
    · rfl
    split
    · rfl
    rw [map_bind]
    refine bind_congr fun swapped => ?_
    split
    · rfl
    · exact ih _

private theorem markUndelivered_eq (tail : SequenceId) :
    counting.markUndelivered (E := E) config key tail first last =
      some <$> Repository.markUndelivered config key tail first last := by
  unfold markUndelivered Repository.markUndelivered
  split
  · rfl
  · exact widenWindow_eq hprevious ..

private theorem commit_eq (seen : Snapshot (EventLog E)) (batch : List (RecordedEvent E)) :
    counting.commit config key seen (seen.value.tail + 1) first last batch =
      some <$> Repository.commit config key seen first last batch := by
  unfold commit Repository.commit
  by_cases hstale : first ≤ seen.value.tail
  · rw [if_pos hstale, if_pos (Nat.lt_succ_of_le hstale)]
    rfl
  · rw [if_neg hstale, if_neg fun h => hstale (Nat.le_of_lt_succ h), markUndelivered_eq hprevious,
      map_bind, bind_map_left]
    refine bind_congr fun announced => ?_
    cases announced <;> rfl

/-- Both ways of counting read the log first, and go on alike if they find the same position. -/
private theorem appendChecked_alike (config : RepositoryConfig) (key : AggregateKey)
    (batch : List (RecordedEvent E)) : ∃ rest rest',
    Repository.appendChecked config key first last batch =
      step (.logs (.getOrInsert key .empty)) >>= rest ∧
    counting.appendChecked config key first last batch =
      step (.logs (.getOrInsert key .empty)) >>= rest' ∧
    ∀ found, counting.next? found.1.value.tail = some (found.1.value.tail + 1) →
      rest' found = some <$> rest found := by
  refine ⟨_, _, rfl, rfl, fun found hnext => ?_⟩
  dsimp only
  rw [hnext]
  dsimp only
  split
  · rfl
  · rw [commit_eq hprevious, map_bind]
    refine bind_congr fun _ => ?_
    rw [map_bind, bind_map_left]
    refine bind_congr fun committed => ?_
    cases committed <;> rfl

end Agreement

section Faults

variable {counting} {events : List (RecordedEvent E)}

private theorem contiguous_eq (hnext : ∀ event ∈ events, ∀ other ∈ events,
    counting.next? event.sequenceId = some other.sequenceId ↔
      other.sequenceId = event.sequenceId + 1) :
    counting.contiguous events = Repository.contiguous events := by
  induction events with
  | nil => rfl
  | cons first rest ih =>
    cases rest with
    | nil => rfl
    | cons second rest =>
      have hsecond := hnext first List.mem_cons_self second (by simp)
      have hrest := ih fun event hevent other hother =>
        hnext event (List.mem_cons_of_mem _ hevent) other (List.mem_cons_of_mem _ hother)
      rw [contiguous, Repository.contiguous, hrest, Bool.eq_iff_iff]
      simp [hsecond]

private theorem batchFault?_eq (key : AggregateKey) {first : RecordedEvent E}
    {rest : List (RecordedEvent E)} (hnext : ∀ event ∈ first :: rest, ∀ other ∈ first :: rest,
      counting.next? event.sequenceId = some other.sequenceId ↔
        other.sequenceId = event.sequenceId + 1) :
    counting.batchFault? key first rest = Repository.batchFault? key first rest := by
  unfold batchFault? Repository.batchFault?
  rw [contiguous_eq hnext]

end Faults

variable (config : RepositoryConfig) (key : AggregateKey)

/-- Nothing is counted before the log is read. -/
theorem append_ne_done_none (batch : List (RecordedEvent E)) :
    counting.append config key batch ≠ .done none := by
  cases batch with
  | nil => exact nofun
  | cons first rest =>
    rw [append]
    split
    · exact nofun
    · exact nofun

/-- Without bounds this is the append of the repository. -/
theorem append_unbounded (batch : List (RecordedEvent E)) :
    unbounded.append config key batch = some <$> Repository.append config key batch := by
  cases batch with
  | nil => rfl
  | cons first rest =>
    have hfault : unbounded.batchFault? key first rest = Repository.batchFault? key first rest :=
      batchFault?_eq key fun event _ other _ => by simp [unbounded, eq_comm]
    simp only [append, Repository.append, hfault]
    cases Repository.batchFault? key first rest with
    | some fault => rfl
    | none =>
      have hprevious : unbounded.previous? first.sequenceId = some (first.sequenceId - 1) := rfl
      obtain ⟨after, after', heq, heq', halike⟩ :=
        appendChecked_alike hprevious config key (first :: rest)
      dsimp only
      rw [heq, heq', map_bind]
      exact bind_congr fun found => halike found rfl

/-- An append that counts in words, and is told what an append without bounds has been told, goes
the same way, as long as the log it reads can still grow. -/
theorem yields_append_words {batch : List (RecordedEvent E)}
    {transcript : List (Exchange (Request.Reply (E := E)))} {outcome : Result Unit}
    (hbatch : ∀ event ∈ batch, event.sequenceId < UInt64.size)
    (hread : ∀ found rest, transcript = ⟨.logs (.getOrInsert key .empty), found⟩ :: rest →
      found.1.value.tail + 1 < UInt64.size)
    (hyields : (Repository.append config key batch).Yields transcript outcome) :
    (words.append config key batch).Yields transcript (some outcome) := by
  cases batch with
  | nil =>
    obtain ⟨rfl, rfl⟩ := hyields
    exact ⟨rfl, rfl⟩
  | cons first rest =>
    have hfault : words.batchFault? key first rest = Repository.batchFault? key first rest := by
      refine batchFault?_eq key fun event _ other hother => ?_
      have hlt := hbatch other hother
      simp only [words]
      split <;> simp <;> lia
    simp only [append, Repository.append, hfault] at hyields ⊢
    cases hnone : Repository.batchFault? key first rest with
    | some fault =>
      simp only [hnone] at hyields ⊢
      obtain ⟨rfl, rfl⟩ := hyields
      exact ⟨rfl, rfl⟩
    | none =>
      simp only [hnone] at hyields ⊢
      have hone := ((batchFault?_eq_none_iff key first rest).1 hnone).one_le
      have hprevious : words.previous? first.sequenceId = some (first.sequenceId - 1) :=
        if_neg (Nat.one_le_iff_ne_zero.1 hone)
      obtain ⟨after, after', heq, heq', halike⟩ :=
        appendChecked_alike hprevious config key (first :: rest)
      rw [heq] at hyields
      rw [heq']
      obtain ⟨found, told, rfl, hafter⟩ := hyields
      refine ⟨found, told, rfl, ?_⟩
      change (after' found).Yields told (some outcome)
      rw [halike found (if_pos (hread found told rfl)), map_eq_pure_bind]
      exact yields_bind_iff.2 ⟨told, [], outcome, (List.append_nil _).symm, hafter, rfl, rfl⟩

end Counting

end EventSourcing.Repository
