import EventSourcing.Repository.Append

namespace EventSourcing.Repository

variable {E : Type}

/-- A batch that may become a part of the log of `key`, from the position `first` on. -/
structure IsBatch (key : AggregateKey) (first : SequenceId) (batch : List (RecordedEvent E)) :
    Prop where
  ne_nil : batch ≠ []
  one_le : 1 ≤ first
  positions : batch.map (·.sequenceId) = List.range' first batch.length
  belongs : ∀ event ∈ batch, event.key = key

theorem contiguous_iff (first : RecordedEvent E) (rest : List (RecordedEvent E)) :
    contiguous (first :: rest) = true ↔
      (first :: rest).map (·.sequenceId) = List.range' first.sequenceId (rest.length + 1) := by
  induction rest generalizing first with
  | nil => simp [contiguous]
  | cons second rest ih =>
    have htail : (first :: second :: rest).map (·.sequenceId) =
        List.range' first.sequenceId (rest.length + 1 + 1) ↔
          (second :: rest).map (·.sequenceId) =
            List.range' (first.sequenceId + 1) (rest.length + 1) := by
      rw [List.map_cons, List.range'_succ, List.cons_inj_right]
    rw [contiguous, Bool.and_eq_true, ih second, List.length_cons, htail, beq_iff_eq]
    constructor
    · rintro ⟨hnext, hrest⟩
      rwa [← hnext]
    · intro hrest
      have hnext : second.sequenceId = first.sequenceId + 1 := by
        rw [List.map_cons, List.range'_succ] at hrest
        exact (List.cons.inj hrest).1
      rw [hnext]
      exact ⟨rfl, hrest⟩

/-- The checks of a batch let exactly those through that may become a part of the log. -/
theorem batchFault?_eq_none_iff (key : AggregateKey) (first : RecordedEvent E)
    (rest : List (RecordedEvent E)) :
    batchFault? key first rest = none ↔ IsBatch key first.sequenceId (first :: rest) := by
  have hbelongs : (first :: rest).all (·.belongsTo key) = true ↔
      ∀ event ∈ first :: rest, event.key = key := by
    simp [RecordedEvent.belongsTo]
  constructor
  · intro hnone
    unfold batchFault? at hnone
    split at hnone
    · cases hnone
    split at hnone
    · cases hnone
    split at hnone
    · cases hnone
    next hzero hcontiguous hall =>
      simp only [Bool.not_eq_true, Bool.not_eq_false'] at hcontiguous hall
      refine ⟨by simp, Nat.one_le_iff_ne_zero.2 hzero, ?_, hbelongs.1 hall⟩
      exact (contiguous_iff first rest).1 hcontiguous
  · intro hbatch
    have hzero : ¬ first.sequenceId = 0 := Nat.one_le_iff_ne_zero.1 hbatch.one_le
    have hcontiguous := (contiguous_iff first rest).2 hbatch.positions
    have hall := hbelongs.2 hbatch.belongs
    simp [batchFault?, hzero, hcontiguous, hall]

/-- A fault of a batch is a fault of whoever has made it. -/
theorem exists_of_batchFault?_eq_some {key : AggregateKey} {first : RecordedEvent E}
    {rest : List (RecordedEvent E)} {fault : RepositoryError}
    (hfault : batchFault? key first rest = some fault) :
    ∃ argument detail, fault = .invalidArgument argument detail := by
  unfold batchFault? at hfault
  split at hfault
  · cases hfault
    exact ⟨_, _, rfl⟩
  split at hfault
  · cases hfault
    exact ⟨_, _, rfl⟩
  split at hfault
  · cases hfault
    exact ⟨_, _, rfl⟩
  · cases hfault

theorem IsBatch.head {key : AggregateKey} {position : SequenceId} {first : RecordedEvent E}
    {rest : List (RecordedEvent E)} (hbatch : IsBatch key position (first :: rest)) :
    first.sequenceId = position := by
  have h := hbatch.positions
  rw [List.length_cons, List.range'_succ, List.map_cons] at h
  exact (List.cons.inj h).1

theorem IsBatch.unique {key : AggregateKey} {first other : SequenceId}
    {batch : List (RecordedEvent E)} (hbatch : IsBatch key first batch)
    (hother : IsBatch key other batch) : first = other := by
  cases batch with
  | nil => exact absurd rfl hbatch.ne_nil
  | cons event rest => exact hbatch.head.symm.trans hother.head

/-- The last event of a batch is as far behind the first as the length tells. -/
theorem IsBatch.last {key : AggregateKey} {first : RecordedEvent E}
    {rest : List (RecordedEvent E)} (hbatch : IsBatch key first.sequenceId (first :: rest)) :
    (rest.getLast?.getD first).sequenceId = first.sequenceId + rest.length := by
  have hlast : (first :: rest).getLast? = some (rest.getLast?.getD first) := by
    cases rest with
    | nil => rfl
    | cons second rest => simp [List.getLast?_cons]
  have h := congrArg List.getLast? hbatch.positions
  rw [List.getLast?_map, hlast, List.getLast?_range'] at h
  simpa [Nat.add_sub_cancel] using h

/-- A batch without faults goes on to be checked against the log. -/
theorem append_of_isBatch (config : RepositoryConfig) {key : AggregateKey} {first : SequenceId}
    {batch : List (RecordedEvent E)} (hbatch : IsBatch key first batch) :
    append config key batch =
      appendChecked config key first (first + (batch.length - 1)) batch := by
  cases batch with
  | nil => exact absurd rfl hbatch.ne_nil
  | cons event rest =>
    obtain rfl := hbatch.head
    simp only [append, (batchFault?_eq_none_iff key event rest).2 hbatch, hbatch.last]
    rfl

/-- Any other batch is refused at once, unless it is empty. -/
theorem append_of_not_isBatch (config : RepositoryConfig) {key : AggregateKey}
    {batch : List (RecordedEvent E)} (hne : batch ≠ [])
    (hbatch : ∀ first, ¬ IsBatch key first batch) :
    ∃ fault, append config key batch = .done (.error fault) := by
  cases batch with
  | nil => exact absurd rfl hne
  | cons event rest =>
    cases hfault : batchFault? key event rest with
    | none => exact absurd ((batchFault?_eq_none_iff key event rest).1 hfault) (hbatch _)
    | some fault => exact ⟨fault, by simp [append, hfault]⟩

end EventSourcing.Repository
