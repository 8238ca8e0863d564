import EventSourcing.Proofs.Repository.Reachable

namespace EventSourcing.Repository

open Interleaving

variable {E : Type} {config : RepositoryConfig}

/-- Every append that has begun can return, and however it does, its batch has been checked against
some log. If that log was not too short for the batch, then the append commits if and only if its
batch was the next one and nobody else appended in between; and it ends with success or with the
error that asks for another try if and only if it was not shut out. An append is shut out only where
others have appended in between, and then it is refused as if its batch were at fault. -/
theorem append_outcome {moment : Moment E} (hreach : Reachable config moment) {id : Nat}
    {key : AggregateKey} {batch : List (RecordedEvent E)} {rest : Operation E (Result Unit)}
    {isParked : Bool} (hframe : ⟨id, .append key batch, rest, isParked⟩ ∈ moment.frames)
    {first : SequenceId} (hbatch : IsBatch key first batch) :
    (∃ later outcome, (calls config).Reaches moment later ∧
      later.Returns id (.append key batch) outcome) ∧
    ∀ later outcome, (calls config).Reaches moment later →
      later.Returns id (.append key batch) outcome →
      ∃ seen, History.read? later.world.history id = some seen ∧ (first ≤ seen.value.tail + 1 →
        (outcome = .ok () ↔ first = seen.value.tail + 1 ∧
          ¬ History.Overtaken later.world.history key id) ∧
        (outcome = .ok () ∨ outcome = .error (.optimisticConcurrency key) ↔
          ¬ History.ShutOut later.world.history id first (first + (batch.length - 1))) ∧
        (History.ShutOut later.world.history id first (first + (batch.length - 1)) →
          History.Overtaken later.world.history key id ∧
            ∃ met, History.met? later.world.history id = some met ∧
              outcome = .error (.beforeWindow first met.value.first))) := by
  refine ⟨System.exists_returns hframe, ?_⟩
  intro later outcome hlater hreturns
  obtain ⟨seen, hseen, hraced⟩ := Reachable.raced (hreach.trans hlater) hreturns hbatch
  refine ⟨seen, hseen, fun hle => ?_⟩
  have hraced := hraced hle
  refine ⟨hraced.ok_iff, ⟨fun houtcome hshut => ?_, hraced.of_not_shutOut⟩, hraced.of_shutOut⟩
  obtain ⟨-, met, -, rfl⟩ := hraced.of_shutOut hshut
  rcases houtcome with h | h <;> cases h

theorem append_outcome_of_overtaking : ∃ moment later, sampleRun overtaking = some moment ∧
    (calls .standard).Reaches moment later ∧
    later.Returns 0 (.append sampleKey (sampleBatch 1 2))
      (.error (.optimisticConcurrency sampleKey)) ∧
    History.Overtaken later.world.history sampleKey 0 := by
  obtain ⟨moment, hrun, hcalls⟩ : ∃ moment, sampleRun overtaking = some moment ∧
      moment.frames.map (fun frame => (frame.id, frame.call)) =
        [(0, .append sampleKey (sampleBatch 1 2))] :=
    ⟨(sampleRun overtaking).get rfl, (Option.some_get _).symm, rfl⟩
  obtain ⟨later, hlater, hreturns, hread⟩ :
      ∃ later, sampleRun (overtaking ++ .replicate 6 .proceed) = some later ∧
        later.Returns 0 (.append sampleKey (sampleBatch 1 2))
          (.error (.optimisticConcurrency sampleKey)) ∧
        History.read? later.world.history 0 = some ⟨0, .empty⟩ := ⟨_, rfl, ⟨_, _, rfl⟩, rfl⟩
  have hreach : (calls .standard).Reaches moment later := by
    rw [sampleRun, System.run?_append] at hlater
    rw [sampleRun] at hrun
    rw [hrun] at hlater
    exact ⟨_, hlater⟩
  refine ⟨moment, later, hrun, hreach, hreturns, ?_⟩
  obtain ⟨⟨id, call, rest, isParked⟩, hframe, heq⟩ :=
    List.mem_map.1 (hcalls.symm ▸ List.mem_singleton_self _)
  cases heq
  obtain ⟨seen, hseen, hraced⟩ := (append_outcome (reachable_of_sampleRun hrun) hframe
    (isBatch_sampleBatch 0 1)).2 later _ hreach hreturns
  rw [hread] at hseen
  cases hseen
  have hok := (hraced (by decide)).1
  refine Classical.byContradiction fun hnot => ?_
  cases hok.2 ⟨rfl, hnot⟩

/-- Two appends of one event each return while an append of the same two events is parked. -/
def shuttingOut : List (Move (Call Unit)) :=
  overtaking ++ .call (.append sampleKey (sampleBatch 2 1)) :: .replicate 11 .proceed

/-- The append has read a log without events, its batch begins at the first position, and still it
is refused as if its batch were at fault. -/
theorem append_shut_out : ∃ moment, sampleRun shuttingOut = some moment ∧
    moment.Returns 0 (.append sampleKey (sampleBatch 1 2)) (.error (.beforeWindow 1 2)) ∧
    IsBatch sampleKey 1 (sampleBatch 1 2) ∧
    History.read? moment.world.history 0 = some ⟨0, .empty⟩ ∧
    RepositoryError.beforeWindow 1 2 ≠ .optimisticConcurrency sampleKey :=
  ⟨_, rfl, ⟨_, _, rfl⟩, isBatch_sampleBatch 0 1, rfl, by simp [RepositoryError.beforeWindow]⟩

end EventSourcing.Repository
