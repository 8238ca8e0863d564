import EventSourcing.Proofs.Repository.Reachable

namespace EventSourcing.Repository

open Interleaving

variable {E : Type} {config : RepositoryConfig}

/-- At every moment of every run the log of an aggregate is what was committed to it, in the order
of the commits: events of this aggregate at the positions 1, 2, 3, … It only grows at its end. An
append that has returned has committed its batch once if it was successful, and nothing if it was
not; an empty batch is left out, as it is accepted without a commit. -/
theorem log_integrity {moment : Moment E} (hreach : Reachable config moment) (key : AggregateKey) :
    (streamOf moment.world key).events =
        (History.commits moment.world.history key).flatMap (·.2) ∧
      (streamOf moment.world key).events.map (·.sequenceId) =
        List.range' 1 (streamOf moment.world key).tail ∧
      (streamOf moment.world key).tail = (streamOf moment.world key).events.length ∧
      (∀ event ∈ (streamOf moment.world key).events, event.key = key) ∧
      (∀ earlier, Reachable config earlier → (calls config).Reaches earlier moment →
        (streamOf earlier.world key).events <+: (streamOf moment.world key).events) ∧
      ((History.commits moment.world.history key).map (·.1)).Nodup ∧
      ∀ id batch outcome, ⟨id, .append key batch, .returned outcome⟩ ∈ moment.world.history →
        batch ≠ [] → ∀ other, (id, other) ∈ History.commits moment.world.history key ↔
          other = batch ∧ outcome = .ok () := by
  have hvalid := hreach.sound key
  refine ⟨hvalid.events_eq, ?_, hvalid.tail_eq_length, hvalid.belongs, ?_, hvalid.commits_nodup, ?_⟩
  · rw [hvalid.tail_eq_length]
    exact hvalid.positions
  · intro earlier hearlier hlater
    obtain ⟨entries, hentries⟩ := hlater.history_extends
    rw [hvalid.events_eq, (hearlier.sound key).events_eq]
    refine ⟨(History.commits entries key).flatMap (·.2), ?_⟩
    rw [← List.flatMap_append]
    simp only [streamOf, ← hentries, History.commits, List.filterMap_append]
  · intro id batch outcome hreturned hne
    exact hvalid.mem_commits_iff _ (mem_returns hreturned) hne

/-- The append that has lost leaves nothing in the log. -/
theorem log_integrity_of_lostRace : ∃ moment, sampleRun lostRace = some moment ∧
    moment.frames = [] ∧ (streamOf moment.world sampleKey).events = sampleBatch 1 1 ∧
    ∀ batch, (0, batch) ∉ History.commits moment.world.history sampleKey := by
  have hrun : sampleRun lostRace = some _ := rfl
  have hintegrity := log_integrity (reachable_of_sampleRun hrun) sampleKey
  refine ⟨_, hrun, rfl, rfl, fun batch hmem => ?_⟩
  obtain ⟨-, hok⟩ := (hintegrity.2.2.2.2.2.2 0 (sampleBatch 1 2)
    (.error (.optimisticConcurrency sampleKey)) (List.mem_of_getElem? (i := 20) rfl) (by decide)
    batch).1 hmem
  cases hok

end EventSourcing.Repository
