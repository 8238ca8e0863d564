import EventSourcing.Proofs.Repository.Reachable

namespace EventSourcing.Repository

open Interleaving

variable {E : Type} {config : RepositoryConfig}

/-- At every moment of every run the listing of undelivered events contains every event of every log
behind the furthest position that was acknowledged for its aggregate. Neither appends that lose
their races nor deliveries that overlap with appends make an event disappear from it. -/
theorem unacknowledged_event_listed {moment : Moment E} (hreach : Reachable config moment)
    {key : AggregateKey} {event : RecordedEvent E}
    (hevent : event ∈ (streamOf moment.world key).events)
    (hbehind : History.watermark moment.world.history key < event.sequenceId) :
    ∃ listing undelivered,
      (runAlone (listUndelivered none) moment.world.state).1 = .ok listing ∧
        undelivered ∈ listing ∧ undelivered.key = key ∧ event ∈ undelivered.events := by
  have hvalid := hreach.sound key
  have hposition := hvalid.sequenceId_le_tail hevent
  -- An aggregate without a window is acknowledged to its end, and this event is not.
  obtain ⟨window, hwindow⟩ : ∃ window, (streamOf moment.world key).window = some window := by
    refine Option.ne_none_iff_exists'.1 fun habsent => ?_
    have htail : (streamOf moment.world key).tail ≤ History.watermark moment.world.history key :=
      hvalid.tail_le_watermark habsent
    lia
  have hdelivered : window.value.delivered ≤ History.watermark moment.world.history key :=
    hvalid.delivered_le window hwindow
  have hpending : event ∈ eventsBehind moment.world.state key window.value.delivered := by
    cases hlog : moment.world.state.logs.get? key with
    | none => simp [streamOf, Stream.events, hlog] at hevent
    | some log =>
      have hmem : event ∈ log.value.events := by simpa [streamOf, Stream.events, hlog] using hevent
      have hslice := EventLog.mem_slice hmem (Nat.lt_of_le_of_lt hdelivered hbehind)
      simpa [eventsBehind, hlog] using hslice
  obtain ⟨listing, hrun, hlisting⟩ := mem_listUndelivered moment.world.state
  refine ⟨listing, ⟨key, eventsBehind moment.world.state key window.value.delivered⟩,
    congrArg Prod.fst hrun, ?_, rfl, hpending⟩
  exact (hlisting _).2 ⟨window, hwindow, rfl, List.ne_nil_of_mem hpending⟩

/-- Two events are appended, and the first of them is delivered. -/
def halfDelivered : List (Move (Call Unit)) :=
  .call (.append sampleKey (sampleBatch 1 2)) :: .replicate 10 .proceed ++
    .call (.markDelivered sampleKey 1) :: .replicate 6 .proceed

/-- The second event is still listed. -/
theorem unacknowledged_event_listed_of_halfDelivered : ∃ moment,
    sampleRun halfDelivered = some moment ∧ moment.frames = [] ∧
      History.watermark moment.world.history sampleKey = 1 ∧ ∃ listing undelivered,
        (runAlone (listUndelivered none) moment.world.state).1 = .ok listing ∧
          undelivered ∈ listing ∧ undelivered.key = sampleKey ∧
            ⟨sampleKey, 2, (), .nil⟩ ∈ undelivered.events := by
  have hrun : sampleRun halfDelivered = some _ := rfl
  refine ⟨_, hrun, rfl, rfl, ?_⟩
  exact unacknowledged_event_listed (reachable_of_sampleRun hrun)
    (List.mem_of_getElem? (i := 1) rfl) (Nat.lt_succ_self 1)

end EventSourcing.Repository
