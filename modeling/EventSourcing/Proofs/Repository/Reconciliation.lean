import EventSourcing.Proofs.Repository.Alone
import EventSourcing.Proofs.Repository.Reachable

namespace EventSourcing.Repository

open Interleaving

variable {E : Type} {config : RepositoryConfig}

/-- Every position of a log that ends at `tail` can be acknowledged, and when the last one is,
nothing of `key` is listed as undelivered any more. -/
def Reconcilable (config : RepositoryConfig) (state : Repository E) (key : AggregateKey)
    (tail : SequenceId) : Prop :=
  (∀ delivered, 1 ≤ delivered → delivered ≤ tail →
    (runAlone (markDelivered config key delivered) state).1 = .ok ()) ∧
  ∃ listing, (runAlone (listUndelivered none)
      (runAlone (markDelivered config key tail) state).2).1 = .ok listing ∧
    ∀ undelivered ∈ listing, undelivered.key ≠ key

/-- Nothing of an aggregate is listed if its log ends before the watermark of its window. -/
private theorem not_listed {state : Repository E} {key : AggregateKey} {tail : SequenceId}
    (hpositions : ∀ log, state.logs.get? key = some log →
      ∀ event ∈ log.value.events, event.sequenceId ≤ tail)
    (hdelivered : ∀ window, state.windows.get? key = some window → tail ≤ window.value.delivered) :
    ∃ listing, (runAlone (listUndelivered none) state).1 = .ok listing ∧
      ∀ undelivered ∈ listing, undelivered.key ≠ key := by
  obtain ⟨listing, hrun, hlisting⟩ := mem_listUndelivered state
  refine ⟨listing, congrArg Prod.fst hrun, ?_⟩
  rintro undelivered hmem rfl
  obtain ⟨window, hwindow, hevents, hne⟩ := (hlisting undelivered).1 hmem
  refine hne ?_
  rw [hevents, eventsBehind]
  cases hlog : state.logs.get? undelivered.key with
  | none => rfl
  | some log =>
    refine EventLog.slice_eq_nil fun event hevent => ?_
    exact Nat.le_trans (hpositions log hlog event hevent) (hdelivered window hwindow)

section

variable {world : World E} {key : AggregateKey} {delivered : SequenceId}

private theorem delivery_refused (hpos : 1 ≤ delivered)
    (hle : delivered ≤ (streamOf world key).tail) {window : Snapshot Window}
    (hwindow : world.state.windows.get? key = some window)
    (hlast : window.value.last < (streamOf world key).tail) :
    runAlone (markDelivered config key delivered) world.state =
      (.error (.windowBelowTail key window.value.last (streamOf world key).tail), world.state) :=
  runAlone_markDelivered hpos rfl hle (runAlone_advanceWatermark_below hwindow hlast) (by simp)

private theorem delivery_accepted (config : RepositoryConfig) (hsound : Sound world)
    (hpos : 1 ≤ delivered) (hle : delivered ≤ (streamOf world key).tail)
    (hlast : ∀ window, world.state.windows.get? key = some window →
      (streamOf world key).tail ≤ window.value.last) :
    ∃ settled, runAlone (markDelivered config key delivered) world.state = (.ok (), settled) ∧
      settled.logs = world.state.logs ∧ ∀ window, settled.windows.get? key = some window →
        delivered ≤ window.value.delivered := by
  have hvalid := hsound key
  cases hwindow : world.state.windows.get? key with
  | none =>
    refine ⟨world.state, ?_, rfl, fun window h => ?_⟩
    · exact runAlone_markDelivered hpos rfl hle (runAlone_advanceWatermark_none hwindow) (by simp)
    · rw [hwindow] at h
      cases h
  | some current =>
    have hbound := Nat.le_trans (hvalid.delivered_le current hwindow) hvalid.watermark_le_tail
    obtain ⟨settled, hrun, hlogs, hview⟩ :=
      runAlone_advanceWatermark hwindow (hlast current hwindow) hbound hle
    refine ⟨settled, runAlone_markDelivered hpos rfl hle hrun (by simp), hlogs, ?_⟩
    intro window h
    have hremnant : settled.view.window key = some window.value := by simp [view, h]
    rw [hview, View.withWindow_self] at hremnant
    rw [eq_of_remnant hremnant]
    exact Nat.le_max_right _ _

end

/-- At every moment of every run the deliveries of an aggregate with events can be brought to their
end if and only if its window does not end inside the log. If it does, every delivery is refused and
changes nothing. This happens only where an append has opened a window over events that others
committed while it was parked; no call needs to be in flight any more. -/
theorem reconcilable_iff {moment : Moment E} (hreach : Reachable config moment)
    {key : AggregateKey} (htail : 1 ≤ (streamOf moment.world key).tail) :
    (Reconcilable config moment.world.state key (streamOf moment.world key).tail ↔
      ∀ window, moment.world.state.windows.get? key = some window →
        (streamOf moment.world key).tail ≤ window.value.last) ∧
    ∀ window, moment.world.state.windows.get? key = some window →
      window.value.last < (streamOf moment.world key).tail →
      History.Reopened moment.world.history key ∧
        ∀ delivered, 1 ≤ delivered → delivered ≤ (streamOf moment.world key).tail →
          runAlone (markDelivered config key delivered) moment.world.state =
            (.error (.windowBelowTail key window.value.last (streamOf moment.world key).tail),
              moment.world.state) := by
  have hsound := hreach.sound
  refine ⟨⟨fun hreconcilable window hwindow => ?_, fun hlast => ⟨?_, ?_⟩⟩, ?_⟩
  · refine Nat.le_of_not_lt fun hbelow => ?_
    have hok := hreconcilable.1 _ htail (Nat.le_refl _)
    rw [delivery_refused htail (Nat.le_refl _) hwindow hbelow] at hok
    cases hok
  · intro delivered hpos hle
    obtain ⟨settled, hrun, -⟩ := delivery_accepted config hsound hpos hle hlast
    exact congrArg Prod.fst hrun
  · obtain ⟨settled, hrun, hlogs, hsettled⟩ :=
      delivery_accepted config hsound htail (Nat.le_refl _) hlast
    rw [hrun]
    refine not_listed (fun log hlog event hevent => ?_) hsettled
    rw [hlogs] at hlog
    refine (hsound key).sequenceId_le_tail ?_
    rw [Stream.events_of_log hlog]
    exact hevent
  · intro window hwindow hbelow
    -- A window that nobody has reopened would reach to the end of the log.
    refine ⟨?_, fun delivered hpos hle => delivery_refused hpos hle hwindow hbelow⟩
    refine Classical.byContradiction fun hreopened => ?_
    exact Nat.not_lt_of_le ((hsound key).tail_le_last hreopened window hwindow) hbelow

theorem reconcilable_of_lostRace : ∃ moment, sampleRun lostRace = some moment ∧
    moment.frames = [] ∧ (streamOf moment.world sampleKey).tail = 1 ∧
    (streamOf moment.world sampleKey).window = some ⟨1, ⟨0, 1, 2⟩⟩ ∧
    Reconcilable .standard moment.world.state sampleKey 1 := by
  obtain ⟨moment, hrun, hframes, htail, hwindow⟩ : ∃ moment, sampleRun lostRace = some moment ∧
      moment.frames = [] ∧ (streamOf moment.world sampleKey).tail = 1 ∧
      (streamOf moment.world sampleKey).window = some ⟨1, ⟨0, 1, 2⟩⟩ := ⟨_, rfl, rfl, rfl, rfl⟩
  refine ⟨moment, hrun, hframes, htail, hwindow, ?_⟩
  have hiff := (reconcilable_iff (reachable_of_sampleRun hrun) (Nat.le_of_eq htail.symm)).1
  rw [htail] at hiff
  refine hiff.2 fun window h => ?_
  obtain rfl := Option.some.inj (hwindow.symm.trans h)
  decide

/-- While an append of one event is parked, two events are committed and delivered; then it goes on
and opens a window that ends before the second event. -/
def staleOpening : List (Move (Call Unit)) :=
  [.call (.append sampleKey (sampleBatch 1 1)), .proceed, .proceed,
    .call (.append sampleKey (sampleBatch 1 2))] ++ .replicate 10 .proceed ++
    .call (.markDelivered sampleKey 2) :: .replicate 12 .proceed

/-- No delivery of either event is possible any more, although nothing is left in flight. -/
theorem not_reconcilable_of_staleOpening : ∃ moment, sampleRun staleOpening = some moment ∧
    moment.frames = [] ∧ (streamOf moment.world sampleKey).tail = 2 ∧
    (∀ delivered, 1 ≤ delivered → delivered ≤ 2 →
      (runAlone (markDelivered .standard sampleKey delivered) moment.world.state).1 =
        .error (.windowBelowTail sampleKey 1 2)) ∧
    ¬ Reconcilable .standard moment.world.state sampleKey 2 := by
  obtain ⟨moment, hrun, hframes, htail, hwindow⟩ : ∃ moment, sampleRun staleOpening = some moment ∧
      moment.frames = [] ∧ (streamOf moment.world sampleKey).tail = 2 ∧
      (streamOf moment.world sampleKey).window = some ⟨1, ⟨0, 1, 1⟩⟩ := ⟨_, rfl, rfl, rfl, rfl⟩
  have hrefused : ∀ delivered, 1 ≤ delivered → delivered ≤ 2 →
      (runAlone (markDelivered .standard sampleKey delivered) moment.world.state).1 =
        .error (.windowBelowTail sampleKey 1 2) := by
    intro delivered hpos hle
    rw [← htail] at hle
    rw [delivery_refused hpos hle hwindow (by rw [htail]; decide), htail]
  refine ⟨moment, hrun, hframes, htail, hrefused, fun hreconcilable => ?_⟩
  have hok := hreconcilable.1 1 (by decide) (by decide)
  rw [hrefused 1 (by decide) (by decide)] at hok
  cases hok

end EventSourcing.Repository
