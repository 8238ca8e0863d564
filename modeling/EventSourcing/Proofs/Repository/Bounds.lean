import EventSourcing.Proofs.Repository.WindowSteps

namespace EventSourcing

/-- What may be said of the window of an aggregate whose log ends at `tail`. -/
structure Window.IsWithin (window : Window) (tail : SequenceId) : Prop where
  delivered_lt : window.delivered < window.last
  one_le : 1 ≤ window.first
  first_le_last : window.first ≤ window.last
  first_le : window.first ≤ tail + 1
  delivered_le : window.delivered ≤ tail

namespace Repository

open Interleaving Program

variable {E : Type} {config : RepositoryConfig} {key : AggregateKey}

/-- The window of a stream starts behind zero, and there is something left of it to deliver. -/
def Stream.IsOpen (s : Stream E) : Prop :=
  ∀ window, s.window = some window →
    1 ≤ window.value.first ∧ window.value.delivered < window.value.last

/-- A window that an append replaces has something left to deliver. If the new one is to end before
the old one, this has been left behind inside the log that the append has read. -/
private theorem delivered_lt_of_widens {current : Window} {seen tail last : SequenceId}
    (hlast : seen < last)
    (hkept : ¬ (last < current.last ∧ ¬ current.isSpeculative seen = true))
    (hopen : current.delivered < current.last) (hdelivered : current.delivered ≤ tail)
    (hovertaken : seen < tail → seen < current.first) : current.delivered < last := by
  by_cases hends : last < current.last
  · have hspeculative : current.isSpeculative seen = true := by
      by_contra hnot
      exact hkept ⟨hends, hnot⟩
    have hfirst := (Window.isSpeculative_iff.1 hspeculative).1
    have htail : ¬ seen < tail := fun h => Nat.not_lt_of_le hfirst (hovertaken h)
    lia
  · lia

section Run

variable {moment : Moment E} {before after : History E} {entry : Entry E}

private theorem Reachable.isOpen_concat (hreach : Reachable config moment)
    (hsplit : moment.world.history = before ++ entry :: after)
    (hopen : (streamOf (History.world before) key).IsOpen) :
    (streamOf (History.world (before ++ [entry])) key).IsOpen := by
  intro window hwindow
  have hvalid := hreach.sound_before hsplit key
  cases hreach.windowStep hsplit key with
  | spares hsame _ => exact hopen window (hsame.symm.trans hwindow)
  | opens _ hlast hopened _ =>
    obtain rfl := Option.some.inj (hopened.symm.trans hwindow)
    exact ⟨Nat.le_add_left _ _, hlast⟩
  | widens hread hlast hcurrent hkept hwidened _ =>
    obtain rfl := Option.some.inj (hwidened.symm.trans hwindow)
    have hdelivered := Nat.le_trans (hvalid.delivered_le _ hcurrent) hvalid.watermark_le_tail
    have hlt := delivered_lt_of_widens hlast hkept (hopen _ hcurrent).2 hdelivered fun hgrown =>
      hreach.tail_lt_first_of_overtaken hsplit hread hgrown hcurrent
    exact ⟨Nat.le_add_left _ _, hlt⟩
  | commits hcurrent hsame _ => exact hopen window (hcurrent.trans (hsame.symm.trans hwindow))
  | advances hcurrent hnew hfirst hlt _ =>
    obtain rfl := Option.some.inj (hnew.symm.trans hwindow)
    exact ⟨hfirst.symm ▸ (hopen _ hcurrent).1, hlt⟩
  | removes hnone => cases hnone.symm.trans hwindow

/-- At every moment of every run each window is within its bounds. -/
theorem Reachable.isWithin (hreach : Reachable config moment) {window : Snapshot Window}
    (hwindow : (streamOf moment.world key).window = some window) :
    window.value.IsWithin (streamOf moment.world key).tail := by
  have hvalid := hreach.sound key
  have hopen : (streamOf moment.world key).IsOpen :=
    hreach.history_induct (P := fun world => (streamOf world key).IsOpen)
      (fun _ h => nomatch h) fun before entry after => hreach.isOpen_concat
  obtain ⟨hone, hlt⟩ := hopen window hwindow
  exact ⟨hlt, hone, hvalid.first_le_last window hwindow, hvalid.first_le window hwindow,
    Nat.le_trans (hvalid.delivered_le window hwindow) hvalid.watermark_le_tail⟩

/-- A window that a delivery is to be recorded in, and that would get its watermark moved past its
end, has reached as far as the log did. -/
private theorem past_of_advanceWatermark {tail delivered : SequenceId} {transcript : Transcript E}
    {owner : AggregateKey} {passed last : SequenceId}
    (hyields : (advanceWatermark key tail delivered).Yields transcript
      (.error (.watermarkPastWindow owner passed last))) :
    ∃ current late, transcript = ⟨.windows (.get key), some current⟩ :: late ∧
      tail ≤ current.value.last ∧
        (current.value.clamped tail).last < max current.value.delivered delivered := by
  unfold advanceWatermark at hyields
  obtain ⟨found, late, rfl, hlate⟩ := yields_request_bind_iff.1 hyields
  cases found with
  | none => cases hlate.2
  | some current =>
    dsimp only at hlate
    split at hlate
    · exact absurd (Except.error.inj hlate.2) (RepositoryError.ne_of_initial?_ne (by simp))
    next hlast =>
    obtain ⟨clamping, settling, _, rfl, -, hsettling⟩ := yields_bind_iff.1 hlate
    refine ⟨current, _, rfl, Nat.le_of_not_lt hlast, ?_⟩
    unfold settleWindow at hsettling
    split at hsettling
    · cases hsettling.2
    split at hsettling
    · obtain ⟨_, _, rfl, -, heq⟩ := hsettling
      cases heq
    next hne =>
    split at hsettling
    · obtain ⟨_, _, rfl, -, heq⟩ := hsettling
      cases heq
    next hlt =>
    simp only [Window.acknowledged_delivered, Window.acknowledged_last, Window.delivered_clamped]
      at hne hlt
    lia

/-- A delivery that would move the watermark past the end of a window has looked at the log, and at
the window right after that. -/
private theorem past_of_recordDelivery {delivered : SequenceId} {passes : Nat}
    {checkpoint : Checkpoint} {transcript : Transcript E} {owner : AggregateKey}
    {passed last : SequenceId}
    (hyields : (recordDelivery key delivered passes checkpoint).Yields transcript
      (.error (.watermarkPastWindow owner passed last))) :
    ∃ early log current late, transcript = (early ++ [⟨.logs (.get key), log⟩]) ++
        ⟨.windows (.get key), some current⟩ :: late ∧
      delivered ≤ (log.map fun current => current.value.tail).getD 0 ∧
      (log.map fun current => current.value.tail).getD 0 ≤ current.value.last ∧
        (current.value.clamped ((log.map fun current => current.value.tail).getD 0)).last <
          max current.value.delivered delivered := by
  induction passes generalizing transcript checkpoint with
  | zero =>
    exact absurd (Except.error.inj hyields.2) (RepositoryError.ne_of_initial?_ne (by simp))
  | succ passes ih =>
    rw [recordDelivery] at hyields
    obtain ⟨started, _, rfl, hread⟩ := yields_request_bind_iff.1 hyields
    obtain ⟨log, _, rfl, hpass⟩ := yields_request_bind_iff.1 hread
    dsimp only at hpass
    split at hpass
    · cases hpass.2
    next hle =>
    obtain ⟨advancing, later, result, rfl, hadvancing, hlater⟩ := yields_bind_iff.1 hpass
    cases result with
    | error error =>
      obtain ⟨rfl, heq⟩ := hlater
      cases heq
      obtain ⟨current, late, rfl, hlast, hpast⟩ := past_of_advanceWatermark hadvancing
      exact ⟨[⟨.reached checkpoint key, started⟩], log, current, late, by simp,
        Nat.le_of_not_lt hle, hlast, hpast⟩
    | ok isDone =>
      cases isDone with
      | true =>
        obtain ⟨_, _, rfl, -, heq⟩ := hlater
        cases heq
      | false =>
        obtain ⟨early, log', current, late, rfl, hpast⟩ := ih hlater
        exact ⟨⟨.reached checkpoint key, started⟩ :: ⟨.logs (.get key), log⟩ ::
          (advancing ++ early), log', current, late, by simp, hpast⟩

/-- No delivery finds a window that ends before the events that are delivered. -/
theorem Reachable.not_past (hreach : Reachable config moment) {id : Nat} {owner : AggregateKey}
    {delivered passed last : SequenceId} :
    ⟨id, .markDelivered key delivered, .returned (.error (.watermarkPastWindow owner passed last))⟩
      ∉ moment.world.history := by
  intro hreturned
  have hyields : (markDelivered config key delivered).Yields _ _ :=
    System.Reaches.yields hreach hreturned
  unfold markDelivered at hyields
  split at hyields
  · cases hyields.2
  obtain ⟨early, log, current, late, htold, hle, hlast, hpast⟩ := past_of_recordDelivery hyields
  obtain ⟨before, call, after, hsplit, hbefore, -⟩ := exists_split_of_exchangesOf htold
  -- Nothing comes between the look at the log and the look at the window.
  obtain ⟨older, rfl⟩ := System.Reaches.told_before hreach hsplit hbefore rfl
  have hwindow := hreach.faithful hsplit _ _ rfl
  have hlog := hreach.faithful (hsplit.trans (List.append_assoc ..)) _ _ rfl
  have hvalid := hreach.sound_before hsplit key
  have htail : (streamOf (History.world (older ++
      [⟨id, call, .answered (.logs (.get key)) log⟩])) key).tail =
        (log.map fun current => current.value.tail).getD 0 := by
    rw [hlog, History.world_answered]
    rfl
  have hdelivered := Nat.le_trans (hvalid.delivered_le current hwindow.symm)
    hvalid.watermark_le_tail
  rw [htail] at hdelivered
  have hclamped := Window.tail_le_last_clamped hlast
  lia

private theorem IsBatch.sequenceId_lt {first : SequenceId} {batch : List (RecordedEvent E)}
    (hbatch : IsBatch key first batch) {event : RecordedEvent E} (hevent : event ∈ batch) :
    event.sequenceId < first + batch.length := by
  have hmem : event.sequenceId ∈ batch.map (·.sequenceId) := List.mem_map_of_mem hevent
  rw [hbatch.positions, List.mem_range'_1] at hmem
  exact hmem.2

/-- How windows stand at every moment of every run, however deep the calls are nested. Each of them
is within its bounds. If an append is going to commit and asks for nothing of the windows before it
does, there is a window that begins right behind the log and covers the batch. And no delivery has
moved a watermark past the end of a window. -/
theorem windows_within_bounds (hreach : Reachable config moment) (key : AggregateKey) :
    (∀ window, moment.world.state.windows.get? key = some window →
      window.value.IsWithin (streamOf moment.world key).tail) ∧
    (∀ final rest id batch, (calls config).Reaches moment final →
      final.world.history = moment.world.history ++ rest →
      (∀ exchange ∈ exchangesOf id rest, isOfWindows exchange = false) →
      (id, batch) ∈ History.commits rest key →
      ∃ window, moment.world.state.windows.get? key = some window ∧
        window.value.first = (streamOf moment.world key).tail + 1 ∧
        ∀ event ∈ batch, event.sequenceId ≤ window.value.last) ∧
    ∀ id delivered owner passed last, ⟨id, .markDelivered key delivered,
      .returned (.error (.watermarkPastWindow owner passed last))⟩ ∉ moment.world.history := by
  refine ⟨fun window hwindow => hreach.isWithin hwindow, ?_, fun _ _ _ _ _ => hreach.not_past⟩
  intro final rest id batch hfinal hhistory hasked hcommit
  obtain ⟨between, after, owner, seen, new, rfl⟩ := History.exists_of_mem_commits hcommit
  rw [← List.append_assoc] at hhistory
  have hreach' : Reachable config final := System.Reaches.trans hreach hfinal
  obtain ⟨window, hwindow, hfirst, hbatch, hlast⟩ :=
    hreach'.covered_until_commit hhistory fun exchange hmem => hasked exchange (by
      rw [exchangesOf_append]
      exact List.mem_append_left _ hmem)
  rw [← hreach.replayed] at hwindow hfirst hlast
  refine ⟨window, hwindow, hfirst, fun event hevent => ?_⟩
  have hlt := hbatch.sequenceId_lt hevent
  lia

/-- An append has announced its batch inside another one to the same aggregate, which has read the
log already. -/
def announcedInside : List (Move (Call Unit)) :=
  overtaking.take 9

/-- The window is there for the inner append, which commits next. -/
theorem windows_within_bounds_of_announcedInside : ∃ moment window,
    sampleRun announcedInside = some moment ∧ moment.frames.length = 2 ∧
      moment.world.state.windows.get? sampleKey = some window ∧ window.value.IsWithin 0 ∧
      window.value.first = 1 ∧ ∀ event ∈ sampleBatch 1 1, event.sequenceId ≤ window.value.last := by
  have hfacts : ((sampleRun announcedInside).bind fun moment =>
      ((calls .standard).next? moment .proceed).map fun final =>
        (moment.frames.length, (streamOf moment.world sampleKey).tail,
          (exchangesOf 1 (final.world.history.drop moment.world.history.length)).all
            (!isOfWindows ·),
          History.commits (final.world.history.drop moment.world.history.length) sampleKey)) =
      some (2, 0, true, [(1, sampleBatch 1 1)]) := rfl
  obtain ⟨moment, hrun, hmoment⟩ := Option.bind_eq_some_iff.1 hfacts
  obtain ⟨final, hnext, hfinal⟩ := Option.map_eq_some_iff.1 hmoment
  obtain ⟨entry, hhistory⟩ := System.exists_history_next? hnext
  rw [hhistory, List.drop_left] at hfinal
  simp only [Prod.mk.injEq, List.all_eq_true, Bool.not_eq_true'] at hfinal
  obtain ⟨hframes, htail, hasked, hcommits⟩ := hfinal
  obtain ⟨hwithin, hcovered, -⟩ := windows_within_bounds (reachable_of_sampleRun hrun) sampleKey
  rw [htail] at hwithin hcovered
  obtain ⟨window, hwindow, hfirst, hlast⟩ := hcovered final [entry] 1 (sampleBatch 1 1)
    (.of_next? hnext ⟨[], rfl⟩) hhistory hasked (by rw [hcommits]; exact List.mem_cons_self)
  exact ⟨moment, window, hrun, hframes, hwindow, hwithin window hwindow, hfirst, hlast⟩

end Run

end Repository

end EventSourcing
