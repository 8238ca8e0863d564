import EventSourcing.Proofs.Queue.Telling

namespace EventSourcing.Workplace

variable {Item : Type} {place : Workplace Item} {hand : Option (Job Item)}

namespace Runs

/-- An entry that says nothing of jobs that were taken or run. -/
structure IsIdle (entry : Entry Item) : Prop where
  handedOut? : entry.handedOut? = none := by rfl
  completed? : entry.completed? = none := by rfl
  isReaching : ∀ number, entry.isReaching number = false := by intro _; rfl

theorem record (hruns : Runs place hand) {entry : Entry Item} (hidle : IsIdle entry) :
    Runs (place.record entry) hand := by
  intro hworkers
  simp only [Workplace.record, isWorkersOnly_concat, Bool.and_eq_true] at hworkers
  obtain ⟨hheld, hhandedOut, hmarkers⟩ := hruns hworkers.1
  refine ⟨hheld, ?_, fun number hreached => ?_⟩
  · simp [Workplace.record, hidle.handedOut?, hidle.completed?, hhandedOut]
  · simp only [Workplace.record, isReached_concat, hidle.isReaching, Bool.or_false] at hreached
    simpa [Workplace.record, hidle.completed?] using hmarkers number hreached

/-- Nothing is said once others have taken jobs. -/
theorem of_foreign {later : Workplace Item} (hforeign : isWorkersOnly later.history = false) :
    Runs later hand :=
  fun hworkers => absurd hworkers (by simp [hforeign])

/-- Only if others have taken jobs they may let go of one. -/
theorem release (hruns : Runs place hand) (index : Nat) (entry : Job Item → Entry Item) :
    Runs (place.release index entry) hand := by
  unfold Workplace.release
  split
  · exact hruns
  · next job hheld =>
    refine of_foreign ?_
    simp only [Workplace.record, isWorkersOnly_concat, Bool.and_eq_false_iff]
    refine .inl (Bool.eq_false_iff.2 fun hworkers => ?_)
    rw [(hruns hworkers).1] at hheld
    cases hheld

/-- The worker takes a job. -/
theorem tookJob (hruns : Runs place none) (token : CancellationToken) (job : Job Item) :
    Runs (place.record (.took .worker token (.ok job))) (some job) := by
  intro hworkers
  simp only [Workplace.record, isWorkersOnly_concat, Bool.and_eq_true] at hworkers
  obtain ⟨hheld, hhandedOut, hmarkers⟩ := hruns hworkers.1
  refine ⟨hheld, ?_, fun number hreached => ?_⟩
  · simpa [Workplace.record, Entry.handedOut?, Entry.completed?] using hhandedOut
  · simp only [Workplace.record, isReached_concat, Entry.isReaching, Bool.or_false] at hreached
    simpa [Workplace.record, Entry.completed?] using hmarkers number hreached

/-- The worker has run the job in its hand. -/
theorem finished {job : Job Item} (hruns : Runs place (some job)) (result : Except String Unit) :
    Runs (place.record (.finished .worker job result)) none := by
  intro hworkers
  simp only [Workplace.record, isWorkersOnly_concat, Bool.and_eq_true] at hworkers
  obtain ⟨hheld, hhandedOut, hmarkers⟩ := hruns hworkers.1
  refine ⟨hheld, ?_, fun number hreached => ?_⟩
  · simpa [Workplace.record, Entry.handedOut?, Entry.completed?] using hhandedOut
  · simp only [Workplace.record, completed_concat, Entry.completed?, Option.toList_some,
      List.mem_append, List.mem_singleton]
    simp only [Workplace.record, isReached_concat, Bool.or_eq_true] at hreached
    refine hreached.imp (hmarkers number) fun hreaching => ?_
    cases job with
    | item item => cases hreaching
    | marker other => rw [of_decide_eq_true hreaching]

theorem reportFailure (hruns : Runs place hand) (result : Except String Unit) :
    Runs (reportFailure result place) hand := by
  cases result with
  | ok _ => exact hruns
  | error text => exact hruns.record {}

end Runs

/-- A worker that asks for a job has none in its hand. -/
theorem Works.hand_eq_none {token : CancellationToken}
    (hworks : Works (some (token, Worker.asking)) hand) : hand = none := by
  generalize hworker : some (token, Worker.asking) = worker at hworks
  cases hworks with
  | absent => rfl
  | asking _ => rfl
  | running _ job =>
    exact absurd (Prod.mk.inj (Option.some.inj hworker)).2 (Worker.asking_ne_running job)

namespace Lined

/-- It makes no difference who else stands in the line. -/
theorem of_filter_eq (hlined : Lined place) {line : List Asker}
    (hfilter : line.filter Asker.isWorker = place.line.filter Asker.isWorker) :
    Lined { place with line } := by
  obtain hnone | ⟨token, hone, hasking⟩ := hlined
  · exact .inl (hfilter.trans hnone)
  · exact .inr ⟨token, hfilter.trans hone, hasking⟩

/-- Someone other than the worker joins the line. -/
theorem concat (hlined : Lined place) {asker : Asker} (hother : asker.isWorker = false) :
    Lined { place with line := place.line ++ [asker] } :=
  hlined.of_filter_eq (by simp [hother])

theorem eraseIdx (hlined : Lined place) {index : Nat} {asker : Asker}
    (hasker : place.line[index]? = some asker) :
    Lined { place with line := place.line.eraseIdx index } := by
  have hothers (hother : asker.isWorker = false) :
      Lined { place with line := place.line.eraseIdx index } :=
    hlined.of_filter_eq (other_leaves hasker hother)
  cases asker with
  | taker taker token =>
    cases taker with
    | worker => exact .inl (hlined.worker_leaves hasker).2
    | other => exact hothers rfl
  | closer => exact hothers rfl

end Lined

namespace Manned

theorem record (hmanned : Manned place hand) {entry : Entry Item} (hidle : Runs.IsIdle entry) :
    Manned (place.record entry) hand :=
  ⟨hmanned.works, hmanned.lined, hmanned.runs.record hidle⟩

theorem withQueue (hmanned : Manned place hand) (queue : TaskQueue (Job Item)) :
    Manned { place with queue } hand :=
  ⟨hmanned.works, hmanned.lined, hmanned.runs⟩

theorem eraseIdx (hmanned : Manned place hand) {index : Nat} {asker : Asker}
    (hasker : place.line[index]? = some asker) :
    Manned { place with line := place.line.eraseIdx index } hand :=
  ⟨hmanned.works, hmanned.lined.eraseIdx hasker, hmanned.runs⟩

theorem deliver_other (hmanned : Manned place hand) (token : CancellationToken)
    (outcome : Except QueueError (Job Item)) :
    ∃ hand, Manned (place.deliver .other token outcome) hand := by
  cases outcome with
  | ok job =>
    refine ⟨hand, hmanned.works, hmanned.lined, .of_foreign ?_⟩
    simp [deliver, hold, Workplace.record, Entry.isForeign]
  | error error => exact ⟨hand, hmanned.record {}⟩

theorem deliver_worker (hmanned : Manned place hand) {token : CancellationToken}
    (hworker : place.worker = some (token, Worker.asking))
    (hline : place.line.filter Asker.isWorker = []) (outcome : Except QueueError (Job Item)) :
    ∃ hand, Manned (place.deliver .worker token outcome) hand := by
  obtain rfl : hand = none := Works.hand_eq_none (hworker ▸ hmanned.works)
  rw [Workplace.deliver_worker hworker]
  cases outcome with
  | ok job => exact ⟨some job, .running token job, .inl hline, hmanned.runs.tookJob token job⟩
  | error error => exact ⟨none, .absent, .inl hline, (hmanned.runs.record {}).record {}⟩

theorem call_other (hmanned : Manned place hand) (token : CancellationToken) :
    ∃ hand, Manned (place.call .other token) hand := by
  unfold Workplace.call
  split
  · exact hmanned.deliver_other token _
  · exact ⟨hand, hmanned.works, hmanned.lined.concat rfl, hmanned.runs⟩

theorem call_worker (hmanned : Manned place hand) {token : CancellationToken}
    (hworker : place.worker = some (token, Worker.asking))
    (hline : place.line.filter Asker.isWorker = []) :
    ∃ hand, Manned (place.call .worker token) hand := by
  unfold Workplace.call
  split
  · exact hmanned.deliver_worker hworker hline _
  · refine ⟨hand, hmanned.works, .inr ⟨token, ?_, hworker⟩, hmanned.runs⟩
    rw [List.filter_append, hline]
    rfl

theorem proceed (htold : Told place) (hmanned : Manned place hand) (index : Nat) :
    ∃ hand, Manned (place.proceed index) hand := by
  cases hasker : place.line[index]? with
  | none =>
    rw [proceed_none hasker]
    exact ⟨hand, hmanned⟩
  | some asker =>
    have hleft := hmanned.eraseIdx hasker
    cases asker with
    | taker taker token =>
      have hdeliver : ∀ queue outcome, ∃ hand, Manned ({ place with
          queue
          line := place.line.eraseIdx index }.deliver taker token outcome) hand := by
        intro queue outcome
        cases taker with
        | worker =>
          obtain ⟨hworker, hline⟩ := hmanned.lined.worker_leaves hasker
          exact (hleft.withQueue queue).deliver_worker hworker hline outcome
        | other => exact (hleft.withQueue queue).deliver_other token outcome
      obtain ⟨-, heq⟩ | ⟨error, -, heq⟩ | ⟨job, rest, -, -, heq⟩ :=
        htold.proceed_taker hasker
      · rw [heq]
        exact ⟨hand, hmanned⟩
      · rw [heq]
        exact hdeliver _ _
      · rw [heq]
        exact hdeliver _ _
    | closer =>
      rw [proceed_closer hasker]
      split
      · exact ⟨hand, (hleft.withQueue _).record {}⟩
      · exact ⟨hand, hmanned⟩

theorem leave (hmanned : Manned place hand) (index : Nat) : Manned (place.leave index) hand := by
  unfold Workplace.leave
  split
  · exact hmanned
  · cases hasker : place.line[index]? with
    | none =>
      rw [List.eraseIdx_of_length_le (List.getElem?_eq_none_iff.1 hasker)]
      exact hmanned
    | some asker => exact hmanned.eraseIdx hasker

theorem release (hmanned : Manned place hand) (index : Nat) (entry : Job Item → Entry Item) :
    Manned (place.release index entry) hand := by
  have hruns := hmanned.runs.release index entry
  unfold Workplace.release at hruns ⊢
  split
  · exact hmanned
  · next job hheld => exact ⟨hmanned.works, hmanned.lined, by simpa only [hheld] using hruns⟩

theorem start (hmanned : Manned place hand) (token : CancellationToken) :
    ∃ hand, Manned (place.start token) hand := by
  unfold Workplace.start
  split
  · exact ⟨hand, hmanned⟩
  · next hworker =>
    have hhand : hand = none := by
      have hworks := hmanned.works
      rw [hworker] at hworks
      cases hworks
      rfl
    have hline := hmanned.lined.filter_eq_nil fun token => by simp [hworker]
    subst hhand
    exact ⟨none, .asking token, .inl hline, hmanned.runs.record {}⟩

theorem work (hmanned : Manned place hand) (result : Except String Unit) :
    ∃ hand, Manned (place.work result) hand := by
  have hworks := hmanned.works
  generalize hworker : place.worker = worker at hworks
  cases hworks with
  | absent =>
    rw [work_absent hworker]
    exact ⟨none, hmanned⟩
  | asking token =>
    rw [work_asking hworker]
    split
    · exact ⟨none, hmanned⟩
    · next hline => exact hmanned.call_worker hworker (by simpa using hline)
  | running token job =>
    have hline := hmanned.lined.filter_eq_nil fun _ hasking => Worker.asking_ne_running job
      (Prod.mk.inj (Option.some.inj (hasking.symm.trans hworker))).2
    have hruns := (hmanned.runs.finished (job.result result)).reportFailure (job.result result)
    rw [work_running hworker]
    exact ⟨none, .asking token, .inl ((line_reportFailure ..).symm ▸ hline), hruns⟩

theorem beginWait (hmanned : Manned place hand) (token : CancellationToken) :
    Manned (place.beginWait token) hand := by
  have hput : Manned place.putMarker hand :=
    ⟨hmanned.works, hmanned.lined, Runs.record hmanned.runs {}⟩
  have hrefused : Manned place.refuseMarker hand :=
    ⟨hmanned.works, hmanned.lined, Runs.record hmanned.runs {}⟩
  rw [beginWait_eq]
  split
  · exact hrefused.record {}
  split
  · exact hput.record {}
  · exact ⟨hput.works, hput.lined, hput.runs⟩

theorem endWait (hmanned : Manned place hand) (number : Nat) :
    Manned (place.endWait number) hand := by
  unfold Workplace.endWait
  split
  · exact hmanned
  · dsimp only
    split
    · exact ⟨hmanned.works, hmanned.lined, Runs.record hmanned.runs {}⟩
    · exact hmanned

theorem step (htold : Told place) (hmanned : Manned place hand) (move : Move Item) :
    ∃ hand, Manned (place.step move) hand := by
  cases move with
  | enqueue item =>
    change ∃ hand, Manned (place.enqueue item) hand
    rw [enqueue_eq]
    split
    · exact ⟨hand, hmanned.record {}⟩
    · exact ⟨hand, (hmanned.withQueue _).record {}⟩
  | close => exact ⟨hand, hmanned.works, hmanned.lined.concat rfl, hmanned.runs⟩
  | cancel token => exact ⟨hand, hmanned.works, hmanned.lined, Runs.record hmanned.runs {}⟩
  | dequeue token => exact hmanned.call_other token
  | proceed index => exact hmanned.proceed htold index
  | leave index => exact ⟨hand, hmanned.leave index⟩
  | finish index result => exact ⟨hand, hmanned.release index _⟩
  | drop index => exact ⟨hand, hmanned.release index _⟩
  | start token => exact hmanned.start token
  | work result => exact hmanned.work result
  | beginWait token => exact ⟨hand, hmanned.beginWait token⟩
  | endWait number => exact ⟨hand, hmanned.endWait number⟩

end Manned

end EventSourcing.Workplace
