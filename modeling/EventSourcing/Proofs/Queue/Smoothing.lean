import EventSourcing.Proofs.Queue.Telling

namespace EventSourcing.Workplace

variable {Item : Type} {place : Workplace Item} {hand : Option (Job Item)}

/-- The same move, but if it brings a job to its end the job does not fail. -/
def Move.smooth : Move Item → Move Item
  | finish index _ => finish index (.ok ())
  | work _ => work (.ok ())
  | move => move

/-- What is told of a job that has come to its end without its result, and no failure is told. -/
def Entry.smooth? : Entry Item → Option (Entry Item)
  | finished taker job _ => some (finished taker job (.ok ()))
  | reported _ => none
  | entry => some entry

def smooth (place : Workplace Item) : Workplace Item :=
  { place with history := place.history.filterMap Entry.smooth? }

theorem isReached_smooth (history : History Item) (number : Nat) :
    isReached (history.filterMap Entry.smooth?) number = isReached history number := by
  rw [isReached, List.any_filterMap, isReached]
  congr 1
  funext entry
  cases entry with
  | finished taker job result => cases job <;> rfl
  | _ => rfl

theorem isDropped_smooth (history : History Item) (number : Nat) :
    isDropped (history.filterMap Entry.smooth?) number = isDropped history number := by
  rw [isDropped, List.any_filterMap, isDropped]
  congr 1
  funext entry
  cases entry <;> rfl

theorem smooth_record (place : Workplace Item) {entry smoothed : Entry Item}
    (hentry : entry.smooth? = some smoothed) :
    (place.record entry).smooth = place.smooth.record smoothed := by
  have hhistory : (place.history ++ [entry]).filterMap Entry.smooth? =
      place.history.filterMap Entry.smooth? ++ [smoothed] := by
    rw [filterMap_concat, hentry]
    rfl
  rw [smooth, record, hhistory]
  rfl

theorem smooth_reportFailure (result : Except String Unit) (place : Workplace Item) :
    (reportFailure result place).smooth = place.smooth := by
  cases result with
  | ok _ => rfl
  | error text =>
    have hhistory : (place.history ++ [Entry.reported (.workItemFailed text)]).filterMap
        Entry.smooth? = place.history.filterMap Entry.smooth? := by
      rw [filterMap_concat]
      exact List.append_nil _
    rw [reportFailure, smooth, record, hhistory]
    rfl

theorem smooth_receive (token : CancellationToken) (outcome : Except QueueError (Job Item))
    (place : Workplace Item) :
    (receive token outcome place).smooth = receive token outcome place.smooth := by
  cases outcome with
  | ok job => rfl
  | error error => exact smooth_record _ rfl

theorem smooth_deliver {taker : Taker} {token : CancellationToken}
    (hworker : taker = .worker → place.worker = some (token, Worker.asking))
    (outcome : Except QueueError (Job Item)) :
    (place.deliver taker token outcome).smooth = place.smooth.deliver taker token outcome := by
  have htook : (place.record (.took taker token outcome)).smooth =
      place.smooth.record (.took taker token outcome) := smooth_record _ rfl
  cases taker with
  | worker =>
    have hsmooth : place.smooth.worker = some (token, Worker.asking) := hworker rfl
    rw [deliver_worker (hworker rfl), deliver_worker hsmooth, smooth_receive, htook]
  | other =>
    cases outcome with
    | ok job => exact congrArg (hold (.ok job)) htook
    | error error => exact htook

theorem smooth_call {taker : Taker} {token : CancellationToken}
    (hworker : taker = .worker → place.worker = some (token, Worker.asking)) :
    (place.call taker token).smooth = place.smooth.call taker token := by
  have hcancellations : place.smooth.cancellations = place.cancellations := rfl
  unfold call
  rw [hcancellations, apply_ite smooth]
  exact if_congr Iff.rfl (smooth_deliver hworker _) rfl

theorem smooth_proceed (hlined : Lined place) (index : Nat) :
    (place.proceed index).smooth = place.smooth.proceed index := by
  have hline : place.smooth.line = place.line := rfl
  have hqueue : place.smooth.queue = place.queue := rfl
  have hcancellations : place.smooth.cancellations = place.cancellations := rfl
  unfold proceed
  rw [hline, hqueue, hcancellations]
  cases hasker : place.line[index]? with
  | none => rfl
  | some asker =>
    cases asker with
    | taker taker token =>
      have hworker : taker = .worker → place.worker = some (token, Worker.asking) := by
        rintro rfl
        exact (hlined.worker_leaves hasker).1
      dsimp only
      rw [apply_ite smooth]
      refine if_congr Iff.rfl ?_ rfl
      generalize place.queue.dequeue (place.cancellations.isCancelled token) = answered
      obtain ⟨taken, queue⟩ := answered
      dsimp only
      cases taken.answer? with
      | none => rfl
      | some outcome =>
        have hleft : taker = .worker → ({ place with
            queue
            line := place.line.eraseIdx index } : Workplace Item).worker =
              some (token, Worker.asking) := hworker
        exact smooth_deliver hleft outcome
    | closer =>
      dsimp only
      rw [apply_ite smooth]
      exact if_congr Iff.rfl (smooth_record _ rfl) rfl

theorem smooth_leave (index : Nat) :
    (place.leave index).smooth = place.smooth.leave index :=
  apply_ite smooth _ _ _

theorem smooth_release (index : Nat) {entry smoothed : Job Item → Entry Item}
    (hentry : ∀ job, (entry job).smooth? = some (smoothed job)) :
    (place.release index entry).smooth = place.smooth.release index smoothed := by
  have hheld : place.smooth.held = place.held := rfl
  unfold release
  rw [hheld]
  cases place.held[index]? with
  | none => rfl
  | some job => exact smooth_record _ (hentry job)

theorem smooth_start (token : CancellationToken) :
    (place.start token).smooth = place.smooth.start token := by
  have hworker : place.smooth.worker = place.worker := rfl
  unfold start
  rw [hworker]
  cases place.worker with
  | some worker => rfl
  | none => exact smooth_record _ rfl

theorem smooth_beginWait (token : CancellationToken) :
    (place.beginWait token).smooth = place.smooth.beginWait token := by
  have hput : place.putMarker.smooth = place.smooth.putMarker := smooth_record _ rfl
  have hrefused : place.refuseMarker.smooth = place.smooth.refuseMarker := smooth_record _ rfl
  rw [beginWait_eq, beginWait_eq, apply_ite smooth, apply_ite smooth, ← hput, ← hrefused]
  exact if_congr Iff.rfl (smooth_record _ rfl) (if_congr Iff.rfl (smooth_record _ rfl) rfl)

theorem smooth_endWait (number : Nat) :
    (place.endWait number).smooth = place.smooth.endWait number := by
  have hwaits : place.smooth.waits = place.waits := rfl
  have hcancellations : place.smooth.cancellations = place.cancellations := rfl
  have hreached : isReached place.smooth.history number = isReached place.history number :=
    isReached_smooth place.history number
  have hdropped : isDropped place.smooth.history number = isDropped place.history number :=
    isDropped_smooth place.history number
  unfold endWait
  rw [hwaits]
  cases place.waits.find? fun wait => wait.1 = number with
  | none => rfl
  | some wait =>
    dsimp only
    rw [hcancellations, hreached, hdropped, apply_ite smooth]
    exact if_congr Iff.rfl (smooth_record _ rfl) rfl

theorem smooth_work (hworks : Works place.worker hand) (result : Except String Unit) :
    (place.work result).smooth = place.smooth.work (.ok ()) := by
  generalize hworker : place.worker = worker at hworks
  have hsmooth : place.smooth.worker = worker := hworker
  cases hworks with
  | absent => rw [work_absent hworker, work_absent hsmooth]
  | asking token =>
    have hline : place.smooth.line = place.line := rfl
    rw [work_asking hworker, work_asking hsmooth, hline, apply_ite smooth]
    exact if_congr Iff.rfl rfl (smooth_call fun _ => hworker)
  | running token job =>
    have hfinished : (place.record (.finished .worker job (job.result result))).smooth =
        place.smooth.record (.finished .worker job (.ok ())) := by
      cases job <;> exact smooth_record _ rfl
    have hreported := (smooth_reportFailure (job.result result) _).trans hfinished
    have hresult : job.result (.ok ()) = .ok () := by cases job <;> rfl
    rw [work_running hworker, work_running hsmooth, hresult]
    exact congrArg (fun later : Workplace Item => { later with
      worker := some (token, Worker.asking) }) hreported

/-- Whether a job fails makes no difference to anything else. -/
theorem smooth_step (hmanned : Manned place hand) (move : Move Item) :
    (place.step move).smooth = place.smooth.step move.smooth := by
  cases move with
  | enqueue item =>
    change (place.enqueue item).smooth = place.smooth.enqueue item
    rw [enqueue_eq, enqueue_eq, apply_ite smooth]
    exact if_congr Iff.rfl (smooth_record _ rfl) (smooth_record _ rfl)
  | close => rfl
  | cancel token => exact smooth_record _ rfl
  | dequeue token => exact smooth_call nofun
  | proceed index => exact smooth_proceed hmanned.lined index
  | leave index => exact smooth_leave index
  | finish index result =>
    refine smooth_release index fun job => ?_
    cases job <;> rfl
  | drop index => exact smooth_release index fun _ => rfl
  | start token => exact smooth_start token
  | work result => exact smooth_work hmanned.works result
  | beginWait token => exact smooth_beginWait token
  | endWait number => exact smooth_endWait number

end EventSourcing.Workplace
