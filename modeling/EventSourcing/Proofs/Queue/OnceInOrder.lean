import EventSourcing.Proofs.Queue.Manning
import EventSourcing.Proofs.Queue.Smoothing
import Mathlib.Data.List.Induction
import Mathlib.Data.List.Nodup

namespace EventSourcing.Workplace

variable {Item : Type} {place : Workplace Item} {hand : Option (Job Item)}

theorem after_concat (moves : List (Move Item)) (move : Move Item) :
    after (moves ++ [move]) = (after moves).step move :=
  List.foldl_concat ..

theorem told_after (moves : List (Move Item)) :
    Told (after moves) ∧ ∃ hand, Manned (after moves) hand := by
  induction moves using List.reverseRecOn with
  | nil => exact ⟨.empty, none, .absent, .inl rfl, fun _ => ⟨rfl, rfl, nofun⟩⟩
  | append_singleton moves move ih =>
    obtain ⟨htold, hand, hmanned⟩ := ih
    rw [after_concat]
    exact ⟨htold.step hmanned move, hmanned.step htold move⟩

theorem after_smooth (moves : List (Move Item)) :
    after (moves.map Move.smooth) = (after moves).smooth := by
  induction moves using List.reverseRecOn with
  | nil => rfl
  | append_singleton moves move ih =>
    obtain ⟨-, hand, hmanned⟩ := told_after moves
    rw [List.map_append, List.map_singleton, after_concat, after_concat, ih, smooth_step hmanned]

/-- What is told of the failure of a job. -/
def failureReports : Except String Unit → History Item
  | .ok _ => []
  | .error text => [.reported (.workItemFailed text)]

theorem history_reportFailure (result : Except String Unit) (place : Workplace Item) :
    (reportFailure result place).history = place.history ++ failureReports result := by
  cases result with
  | ok _ => exact (List.append_nil _).symm
  | error text => rfl

/-- What someone makes of what came of asking for a job. -/
def Makes (taker : Taker) (token : CancellationToken) (outcome : Except QueueError (Job Item))
    (place later : Workplace Item) : Prop :=
  match taker, outcome with
  | .other, outcome =>
    later.history = place.history ++ [.took .other token outcome] ∧
      later.worker = place.worker ∧ later.held = place.held ++ outcome.toOption.toList
  | .worker, .ok job =>
    later.history = place.history ++ [.took .worker token (.ok job)] ∧
      later.worker = some (token, Worker.running job)
  | .worker, .error error =>
    later.history = place.history ++ [.took .worker token (.error error), .stopped] ∧
      later.worker = none

/-- What the history says that waiting for a marker comes to, once it can end. -/
def waitEnd (history : History Item) (number : Nat) (token : CancellationToken) :
    Option (Except QueueError Unit) :=
  if isCancelled history token then some (.error .cancelled)
  else if isReached history number then some (.ok ())
  else if isDropped history number then some (.error .closed)
  else none

/-- Whoever uses a workplace finds it in order. -/
structure Orderly (place : Workplace Item) : Prop where
  /-- The jobs that were taken, and then those that still wait, are those that were put in. -/
  flow : accepted place.history = handedOut place.history ++ place.queue.items
  /-- Only a closed queue refuses an item. -/
  enqueue : ∀ item, (place.step (.enqueue item)).history = place.history ++
    [.enqueued (.item item) (if isClosed place.history then .error .closed else .ok ())]
  /-- Asking for a job with a cancelled token fails at once, and otherwise takes a place in line. -/
  dequeue : ∀ token, if isCancelled place.history token then
      Makes .other token (.error .cancelled) place (place.step (.dequeue token)) ∧
        (place.step (.dequeue token)).line = place.line
    else place.step (.dequeue token) = { place with line := place.line ++ [.taker .other token] }
  /-- Asking to close the queue does no more than to take a place in line. -/
  close : place.step .close = { place with line := place.line ++ [.closer] }
  /-- Who stands in line for a job gets what is due by the history, and leaves. -/
  take : ∀ index taker token, place.line[index]? = some (.taker taker token) →
    match due place.history index token with
    | none => place.step (.proceed index) = place
    | some outcome => Makes taker token outcome place (place.step (.proceed index)) ∧
      (place.step (.proceed index)).line = place.line.eraseIdx index
  /-- Who stands in line to close the queue closes it once nobody stands before. -/
  closing : ∀ index, place.line[index]? = some .closer →
    if index = 0 then
      (place.step (.proceed index)).history = place.history ++ [.closed] ∧
        (place.step (.proceed index)).line = place.line.eraseIdx index
    else place.step (.proceed index) = place
  /-- Nothing is lost if someone leaves the line. The worker does not leave it. -/
  leave : ∀ index asker, place.line[index]? = some asker → place.step (.leave index) =
    if asker.isWorker then place else { place with line := place.line.eraseIdx index }
  /-- It is told which tokens have been cancelled, and nothing else comes of it at once. -/
  cancel : ∀ token, ∃ cancellations, place.step (.cancel token) =
    { place with cancellations, history := place.history ++ [.cancelled token] }
  /-- Who holds a job lets go of it when the job has been run to its end or is dropped. -/
  release : ∀ index job, place.held[index]? = some job →
    (∀ result, place.step (.finish index result) = { place with
      held := place.held.eraseIdx index
      history := place.history ++ [.finished .other job (job.result result)] }) ∧
    place.step (.drop index) = { place with
      held := place.held.eraseIdx index
      history := place.history ++ [.dropped job] }
  /-- A worker begins, unless there is one. -/
  start : ∀ token, match place.worker with
    | some _ => place.step (.start token) = place
    | none => (place.step (.start token)).history = place.history ++ [.started token] ∧
      (place.step (.start token)).worker = some (token, Worker.asking)
  /-- If there is a worker, it is about to ask for a job or to run one. -/
  worker : ∃ hand, Works place.worker hand
  /-- A worker asks for a job as anyone else does, and then waits in line. -/
  ask : ∀ token, place.worker = some (token, Worker.asking) → ∀ result,
    if place.line.any Asker.isWorker then place.step (.work result) = place
    else if isCancelled place.history token then
      Makes .worker token (.error .cancelled) place (place.step (.work result)) ∧
        (place.step (.work result)).line = place.line
    else place.step (.work result) = { place with line := place.line ++ [.taker .worker token] }
  /-- A worker that has run a job asks for the next one, whether the job has failed or not. -/
  run : ∀ token job, place.worker = some (token, Worker.running job) → ∀ result,
    (place.step (.work result)).history = place.history ++
      .finished .worker job (job.result result) :: failureReports (job.result result) ∧
    (place.step (.work result)).worker = some (token, Worker.asking)
  /-- Who is to wait puts a new marker behind the jobs. That fails if the queue is closed, and there
  is no waiting with a cancelled token. -/
  beginWait : ∀ token, ∃ number, number ∉ markerNumbers place.history ∧
    if isClosed place.history then
      (place.step (.beginWait token)).history = place.history ++
        [.enqueued (.marker number) (.error .closed), .waited number (.error .closed)]
    else if isCancelled place.history token then
      (place.step (.beginWait token)).history = place.history ++
        [.enqueued (.marker number) (.ok ()), .waited number (.error .cancelled)]
    else
      (place.step (.beginWait token)).history =
        place.history ++ [.enqueued (.marker number) (.ok ())] ∧
      (place.step (.beginWait token)).waits = (number, token) :: place.waits
  /-- Who waits goes on to wait until the history says what it comes to. -/
  endWait : ∀ number token, (number, token) ∈ place.waits →
    match waitEnd place.history number token with
    | none => place.step (.endWait number) = place
    | some outcome =>
      (place.step (.endWait number)).history = place.history ++ [.waited number outcome] ∧
      (place.step (.endWait number)).waits = place.waits.filter fun wait => wait.1 ≠ number
  /-- Waiting has ended well only when the worker had run all that was put in before the marker,
  provided that nobody else had taken a job. -/
  awaited : ∀ before number later, place.history = before ++ .waited number (.ok ()) :: later →
    isWorkersOnly before = true → Awaited before number

theorem makes_deliver {taker : Taker} {token : CancellationToken}
    {outcome : Except QueueError (Job Item)} {queue : TaskQueue (Job Item)} {line : List Asker}
    (hworker : taker = .worker → place.worker = some (token, Worker.asking)) :
    Makes taker token outcome place ({ place with queue, line }.deliver taker token outcome) ∧
      ({ place with queue, line }.deliver taker token outcome).line = line := by
  cases taker with
  | worker =>
    have hasking : ({ place with queue, line } : Workplace Item).worker =
        some (token, Worker.asking) := hworker rfl
    rw [deliver_worker hasking]
    cases outcome with
    | ok job => exact ⟨⟨rfl, rfl⟩, rfl⟩
    | error error => exact ⟨⟨List.append_assoc .., rfl⟩, rfl⟩
  | other =>
    cases outcome with
    | ok job => exact ⟨⟨rfl, rfl, rfl⟩, rfl⟩
    | error error => exact ⟨⟨rfl, rfl, (List.append_nil _).symm⟩, rfl⟩

/-- Whoever asks for a job fails at once or joins the line. -/
theorem call_eq (htold : Told place) {taker : Taker} {token : CancellationToken}
    (hworker : taker = .worker → place.worker = some (token, Worker.asking)) :
    if isCancelled place.history token then
      Makes taker token (.error .cancelled) place (place.call taker token) ∧
        (place.call taker token).line = place.line
    else place.call taker token = { place with line := place.line ++ [.taker taker token] } := by
  unfold call
  rw [htold.cancelled]
  split
  · exact makes_deliver hworker
  · rfl

/-- Who waits is found by the number of the marker. -/
theorem find?_waits (htold : Told place) {number : Nat} {token : CancellationToken}
    (hwait : (number, token) ∈ place.waits) :
    (place.waits.find? fun wait => wait.1 = number) = some (number, token) := by
  cases hfind : place.waits.find? fun wait => wait.1 = number with
  | none => simpa using List.find?_eq_none.1 hfind _ hwait
  | some found =>
    have hfound : found.1 = number := by simpa using List.find?_some hfind
    rw [List.inj_on_of_nodup_map htold.waiters (List.mem_of_find?_eq_some hfind) hwait hfound]

/-- Waiting goes on, or ends as the history says. -/
theorem endWait_eq (htold : Told place) {number : Nat} {token : CancellationToken}
    (hwait : (number, token) ∈ place.waits) : place.endWait number =
      match waitEnd place.history number token with
      | none => place
      | some outcome => { place with
          waits := place.waits.filter fun wait => wait.1 ≠ number }.record
            (.waited number outcome) := by
  unfold Workplace.endWait TaskQueue.endWait waitEnd
  rw [find?_waits htold hwait, ← htold.cancelled]
  dsimp only
  cases place.cancellations.isCancelled token <;> cases isReached place.history number <;>
    cases isDropped place.history number <;> rfl

theorem orderly_of_told (htold : Told place) (hmanned : Manned place hand) : Orderly place where
  flow := htold.flow
  enqueue item := by
    change (place.enqueue item).history = _
    rw [enqueue_eq, htold.closed]
    split
    · rfl
    · rfl
  dequeue token := call_eq htold nofun
  close := rfl
  take index taker token hasker := by
    change match due place.history index token with
      | none => place.proceed index = place
      | some outcome => Makes taker token outcome place (place.proceed index) ∧
        (place.proceed index).line = place.line.eraseIdx index
    have hworker : taker = .worker → place.worker = some (token, Worker.asking) := by
      rintro rfl
      exact (hmanned.lined.worker_leaves hasker).1
    obtain ⟨hdue, heq⟩ | ⟨error, hdue, heq⟩ | ⟨job, rest, hdue, -, heq⟩ :=
      htold.proceed_taker hasker
    · rw [hdue]
      exact heq
    · rw [hdue, heq]
      exact makes_deliver hworker
    · rw [hdue, heq]
      exact makes_deliver hworker
  closing index hasker := by
    change if index = 0 then (place.proceed index).history = place.history ++ [.closed] ∧
      (place.proceed index).line = place.line.eraseIdx index else place.proceed index = place
    rw [proceed_closer hasker]
    by_cases hfirst : index = 0
    · rw [if_pos hfirst, if_pos hfirst]
      exact ⟨rfl, rfl⟩
    · rw [if_neg hfirst, if_neg hfirst]
  leave index asker hasker := by
    change place.leave index = _
    rw [Workplace.leave, hasker, Option.any_some]
  cancel token := ⟨place.cancellations.cancel token, rfl⟩
  release index job hheld := by
    refine ⟨fun result => ?_, ?_⟩
    · change place.release index _ = _
      rw [Workplace.release, hheld]
      rfl
    · change place.release index _ = _
      rw [Workplace.release, hheld]
      rfl
  start token := by
    change match place.worker with
      | some _ => place.start token = place
      | none => (place.start token).history = place.history ++ [.started token] ∧
        (place.start token).worker = some (token, Worker.asking)
    unfold Workplace.start
    cases place.worker with
    | some worker => rfl
    | none => exact ⟨rfl, rfl⟩
  worker := ⟨hand, hmanned.works⟩
  ask token hworker result := by
    change if place.line.any Asker.isWorker then place.work result = place
      else if isCancelled place.history token then
        Makes .worker token (.error .cancelled) place (place.work result) ∧
          (place.work result).line = place.line
      else place.work result = { place with line := place.line ++ [.taker .worker token] }
    rw [work_asking hworker]
    split
    · rfl
    · exact call_eq htold fun _ => hworker
  run token job hworker result := by
    change (place.work result).history = _ ∧ (place.work result).worker = _
    rw [work_running hworker]
    refine ⟨?_, rfl⟩
    rw [history_reportFailure]
    exact List.append_assoc ..
  beginWait token := by
    refine ⟨place.markers, htold.markers_notMem, ?_⟩
    change if isClosed place.history then (place.beginWait token).history = _
      else if isCancelled place.history token then (place.beginWait token).history = _
      else (place.beginWait token).history = _ ∧ (place.beginWait token).waits = _
    rw [beginWait_eq, htold.closed, htold.cancelled]
    split
    · exact List.append_assoc ..
    split
    · exact List.append_assoc ..
    · exact ⟨rfl, rfl⟩
  endWait number token hwait := by
    change match waitEnd place.history number token with
      | none => place.endWait number = place
      | some outcome => (place.endWait number).history = _ ∧ (place.endWait number).waits = _
    rw [endWait_eq htold hwait]
    split
    · rfl
    · exact ⟨rfl, rfl⟩
  awaited := htold.awaited

/-- Whatever moves are made at a new workplace, it is in order. Whether items fail makes no
difference, but that it is told. The queue counts as closed once someone is told so: until then they
may wait in line behind a worker that is idle, and items are still accepted. -/
theorem orderly_after (moves : List (Move Item)) :
    Orderly (after moves) ∧ after (moves.map Move.smooth) = (after moves).smooth := by
  obtain ⟨htold, hand, hmanned⟩ := told_after moves
  exact ⟨orderly_of_told htold hmanned, after_smooth moves⟩

/-- A worker waits, and someone who asks to close the queue waits behind it. So an item is accepted
that fails later on, and another one while the first one runs. -/
def overtaking : List (Move Nat) :=
  [.start ⟨1⟩, .work (.ok ()), .close, .proceed 1, .enqueue 5, .proceed 0, .enqueue 6,
    .beginWait ⟨0⟩, .work (.error "lost"), .work (.ok ())]

/-- The queue is closed, and the worker goes on to its end. -/
def ending : List (Move Nat) :=
  [.proceed 0, .enqueue 7, .proceed 0, .work (.ok ()), .work (.ok ()), .proceed 0, .work (.ok ()),
    .endWait 0, .work (.ok ()), .proceed 0]

theorem orderly_after_ending :
    (Orderly (after overtaking) ∧ isClosed (after overtaking).history = false ∧
      (after overtaking).line = [.closer, .taker .worker ⟨1⟩]) ∧
    Orderly (after (overtaking ++ ending)) ∧
      accepted (after (overtaking ++ ending)).history = [.item 5, .item 6, .marker 0] ∧
      completed (after (overtaking ++ ending)).history = [.item 5, .item 6, .marker 0] ∧
      (after ((overtaking ++ ending).map Move.smooth)).history = [.started ⟨1⟩,
        .enqueued (.item 5) (.ok ()), .took .worker ⟨1⟩ (.ok (.item 5)),
        .enqueued (.item 6) (.ok ()), .enqueued (.marker 0) (.ok ()),
        .finished .worker (.item 5) (.ok ()), .closed, .enqueued (.item 7) (.error .closed),
        .took .worker ⟨1⟩ (.ok (.item 6)), .finished .worker (.item 6) (.ok ()),
        .took .worker ⟨1⟩ (.ok (.marker 0)), .finished .worker (.marker 0) (.ok ()),
        .waited 0 (.ok ()), .took .worker ⟨1⟩ (.error .closed), .stopped] := by
  obtain ⟨horderly, hsmooth⟩ := orderly_after (overtaking ++ ending)
  exact ⟨⟨(orderly_after overtaking).1, rfl, rfl⟩, horderly, rfl, rfl, by rw [hsmooth]; rfl⟩

end EventSourcing.Workplace
