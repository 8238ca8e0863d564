import EventSourcing.Proofs.Interleaving.Run
import EventSourcing.Proofs.Queue.Workplace
import Mathlib.Data.List.Basic

namespace EventSourcing

variable {Item : Type}

namespace Worker

theorem asking_eq : (asking : Process Item) =
    .ask .take fun
      | .ok item => running item
      | .error _ => .done false := by
  refine congrArg (Program.ask _) (funext fun outcome => ?_)
  cases outcome with
  | ok item => rfl
  | error error => rfl

theorem running_eq (item : Item) : running item =
    .ask (.work item) fun
      | .ok _ => .done true
      | .error text => .ask (.report (.workItemFailed text)) fun _ => .done true := by
  refine congrArg (Program.ask _) (funext fun result => ?_)
  cases result with
  | ok _ => rfl
  | error text => rfl

theorem asking_ne_running (item : Item) : asking ≠ running item := by
  rw [asking_eq, running_eq]
  nofun

end Worker

namespace Workplace

/-- What the worker is about to do, and the job that it has in hand. -/
inductive Works : Option (CancellationToken × Worker.Process (Job Item)) → Option (Job Item) → Prop
  | absent : Works none none
  | asking (token : CancellationToken) : Works (some (token, Worker.asking)) none
  | running (token : CancellationToken) (job : Job Item) :
      Works (some (token, Worker.running job)) (some job)

variable {place : Workplace Item}

/-- The failure of a job is reported. -/
def reportFailure : Except String Unit → Workplace Item → Workplace Item
  | .ok _, place => place
  | .error text, place => place.record (.reported (.workItemFailed text))

theorem line_reportFailure (result : Except String Unit) (place : Workplace Item) :
    (reportFailure result place).line = place.line := by
  cases result with
  | ok _ => rfl
  | error text => rfl

/-- What becomes of the worker when asking for a job has come to its end. -/
def receive (token : CancellationToken) : Except QueueError (Job Item) → Workplace Item →
    Workplace Item
  | .ok job, place => { place with worker := some (token, Worker.running job) }
  | .error _, place => { place with worker := none }.record .stopped

theorem deliver_worker {token : CancellationToken}
    (hworker : place.worker = some (token, Worker.asking))
    (outcome : Except QueueError (Job Item)) : place.deliver .worker token outcome =
      receive token outcome (place.record (.took .worker token outcome)) := by
  have hstill : (place.record (.took .worker token outcome)).worker =
      some (token, Worker.asking) := hworker
  rw [deliver, answer, hstill, Worker.asking_eq]
  cases outcome with
  | ok job => rfl
  | error error => rfl

theorem work_asking {token : CancellationToken}
    (hworker : place.worker = some (token, Worker.asking)) (result : Except String Unit) :
    place.work result =
      if place.line.any Asker.isWorker then place else place.call .worker token := by
  rw [work, hworker, Worker.asking_eq]

theorem work_running {token : CancellationToken} {job : Job Item}
    (hworker : place.worker = some (token, Worker.running job)) (result : Except String Unit) :
    place.work result = { reportFailure (job.result result)
      (place.record (.finished .worker job (job.result result))) with
        worker := some (token, Worker.asking) } := by
  rw [work, hworker, Worker.running_eq]
  dsimp only
  cases job.result result with
  | ok _ => rfl
  | error text => rfl

theorem work_absent (hworker : place.worker = none) (result : Except String Unit) :
    place.work result = place := by
  rw [work, hworker]

theorem proceed_none {index : Nat} (hasker : place.line[index]? = none) :
    place.proceed index = place := by
  unfold proceed
  rw [hasker]

theorem proceed_closer {index : Nat} (hasker : place.line[index]? = some .closer) :
    place.proceed index =
      if index = 0 then { place with
        queue := place.queue.close
        line := place.line.eraseIdx index }.record .closed
      else place := by
  unfold proceed
  rw [hasker]

theorem enqueue_eq (place : Workplace Item) (item : Item) : place.enqueue item =
    if place.queue.isClosed then place.record (.enqueued (.item item) (.error .closed))
    else { place with
        queue := { place.queue with items := place.queue.items ++ [Job.item item] } }.record
      (.enqueued (.item item) (.ok ())) := by
  unfold enqueue TaskQueue.enqueue
  by_cases hclosed : place.queue.isClosed = true
  · rw [if_pos hclosed, if_pos hclosed]
  · rw [if_neg hclosed, if_neg hclosed]

/-- A marker with the next number is refused. -/
def refuseMarker (place : Workplace Item) : Workplace Item :=
  { place with markers := place.markers + 1 }.record
    (.enqueued (.marker place.markers) (.error .closed))

/-- A marker with the next number stands behind the other jobs. -/
def putMarker (place : Workplace Item) : Workplace Item :=
  { place with
    queue := { place.queue with items := place.queue.items ++ [Job.marker place.markers] }
    markers := place.markers + 1 }.record (.enqueued (.marker place.markers) (.ok ()))

theorem beginWait_eq (place : Workplace Item) (token : CancellationToken) :
    place.beginWait token =
      if place.queue.isClosed then
        place.refuseMarker.record (.waited place.markers (.error .closed))
      else if place.cancellations.isCancelled token then
        place.putMarker.record (.waited place.markers (.error .cancelled))
      else { place.putMarker with waits := (place.markers, token) :: place.waits } := by
  unfold beginWait TaskQueue.beginWait TaskQueue.enqueue
  dsimp only
  by_cases hclosed : place.queue.isClosed = true
  · rw [if_pos hclosed, if_pos hclosed]
    rfl
  · rw [if_neg hclosed, if_neg hclosed]
    cases place.cancellations.isCancelled token with
    | true => rfl
    | false => rfl

section History

variable (history : History Item) (entry : Entry Item)

theorem filterMap_concat {α β : Type} (f : α → Option β) (items : List α) (item : α) :
    (items ++ [item]).filterMap f = items.filterMap f ++ (f item).toList := by
  rw [List.filterMap_append]
  cases h : f item <;> simp [h]

@[simp]
theorem accepted_concat :
    accepted (history ++ [entry]) = accepted history ++ entry.accepted?.toList :=
  filterMap_concat _ history entry

@[simp]
theorem handedOut_concat :
    handedOut (history ++ [entry]) = handedOut history ++ entry.handedOut?.toList :=
  filterMap_concat _ history entry

@[simp]
theorem completed_concat :
    completed (history ++ [entry]) = completed history ++ entry.completed?.toList :=
  filterMap_concat _ history entry

@[simp]
theorem markerNumbers_concat :
    markerNumbers (history ++ [entry]) = markerNumbers history ++ entry.marker?.toList :=
  filterMap_concat _ history entry

@[simp]
theorem isClosed_concat :
    isClosed (history ++ [entry]) = (isClosed history || entry.isClosing) := by
  simp [isClosed]

@[simp]
theorem isCancelled_concat (token : CancellationToken) :
    isCancelled (history ++ [entry]) token =
      (isCancelled history token || entry.isCancelling token) := by
  simp [isCancelled]

@[simp]
theorem isReached_concat (number : Nat) :
    isReached (history ++ [entry]) number =
      (isReached history number || entry.isReaching number) := by
  simp [isReached]

@[simp]
theorem isWorkersOnly_concat :
    isWorkersOnly (history ++ [entry]) = (isWorkersOnly history && !entry.isForeign) := by
  simp [isWorkersOnly]

end History

/-- If only the worker takes jobs, it has run all that were handed out but the one in its hand. -/
def Runs (place : Workplace Item) (hand : Option (Job Item)) : Prop :=
  isWorkersOnly place.history = true → place.held = [] ∧
    handedOut place.history = completed place.history ++ hand.toList ∧
    ∀ number, isReached place.history number = true → .marker number ∈ completed place.history

/-- The worker stands in the line at most once, and only while it asks for a job. -/
def Lined (place : Workplace Item) : Prop :=
  place.line.filter Asker.isWorker = [] ∨ ∃ token,
    place.line.filter Asker.isWorker = [.taker .worker token] ∧
      place.worker = some (token, Worker.asking)

/-- There is a worker with at most one job in its hand, and it has run the others that it took. -/
structure Manned (place : Workplace Item) (hand : Option (Job Item)) : Prop where
  works : Works place.worker hand
  lined : Lined place
  runs : Runs place hand

namespace Lined

theorem exists_eq_append {α : Type} {entries : List α} {index : Nat} {entry : α}
    (hentry : entries[index]? = some entry) :
    ∃ early late, entries = early ++ entry :: late ∧ entries.eraseIdx index = early ++ late := by
  obtain ⟨hindex, rfl⟩ := List.getElem?_eq_some_iff.1 hentry
  refine ⟨entries.take index, entries.drop (index + 1), ?_, List.eraseIdx_eq_take_drop_succ ..⟩
  rw [List.getElem_cons_drop, List.take_append_drop]

/-- A worker that leaves the line is one that asks for a job, and it stands nowhere else. -/
theorem worker_leaves (hlined : Lined place) {index : Nat} {token : CancellationToken}
    (hasker : place.line[index]? = some (.taker .worker token)) :
    place.worker = some (token, Worker.asking) ∧
      (place.line.eraseIdx index).filter Asker.isWorker = [] := by
  obtain ⟨early, late, hline, herased⟩ := exists_eq_append hasker
  have hfilter : place.line.filter Asker.isWorker = early.filter Asker.isWorker ++
      .taker .worker token :: late.filter Asker.isWorker := by
    rw [hline, List.filter_append]
    rfl
  obtain hnone | ⟨token, hone, hasking⟩ := hlined
  · simp [hnone] at hfilter
  · rw [hone] at hfilter
    obtain ⟨hearly, hlate⟩ | ⟨-, hlate⟩ := List.append_eq_singleton_iff.1 hfilter.symm
    · obtain ⟨hsame, hnone⟩ := List.cons.inj hlate
      cases hsame
      exact ⟨hasking, by rw [herased, List.filter_append, hearly, hnone, List.append_nil]⟩
    · cases hlate

theorem other_leaves {index : Nat} {asker : Asker} (hasker : place.line[index]? = some asker)
    (hother : asker.isWorker = false) :
    (place.line.eraseIdx index).filter Asker.isWorker = place.line.filter Asker.isWorker := by
  obtain ⟨early, late, hline, herased⟩ := exists_eq_append hasker
  rw [herased, hline, List.filter_append, List.filter_append, List.filter_cons, hother]
  rfl

/-- A worker that does not ask for a job is not in the line. -/
theorem filter_eq_nil (hlined : Lined place)
    (hworker : ∀ token, place.worker ≠ some (token, Worker.asking)) :
    place.line.filter Asker.isWorker = [] := by
  obtain hnone | ⟨token, -, hasking⟩ := hlined
  · exact hnone
  · exact absurd hasking (hworker token)

end Lined

/-- The jobs before a marker have all been run by the worker. -/
structure Awaited (history : History Item) (number : Nat) : Prop where
  mem : .enqueued (.marker number) (.ok ()) ∈ history
  ran : ∀ early late, history = early ++ .enqueued (.marker number) (.ok ()) :: late →
    accepted early <+: completed history

/-- What the history tells of the queue, of tokens and of those who wait. -/
structure Told (place : Workplace Item) : Prop where
  flow : accepted place.history = handedOut place.history ++ place.queue.items
  closed : place.queue.isClosed = isClosed place.history
  cancelled : ∀ token, place.cancellations.isCancelled token = isCancelled place.history token
  markers : markerNumbers place.history = List.range place.markers
  waits : ∀ wait ∈ place.waits, .enqueued (.marker wait.1) (.ok ()) ∈ place.history
  waiters : (place.waits.map Prod.fst).Nodup
  awaited : ∀ before number later, place.history = before ++ .waited number (.ok ()) :: later →
    isWorkersOnly before = true → Awaited before number

namespace Told

protected theorem empty : Told (.empty : Workplace Item) :=
  ⟨rfl, rfl, fun _ => rfl, rfl, nofun, .nil,
    fun _ _ _ hsplit => by simp [Workplace.empty] at hsplit⟩

/-- It is told what has changed since an entry was made. -/
theorem extend (htold : Told place) {later : Workplace Item} {entry : Entry Item}
    (hhistory : later.history = place.history ++ [entry])
    (hitems : place.queue.items ++ entry.accepted?.toList =
      entry.handedOut?.toList ++ later.queue.items)
    (hclosed : later.queue.isClosed = (place.queue.isClosed || entry.isClosing))
    (hcancelled : ∀ token, later.cancellations.isCancelled token =
      (place.cancellations.isCancelled token || entry.isCancelling token))
    (hmarkers : List.range later.markers = List.range place.markers ++ entry.marker?.toList)
    (hwaits : later.waits.Sublist place.waits)
    (hawaited : ∀ number, entry = .waited number (.ok ()) →
      isWorkersOnly place.history = true → Awaited place.history number) : Told later where
  flow := by
    rw [hhistory, accepted_concat, handedOut_concat, htold.flow, List.append_assoc, hitems,
      List.append_assoc]
  closed := by rw [hclosed, hhistory, isClosed_concat, htold.closed]
  cancelled token := by rw [hcancelled, hhistory, isCancelled_concat, htold.cancelled]
  markers := by rw [hmarkers, hhistory, markerNumbers_concat, htold.markers]
  waits wait hwait := by
    rw [hhistory]
    exact List.mem_append_left _ (htold.waits wait (hwaits.subset hwait))
  waiters := htold.waiters.sublist (hwaits.map Prod.fst)
  awaited before number rest hsplit hworkers := by
    rw [hhistory] at hsplit
    obtain ⟨rest, -, hbefore⟩ | ⟨-, hentry, rfl⟩ := Interleaving.concat_eq_append_cons hsplit
    · exact htold.awaited before number rest hbefore hworkers
    · exact hawaited number hentry.symm hworkers

/-- An entry that says nothing of these. -/
structure IsPlain (entry : Entry Item) : Prop where
  accepted? : entry.accepted? = none := by rfl
  handedOut? : entry.handedOut? = none := by rfl
  marker? : entry.marker? = none := by rfl
  isClosing : entry.isClosing = false := by rfl
  isCancelling : ∀ token, entry.isCancelling token = false := by intro _; rfl
  awaited : ∀ number, entry ≠ .waited number (.ok ()) := by nofun

theorem record (htold : Told place) {entry : Entry Item} (hplain : IsPlain entry) :
    Told (place.record entry) := by
  refine htold.extend rfl ?_ ?_ (fun token => ?_) ?_ (List.Sublist.refl _) fun number hentry =>
    absurd hentry (hplain.awaited number)
  · simp [Workplace.record, hplain.accepted?, hplain.handedOut?]
  · simp [Workplace.record, hplain.isClosing]
  · simp [Workplace.record, hplain.isCancelling]
  · simp [Workplace.record, hplain.marker?]

theorem withWorker (htold : Told place)
    (worker : Option (CancellationToken × Worker.Process (Job Item))) :
    Told { place with worker } :=
  { htold with }

theorem withHeld (htold : Told place) (held : List (Job Item)) : Told { place with held } :=
  { htold with }

theorem withLine (htold : Told place) (line : List Asker) : Told { place with line } :=
  { htold with }

/-- The front job is taken. -/
theorem tookJob (htold : Told place) {job : Job Item} {rest : List (Job Item)}
    (hitems : place.queue.items = job :: rest) (taker : Taker) (token : CancellationToken) :
    Told ({ place with queue := { place.queue with items := rest } }.record
      (.took taker token (.ok job))) := by
  refine htold.extend rfl ?_ (Bool.or_false _).symm (fun _ => (Bool.or_false _).symm)
    (List.append_nil _).symm (List.Sublist.refl _) nofun
  rw [hitems]
  exact List.append_nil _

/-- Who stands in the line gets what is due by the history. -/
theorem proceed_taker (htold : Told place) {index : Nat} {taker : Taker}
    {token : CancellationToken} (hasker : place.line[index]? = some (.taker taker token)) :
    (due place.history index token = none ∧ place.proceed index = place) ∨
    (∃ error, due place.history index token = some (.error error) ∧ place.proceed index =
      { place with line := place.line.eraseIdx index }.deliver taker token (.error error)) ∨
    ∃ job rest, due place.history index token = some (.ok job) ∧
      place.queue.items = job :: rest ∧ place.proceed index =
        { place with
          queue := { place.queue with items := rest }
          line := place.line.eraseIdx index }.deliver taker token (.ok job) := by
  have hwaiting : (accepted place.history).drop (handedOut place.history).length =
      place.queue.items := by
    rw [htold.flow, List.drop_left]
  unfold Workplace.proceed TaskQueue.dequeue due front
  rw [hasker, hwaiting, ← htold.cancelled, ← htold.closed]
  dsimp only
  cases place.cancellations.isCancelled token with
  | true =>
    rw [Bool.or_true]
    exact .inr (.inl ⟨.cancelled, rfl, rfl⟩)
  | false =>
    rw [Bool.or_false]
    by_cases hfirst : index = 0
    · rw [decide_eq_true hfirst, if_pos rfl, if_pos rfl]
      cases hitems : place.queue.items with
      | cons job rest => exact .inr (.inr ⟨job, rest, rfl, rfl, rfl⟩)
      | nil =>
        cases place.queue.isClosed with
        | true => exact .inr (.inl ⟨.closed, rfl, rfl⟩)
        | false => exact .inl ⟨rfl, rfl⟩
    · rw [decide_eq_false hfirst]
      exact .inl ⟨rfl, rfl⟩

/-- The queue is closed. -/
theorem closing (htold : Told place) :
    Told ({ place with queue := place.queue.close }.record .closed) :=
  htold.extend rfl (List.append_nil _) (Bool.or_true _).symm (fun _ => (Bool.or_false _).symm)
    (List.append_nil _).symm (List.Sublist.refl _) nofun

theorem receive (htold : Told place) (token : CancellationToken)
    (outcome : Except QueueError (Job Item)) : Told (receive token outcome place) := by
  cases outcome with
  | ok job => exact htold.withWorker _
  | error error => exact (htold.withWorker none).record {}

theorem deliver {taker : Taker} {token : CancellationToken}
    {outcome : Except QueueError (Job Item)}
    (hworker : taker = .worker → place.worker = some (token, Worker.asking))
    (htold : Told (place.record (.took taker token outcome))) :
    Told (place.deliver taker token outcome) := by
  cases taker with
  | worker =>
    rw [deliver_worker (hworker rfl)]
    exact htold.receive token outcome
  | other =>
    cases outcome with
    | ok job => exact htold.withHeld _
    | error error => exact htold

theorem call (htold : Told place) {taker : Taker} {token : CancellationToken}
    (hworker : taker = .worker → place.worker = some (token, Worker.asking)) :
    Told (place.call taker token) := by
  unfold Workplace.call
  split
  · exact Told.deliver hworker (htold.record {})
  · exact htold.withLine _

theorem proceed (htold : Told place) (hlined : Lined place) (index : Nat) :
    Told (place.proceed index) := by
  have hleft : Told { place with line := place.line.eraseIdx index } := htold.withLine _
  cases hasker : place.line[index]? with
  | none =>
    rw [proceed_none hasker]
    exact htold
  | some asker =>
    cases asker with
    | taker taker token =>
      have hworker : taker = .worker → place.worker = some (token, Worker.asking) := by
        rintro rfl
        exact (hlined.worker_leaves hasker).1
      obtain ⟨-, heq⟩ | ⟨error, -, heq⟩ | ⟨job, rest, -, hitems, heq⟩ :=
        htold.proceed_taker hasker
      · rwa [heq]
      · rw [heq]
        exact Told.deliver hworker (hleft.record {})
      · rw [heq]
        exact Told.deliver hworker (hleft.tookJob hitems taker token)
    | closer =>
      rw [proceed_closer hasker]
      split
      · exact hleft.closing
      · exact htold

theorem leave (htold : Told place) (index : Nat) : Told (place.leave index) := by
  unfold Workplace.leave
  split
  · exact htold
  · exact htold.withLine _

theorem enqueue (htold : Told place) (item : Item) : Told (place.enqueue item) := by
  rw [enqueue_eq]
  split
  · exact htold.record {}
  · exact htold.extend rfl rfl (Bool.or_false _).symm (fun _ => (Bool.or_false _).symm)
      (List.append_nil _).symm (List.Sublist.refl _) nofun

theorem refuseMarker (htold : Told place) : Told place.refuseMarker :=
  htold.extend rfl (List.append_nil _) (Bool.or_false _).symm (fun _ => (Bool.or_false _).symm)
    List.range_succ (List.Sublist.refl _) nofun

theorem putMarker (htold : Told place) : Told place.putMarker :=
  htold.extend rfl rfl (Bool.or_false _).symm (fun _ => (Bool.or_false _).symm)
    List.range_succ (List.Sublist.refl _) nofun

/-- No marker has had the next number. -/
theorem markers_notMem (htold : Told place) : place.markers ∉ markerNumbers place.history := by
  rw [htold.markers]
  exact fun hmem => Nat.lt_irrefl _ (List.mem_range.1 hmem)

/-- Nobody waits for the marker that comes next. -/
theorem markers_notMem_waiters (htold : Told place) : place.markers ∉ place.waits.map Prod.fst := by
  intro hmem
  obtain ⟨wait, hwait, hnumber⟩ := List.mem_map.1 hmem
  exact htold.markers_notMem
    (List.mem_filterMap.2 ⟨_, htold.waits wait hwait, congrArg some hnumber⟩)

theorem beginWait (htold : Told place) (token : CancellationToken) :
    Told (place.beginWait token) := by
  rw [beginWait_eq]
  split
  · exact htold.refuseMarker.record {}
  split
  · exact htold.putMarker.record {}
  · refine { htold.putMarker with
      waits := fun wait hwait => ?_
      waiters := List.nodup_cons.2 ⟨htold.markers_notMem_waiters, htold.waiters⟩ }
    obtain rfl | hwait := List.mem_cons.1 hwait
    · exact List.mem_append_right _ (List.mem_singleton_self _)
    · exact htold.putMarker.waits wait hwait

theorem cancel (htold : Told place) (token : CancellationToken) :
    Told (place.step (.cancel token)) := by
  refine htold.extend rfl (List.append_nil _) (Bool.or_false _).symm (fun other => ?_)
    (List.append_nil _).symm (List.Sublist.refl _) nofun
  have hsame : decide (other = token) = decide (token = other) := by simp [eq_comm]
  rw [step, Workplace.record, Cancellations.isCancelled_cancel, Bool.or_comm, hsame]
  rfl

theorem release (htold : Told place) (index : Nat) {entry : Job Item → Entry Item}
    (hplain : ∀ job, IsPlain (entry job)) : Told (place.release index entry) := by
  unfold Workplace.release
  split
  · exact htold
  · next job _ => exact (htold.withHeld _).record (hplain job)

theorem start (htold : Told place) (token : CancellationToken) :
    Told (place.start token) := by
  unfold Workplace.start
  split
  · exact htold
  · exact (htold.withWorker _).record {}

theorem reportFailure (htold : Told place) (result : Except String Unit) :
    Told (reportFailure result place) := by
  cases result with
  | ok _ => exact htold
  | error text => exact htold.record {}

theorem work (htold : Told place) {hand : Option (Job Item)} (hworks : Works place.worker hand)
    (result : Except String Unit) : Told (place.work result) := by
  generalize hworker : place.worker = worker at hworks
  cases hworks with
  | absent => rwa [work_absent hworker]
  | asking token =>
    rw [work_asking hworker]
    split
    · exact htold
    · exact htold.call fun _ => hworker
  | running token job =>
    rw [work_running hworker]
    exact ((htold.record {}).reportFailure _).withWorker _

/-- The numbers of markers differ, so that none is accepted twice. -/
theorem marker_notMem (htold : Told place) {early late : History Item} {number : Nat}
    (hsplit : place.history = early ++ .enqueued (.marker number) (.ok ()) :: late) :
    .marker number ∉ accepted early := by
  intro hmem
  obtain ⟨entry, hentry, hjob⟩ := List.mem_filterMap.1 hmem
  have hnumbers : markerNumbers place.history =
      markerNumbers early ++ number :: markerNumbers late := by
    rw [hsplit, markerNumbers, List.filterMap_append]
    rfl
  have hnodup : (markerNumbers early ++ number :: markerNumbers late).Nodup := by
    rw [← hnumbers, htold.markers]
    exact List.nodup_range
  have hearly : number ∈ markerNumbers early := by
    refine List.mem_filterMap.2 ⟨entry, hentry, ?_⟩
    unfold Entry.accepted? at hjob
    split at hjob
    · cases hjob
      rfl
    · cases hjob
  exact (List.nodup_append.1 hnodup).2.2 _ hearly _ List.mem_cons_self rfl

/-- Who waits for a marker that has been run waits for nothing before it. -/
theorem awaited_of_isReached (htold : Told place) {hand : Option (Job Item)}
    (hruns : Runs place hand) {wait : Nat × CancellationToken} (hwait : wait ∈ place.waits)
    (hreached : isReached place.history wait.1 = true)
    (hworkers : isWorkersOnly place.history = true) : Awaited place.history wait.1 := by
  obtain ⟨-, hhandedOut, hmarkers⟩ := hruns hworkers
  refine ⟨htold.waits wait hwait, fun early late hsplit => ?_⟩
  have haccepted : accepted place.history =
      accepted early ++ .marker wait.1 :: accepted late := by
    rw [hsplit, accepted, List.filterMap_append]
    rfl
  have hcompleted : completed place.history <+:
      accepted early ++ .marker wait.1 :: accepted late := by
    rw [← haccepted, htold.flow, hhandedOut, List.append_assoc]
    exact List.prefix_append _ _
  obtain hle | hle := List.prefix_or_prefix_of_prefix hcompleted (List.prefix_append _ _)
  · exact absurd (hle.subset (hmarkers _ hreached)) (htold.marker_notMem hsplit)
  · exact hle

theorem endWait (htold : Told place) {hand : Option (Job Item)} (hruns : Runs place hand)
    (number : Nat) : Told (place.endWait number) := by
  unfold Workplace.endWait
  split
  · exact htold
  · next wait hfind =>
    have hwait := List.mem_of_find?_eq_some hfind
    obtain rfl : wait.1 = number := by simpa using List.find?_some hfind
    dsimp only
    split
    · refine htold.extend rfl (List.append_nil _) (Bool.or_false _).symm
        (fun _ => (Bool.or_false _).symm) (List.append_nil _).symm
        List.filter_sublist fun number hentry hworkers => ?_
      obtain ⟨rfl, houtcome⟩ := Entry.waited.inj hentry
      unfold TaskQueue.endWait at houtcome
      split at houtcome
      · cases houtcome
      split at houtcome
      · next hreached => exact htold.awaited_of_isReached hruns hwait hreached hworkers
      · cases houtcome
    · exact htold

theorem step (htold : Told place) {hand : Option (Job Item)} (hmanned : Manned place hand)
    (move : Move Item) : Told (place.step move) := by
  cases move with
  | enqueue item => exact htold.enqueue item
  | close => exact htold.withLine _
  | cancel token => exact htold.cancel token
  | dequeue token => exact htold.call nofun
  | proceed index => exact htold.proceed hmanned.lined index
  | leave index => exact htold.leave index
  | finish index result => exact htold.release index fun _ => {}
  | drop index => exact htold.release index fun _ => {}
  | start token => exact htold.start token
  | work result => exact htold.work hmanned.works result
  | beginWait token => exact htold.beginWait token
  | endWait number => exact htold.endWait hmanned.runs number

end Told

end Workplace

end EventSourcing
