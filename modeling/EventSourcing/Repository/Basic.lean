import EventSourcing.LogRecord
import EventSourcing.Program
import EventSourcing.Repository.Checkpoint
import EventSourcing.Repository.Error
import EventSourcing.Repository.EventLog
import EventSourcing.Repository.IdIndex
import EventSourcing.Repository.Window
import EventSourcing.SnapshotMap

namespace EventSourcing

/-- The streams of all aggregates and what is known about their delivery. -/
structure Repository (E : Type) where
  logs : SnapshotMap AggregateKey (EventLog E)
  windows : SnapshotMap AggregateKey Window
  indexes : SnapshotMap AggregateType IdIndex

namespace Repository

variable {E α β : Type}

protected def empty : Repository E :=
  ⟨.empty, .empty, .empty⟩

/-- One indivisible step of an operation. -/
inductive Request (E : Type) where
  | logs (request : SnapshotMap.Request AggregateKey (EventLog E))
  | windows (request : SnapshotMap.Request AggregateKey Window)
  | indexes (request : SnapshotMap.Request AggregateType IdIndex)
  | reached (checkpoint : Checkpoint) (key : AggregateKey)
  | report (record : LogRecord)

abbrev Request.Reply : Request E → Type
  | .logs request => request.Reply
  | .windows request => request.Reply
  | .indexes request => request.Reply
  | .reached _ _ => Unit
  | .report _ => Unit

/-- What a step does to the state. Checkpoints and reports leave it as it is. -/
def answer (repository : Repository E) : (request : Request E) → request.Reply × Repository E
  | .logs request =>
    let (reply, logs) := repository.logs.answer request
    (reply, { repository with logs })
  | .windows request =>
    let (reply, windows) := repository.windows.answer request
    (reply, { repository with windows })
  | .indexes request =>
    let (reply, indexes) := repository.indexes.answer request
    (reply, { repository with indexes })
  | .reached _ _ => ((), repository)
  | .report _ => ((), repository)

section Answers

variable {repository : Repository E} {key : AggregateKey}

theorem answer_readLog {seen : Snapshot (EventLog E)} (h : repository.logs.get? key = some seen) :
    repository.answer (.logs (.getOrInsert key .empty)) = ((seen, false), repository) := by
  simp [answer, SnapshotMap.answer, SnapshotMap.getOrInsert_of_get? h]

theorem answer_createLog (h : repository.logs.get? key = none) :
    repository.answer (.logs (.getOrInsert key .empty)) =
      ((⟨repository.logs.nextStamp, .empty⟩, true),
        { repository with logs := (repository.logs.getOrInsert key .empty).2 }) :=
  congrArg (·, _) (SnapshotMap.getOrInsert_of_absent h .empty).1

theorem answer_meetWindow {current : Snapshot Window}
    (h : repository.windows.get? key = some current) (window : Window) :
    repository.answer (.windows (.getOrInsert key window)) = ((current, false), repository) := by
  simp [answer, SnapshotMap.answer, SnapshotMap.getOrInsert_of_get? h]

theorem answer_openWindow (h : repository.windows.get? key = none) (window : Window) :
    repository.answer (.windows (.getOrInsert key window)) =
      ((⟨repository.windows.nextStamp, window⟩, true),
        { repository with windows := (repository.windows.getOrInsert key window).2 }) :=
  congrArg (·, _) (SnapshotMap.getOrInsert_of_absent h window).1

theorem answer_getLog :
    repository.answer (.logs (.get key)) = (repository.logs.get? key, repository) :=
  rfl

theorem answer_getWindow :
    repository.answer (.windows (.get key)) = (repository.windows.get? key, repository) :=
  rfl

theorem answer_listWindows :
    repository.answer (.windows .entries) = (repository.windows.entries, repository) :=
  rfl

theorem answer_report (record : LogRecord) :
    repository.answer (.report record) = ((), repository) :=
  rfl

theorem answer_swapLog {seen : Snapshot (EventLog E)}
    (h : repository.logs.isCurrent key seen = true) (new : EventLog E) :
    repository.answer (.logs (.compareAndSwap key seen new)) =
      (true, { repository with logs := (repository.logs.compareAndSwap key seen new).2 }) :=
  congrArg (·, _) ((SnapshotMap.compareAndSwap_fst _ _ _ _).trans h)

theorem answer_swapLog_of_not {seen : Snapshot (EventLog E)}
    (h : repository.logs.isCurrent key seen = false) (new : EventLog E) :
    repository.answer (.logs (.compareAndSwap key seen new)) = (false, repository) := by
  simp [answer, SnapshotMap.answer, SnapshotMap.compareAndSwap_of_not_isCurrent h]

theorem answer_swapWindow {current : Snapshot Window}
    (h : repository.windows.isCurrent key current = true) (new : Window) :
    repository.answer (.windows (.compareAndSwap key current new)) =
      (true,
        { repository with windows := (repository.windows.compareAndSwap key current new).2 }) :=
  congrArg (·, _) ((SnapshotMap.compareAndSwap_fst _ _ _ _).trans h)

theorem answer_swapWindow_of_not {current : Snapshot Window}
    (h : repository.windows.isCurrent key current = false) (new : Window) :
    repository.answer (.windows (.compareAndSwap key current new)) = (false, repository) := by
  simp [answer, SnapshotMap.answer, SnapshotMap.compareAndSwap_of_not_isCurrent h]

theorem answer_removeWindow {current : Snapshot Window}
    (h : repository.windows.isCurrent key current = true) :
    repository.answer (.windows (.compareAndRemove key current)) =
      (true, { repository with windows := (repository.windows.compareAndRemove key current).2 }) :=
  congrArg (·, _) ((SnapshotMap.compareAndRemove_fst _ _ _).trans h)

theorem answer_removeWindow_of_not {current : Snapshot Window}
    (h : repository.windows.isCurrent key current = false) :
    repository.answer (.windows (.compareAndRemove key current)) = (false, repository) := by
  simp [answer, SnapshotMap.answer, SnapshotMap.compareAndRemove_of_not_isCurrent h]

theorem answer_swapIndex {type : AggregateType} {current : Snapshot IdIndex}
    (h : repository.indexes.isCurrent type current = true) (new : IdIndex) :
    repository.answer (.indexes (.compareAndSwap type current new)) =
      (true,
        { repository with indexes := (repository.indexes.compareAndSwap type current new).2 }) :=
  congrArg (·, _) ((SnapshotMap.compareAndSwap_fst _ _ _ _).trans h)

end Answers

abbrev Operation (E α : Type) :=
  Program (Request E) Request.Reply α

abbrev Result (α : Type) :=
  Except RepositoryError α

def step (request : Request E) : Operation E request.Reply :=
  Program.request request

def reached (checkpoint : Checkpoint) (key : AggregateKey) : Operation E Unit :=
  step (.reached checkpoint key)

/-- Runs an operation with nothing else in between. -/
def runAlone (operation : Operation E α) (repository : Repository E) : α × Repository E :=
  (operation.run (m := StateM (Repository E)) fun request repository =>
    repository.answer request).run repository

theorem runAlone_done (value : α) (repository : Repository E) :
    runAlone (.done value) repository = (value, repository) :=
  rfl

theorem runAlone_step (request : Request E) (next : request.Reply → Operation E α)
    (repository : Repository E) : runAlone (step request >>= next) repository =
      runAlone (next (repository.answer request).1) (repository.answer request).2 :=
  rfl

theorem runAlone_reached (checkpoint : Checkpoint) (key : AggregateKey)
    (next : Unit → Operation E α) (repository : Repository E) :
    runAlone (reached checkpoint key >>= next) repository = runAlone (next ()) repository :=
  rfl

theorem runAlone_bind (first : Operation E α) (second : α → Operation E β)
    (repository : Repository E) : runAlone (first >>= second) repository =
      runAlone (second (runAlone first repository).1) (runAlone first repository).2 := by
  rw [runAlone, Program.run_bind]
  rfl

end Repository

end EventSourcing
