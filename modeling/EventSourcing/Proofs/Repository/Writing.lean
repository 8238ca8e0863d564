import EventSourcing.Proofs.Ensures
import EventSourcing.Proofs.Repository.Sequential

namespace EventSourcing.Repository

variable {E α β : Type}

/-- How many logs a request may fill or put into the place of others. -/
def Request.writes : Request E → Nat
  | .logs (.get _) | .logs .entries | .logs (.getOrInsert _ ⟨[]⟩) => 0
  | .logs _ => 1
  | .windows _ | .indexes _ | .reached _ _ | .report _ => 0

theorem events_answer {request : Request E} (h : request.writes = 0) (repository : Repository E) :
    (repository.answer request).2.view.events = repository.view.events := by
  cases request with
  | windows request => rfl
  | indexes request => rfl
  | reached checkpoint key => rfl
  | report record => rfl
  | logs request =>
    cases request with
    | get key => rfl
    | entries => rfl
    | compareAndSwap key seen new => cases h
    | compareAndRemove key seen => cases h
    | getOrInsert key fallback =>
      obtain ⟨_ | _⟩ := fallback
      · obtain ⟨seen, inserted, after, hanswer, -, hview⟩ := answer_findLog repository key
        have hafter : (repository.answer (.logs (.getOrInsert key ⟨[]⟩))).2 = after :=
          congrArg Prod.snd hanswer
        rw [hafter, hview]
      · cases h

/-- A program writes logs so many times at most. -/
def WritesAtMost : Nat → Operation E α → Prop
  | _, .done _ => True
  | count, .ask request next =>
    request.writes ≤ count ∧ ∀ reply, WritesAtMost (count - request.writes) (next reply)

namespace WritesAtMost

variable {count later : Nat} {program : Operation E α}

theorem le (hprogram : WritesAtMost count program) (hle : count ≤ later) :
    WritesAtMost later program := by
  induction program generalizing count later with
  | done value => trivial
  | ask request next ih =>
    exact ⟨Nat.le_trans hprogram.1 hle,
      fun reply => ih reply (hprogram.2 reply) (Nat.sub_le_sub_right hle _)⟩

theorem bind {next : α → Operation E β} (hprogram : WritesAtMost count program) (later : Nat)
    (hnext : ∀ value, WritesAtMost later (next value)) :
    WritesAtMost (count + later) (program >>= next) := by
  induction program generalizing count with
  | done value => exact (hnext value).le (Nat.le_add_left _ _)
  | ask request rest ih =>
    refine ⟨Nat.le_add_right_of_le hprogram.1, fun reply => ?_⟩
    rw [Nat.sub_add_comm hprogram.1]
    exact ih reply (hprogram.2 reply)

/-- A request that writes nothing does not count. -/
theorem of_step {request : Request E} (h : request.writes = 0)
    {next : request.Reply → Operation E β} (hnext : ∀ reply, WritesAtMost count (next reply)) :
    WritesAtMost count (step request >>= next) := by
  refine ⟨h ▸ Nat.zero_le _, fun reply => ?_⟩
  rw [h]
  exact hnext reply

end WritesAtMost

section Calls

open WritesAtMost

variable (config : RepositoryConfig) (key : AggregateKey)

theorem writesAtMost_widenWindow (tail first last : SequenceId) (passes : Nat)
    (checkpoint : Checkpoint) :
    WritesAtMost 0 (widenWindow (E := E) key tail first last passes checkpoint) := by
  induction passes generalizing checkpoint with
  | zero => trivial
  | succ passes ih =>
    refine of_step rfl fun _ => of_step rfl fun current => ?_
    dsimp only
    split
    · trivial
    split
    · exact of_step rfl fun _ => trivial
    split
    · trivial
    · refine of_step rfl fun swapped => ?_
      split
      · trivial
      · exact ih _

theorem writesAtMost_markUndelivered (tail first last : SequenceId) :
    WritesAtMost 0 (markUndelivered (E := E) config key tail first last) := by
  unfold markUndelivered
  split
  · trivial
  · exact writesAtMost_widenWindow key _ _ _ _ _

theorem writesAtMost_addToIndex (passes : Nat) :
    WritesAtMost 0 (addToIndex (E := E) key passes) := by
  induction passes with
  | zero => trivial
  | succ passes ih =>
    refine of_step rfl fun current => ?_
    dsimp only
    split
    · trivial
    · refine of_step rfl fun swapped => ?_
      split
      · trivial
      · exact ih

/-- The one step is that in which the batch becomes the end of the log. -/
theorem writesAtMost_commit (seen : Snapshot (EventLog E)) (first last : SequenceId)
    (batch : List (RecordedEvent E)) :
    WritesAtMost 1 (commit config key seen first last batch) := by
  unfold commit
  split
  · trivial
  · refine (writesAtMost_markUndelivered config key _ first last).bind 1 fun marked => ?_
    cases marked with
    | error error => trivial
    | ok _ => exact of_step rfl fun _ => ⟨Nat.le_refl 1, fun _ => trivial⟩

theorem writesAtMost_conclude (isNew committed : Bool) :
    WritesAtMost 0 (conclude (E := E) config key isNew committed) := by
  unfold conclude
  split
  · refine of_step rfl fun _ => ?_
    split
    · exact writesAtMost_addToIndex key _
    · trivial
  · exact of_step rfl fun _ => trivial

theorem writesAtMost_append (batch : List (RecordedEvent E)) :
    WritesAtMost 1 (append config key batch) := by
  unfold append
  split
  · trivial
  split
  · trivial
  · refine of_step rfl fun seen => ?_
    dsimp only
    split
    · trivial
    · refine of_step rfl fun _ => ?_
      refine (writesAtMost_commit config key _ _ _ _).bind 0 fun committed => ?_
      cases committed with
      | error error => trivial
      | ok committed => exact writesAtMost_conclude config key _ committed

theorem writesAtMost_advanceWatermark (tail delivered : SequenceId) :
    WritesAtMost 0 (advanceWatermark (E := E) key tail delivered) := by
  refine of_step rfl fun current => ?_
  cases current with
  | none => trivial
  | some current =>
    dsimp only
    split
    · trivial
    · refine WritesAtMost.bind (?_ : WritesAtMost 0 _) 0 fun _ => ?_
      · unfold reportClamping
        split
        · exact of_step rfl fun _ => of_step rfl fun _ => trivial
        · trivial
      · unfold settleWindow
        split
        · trivial
        split
        · exact of_step rfl fun _ => trivial
        split
        · exact of_step rfl fun _ => trivial
        · trivial

theorem writesAtMost_markDelivered (delivered : SequenceId) :
    WritesAtMost 0 (markDelivered (E := E) config key delivered) := by
  unfold markDelivered
  split
  · trivial
  generalize Checkpoint.markDeliveredStarted = checkpoint
  induction config.liveLockLimit.value generalizing checkpoint with
  | zero => trivial
  | succ passes ih =>
    refine of_step rfl fun _ => of_step rfl fun log => ?_
    dsimp only
    split
    · trivial
    · refine (writesAtMost_advanceWatermark key _ delivered).bind 0 fun advanced => ?_
      rcases advanced with error | _ | _
      · trivial
      · exact ih _
      · exact of_step rfl fun _ => trivial

end Calls

theorem alone_eq_runAlone (operation : Operation E α) (repository : Repository E) :
    operation.alone answer repository = runAlone operation repository := by
  induction operation generalizing repository with
  | done value => rfl
  | ask request next ih => exact ih _ _

variable {operation : Operation E α} {repository : Repository E}

theorem WritesAtMost.throughout_same (hwrites : WritesAtMost 0 operation)
    (repository : Repository E) :
    operation.Throughout answer (fun moment => moment.view.events = repository.view.events)
      repository := by
  induction operation generalizing repository with
  | done value => exact rfl
  | ask request next ih =>
    have hanswer := events_answer (Nat.eq_zero_of_le_zero hwrites.1) repository
    have hnext := hwrites.2 (repository.answer request).1
    rw [Nat.zero_sub] at hnext
    refine ⟨rfl, (ih _ hnext _).mono fun moment hmoment => ?_⟩
    exact hmoment.trans hanswer

/-- A program that writes once at most shows the events of before it writes, and then those that it
leaves behind. -/
theorem WritesAtMost.throughout (hwrites : WritesAtMost 1 operation) :
    operation.Throughout answer (fun moment => moment.view.events = repository.view.events ∨
      moment.view.events = (operation.alone answer repository).2.view.events) repository := by
  induction operation generalizing repository with
  | done value => exact .inl rfl
  | ask request next ih =>
    refine ⟨.inl rfl, ?_⟩
    have hnext := hwrites.2 (repository.answer request).1
    by_cases hwrite : request.writes = 0
    · rw [hwrite] at hnext
      refine (ih _ hnext).mono fun moment hmoment => ?_
      rwa [events_answer hwrite] at hmoment
    · have hlast : 1 - request.writes = 0 :=
        Nat.sub_eq_zero_of_le (Nat.one_le_iff_ne_zero.2 hwrite)
      rw [hlast] at hnext
      have hsame := hnext.throughout_same (repository.answer request).2
      exact hsame.mono fun moment hmoment => .inr (hmoment.trans hsame.alone.symm)

/-- A program that only reads leaves a repository as it is all along. -/
theorem OnlyReads.throughout (hreads : OnlyReads operation) :
    operation.Throughout answer (· = repository) repository := by
  induction operation with
  | done value => exact rfl
  | ask request next ih =>
    have hanswer := hreads.1.2 repository
    refine ⟨rfl, ?_⟩
    rw [hanswer]
    exact ih _ (hreads.2 _)

variable {ledger : Ledger E}

/-- With nothing else in between, a call answers as the ledger does, leaves the repository standing
for what becomes of it, and every moment of it shows the events of before or those of after it. -/
theorem Mirrors.ensures_call (config : RepositoryConfig) (hmirrors : Mirrors repository.view ledger)
    (call : Call E) :
    (call.program config).Ensures
      (.answering answer fun moment => (∀ key, moment.view.events key = (ledger key).events) ∨
        ∀ key, moment.view.events key = (ledger.apply call key).events)
      (fun outcome later => ledger.Answers call outcome ∧
        Mirrors later.view (ledger.apply call)) repository := by
  have hcall := hmirrors.call config call
  rw [← alone_eq_runAlone] at hcall
  refine Program.Throughout.ensures ?_ hcall
  have hbefore : repository.view.events = fun key => (ledger key).events := funext hmirrors.events
  have hafter : ((call.program config).alone answer repository).2.view.events =
      fun key => (ledger.apply call key).events := funext hcall.2.events
  suffices h : (call.program config).Throughout answer (fun moment =>
      moment.view.events = repository.view.events ∨ moment.view.events =
        ((call.program config).alone answer repository).2.view.events) repository by
    refine h.mono fun moment hmoment => ?_
    rw [hbefore, hafter] at hmoment
    exact hmoment.imp congrFun congrFun
  cases call with
  | append key batch => exact (writesAtMost_append config key batch).throughout
  | markDelivered key delivered =>
    exact ((writesAtMost_markDelivered config key delivered).throughout_same _).mono fun _ => .inl
  | listEvents key after max =>
    exact (onlyReads_listEvents key after max).throughout.mono fun _ h => .inl (h ▸ rfl)
  | listUndelivered max =>
    exact (onlyReads_listUndelivered max).throughout.mono fun _ h => .inl (h ▸ rfl)
  | listIds type after max =>
    exact (onlyReads_listIds type after max).throughout.mono fun _ h => .inl (h ▸ rfl)

end EventSourcing.Repository
