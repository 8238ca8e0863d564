import EventSourcing.Proofs.Interleaving.Warrant
import EventSourcing.Proofs.Repository.Laws
import EventSourcing.Repository.Error

namespace EventSourcing.Repository

open Interleaving

variable {E : Type}

/-- What a call of a repository does at one moment of a run. -/
abbrev Call.Action (call : Call E) : Type :=
  Interleaving.Action (Request.Reply (E := E)) (Call.Outcome (E := E)) call

namespace Entry

/-- An append to `key` has made sure that the window covers its batch, and says so. -/
def announcement? (key : AggregateKey) : Entry E → Option (Nat × List (RecordedEvent E))
  | ⟨id, .append owner batch, .answered (.reached .appendMarkedUndelivered _) _⟩ =>
    if owner = key then some (id, batch) else none
  | _ => none

/-- The window that a delivery tries to replace or to remove, and whether it is still there. -/
def settling? : Entry E → Option (Snapshot Window × Bool)
  | ⟨_, .markDelivered _ _, .answered (.windows (.compareAndSwap _ current _)) isCurrent⟩
  | ⟨_, .markDelivered _ _, .answered (.windows (.compareAndRemove _ current)) isCurrent⟩ =>
    some (current, isCurrent)
  | _ => none

/-- Whether a delivery begins a pass. -/
def beginsPass : Entry E → Bool
  | ⟨_, .markDelivered _ _, .answered (.reached .markDeliveredStarted _) _⟩
  | ⟨_, .markDelivered _ _, .answered (.reached .markDeliveredConflicted _) _⟩ => true
  | _ => false

/-- The error that a call returns. -/
def fault? : Entry E → Option RepositoryError
  | ⟨_, .append _ _, .returned (.error error)⟩
  | ⟨_, .markDelivered _ _, .returned (.error error)⟩
  | ⟨_, .listEvents _ _ _, .returned (.error error)⟩
  | ⟨_, .listUndelivered _, .returned (.error error)⟩
  | ⟨_, .listIds _ _ _, .returned (.error error)⟩ => some error
  | _ => none

theorem of_opened?_eq_some {key : AggregateKey} {entry : Entry E} {first : SequenceId}
    (h : entry.opened? key = some first) : entry.stage = 1 := by
  unfold opened? at h
  split at h
  · rfl
  · cases h

end Entry

namespace History

/-- The world that a history leads to, if it begins with the empty repository. -/
def world (history : History E) : World E :=
  (calls .standard).worldAfter .empty history

/-- What one call has done. -/
def own (history : History E) (id : Nat) : History E :=
  history.filter (·.id = id)

/-- The appends to `key` that have said that the window covers their batch. -/
def announcements (history : History E) (key : AggregateKey) :
    List (Nat × List (RecordedEvent E)) :=
  history.filterMap (Entry.announcement? key)

/-- An append to `key` has announced its batch if it has opened a window. -/
def Candid (history : History E) (key : AggregateKey) (id : Nat)
    (batch : List (RecordedEvent E)) : Prop :=
  (∀ entry ∈ own history id, entry.opened? key = none) ∨ (id, batch) ∈ announcements history key

/-- A delivery has not taken effect on a window so far. -/
def Unsettled (history : History E) (id : Nat) : Prop :=
  ∀ entry ∈ own history id, ∀ current, entry.settling? ≠ some (current, true)

/-- How many passes a delivery has begun. -/
def passes (history : History E) (id : Nat) : Nat :=
  (own history id).countP Entry.beginsPass

/-- Delivery number `id` has made some passes in vain. In each of them it has read the window of
`key` and then tried to settle it, but by then this window was no longer there. -/
inductive LostPasses (id : Nat) (key : AggregateKey) (delivered : SequenceId) :
    Nat → History E → Prop where
  | none (history : History E) : LostPasses id key delivered 0 history
  | more {passes : Nat} {earlier reading trying history : History E} {first attempt : Entry E}
      {current : Snapshot Window} (lost : LostPasses id key delivered passes earlier)
      (first_id : first.id = id) (begins : first.beginsPass = true)
      (begun : earlier ++ [first] <+: reading)
      (found : reading.world.state.windows.get? key = some current)
      (read : reading ++ [⟨id, .markDelivered key delivered,
        .answered (.windows (.get key)) (some current)⟩] <+: trying)
      (gone : trying.world.state.windows.get? key ≠ some current)
      (attempt_id : attempt.id = id) (attempted : attempt.settling? = some (current, false))
      (tried : trying ++ [attempt] <+: history) : LostPasses id key delivered (passes + 1) history

variable {history : History E} {id : Nat} {entry : Entry E}

theorem own_concat (hid : entry.id = id) :
    own (history ++ [entry]) id = own history id ++ [entry] := by
  simp [own, hid]

theorem own_append_of_ne {entries : History E} (hne : ∀ entry ∈ entries, entry.id ≠ id) :
    own (history ++ entries) id = own history id := by
  have hnil : entries.filter (fun entry => decide (entry.id = id)) = [] := by
    simpa using hne
  rw [own, List.filter_append, hnil, List.append_nil]
  rfl

theorem mem_own : entry ∈ own history id ↔ entry ∈ history ∧ entry.id = id := by
  simp [own]

theorem exists_of_mem_commits {key : AggregateKey} {batch : List (RecordedEvent E)}
    (h : (id, batch) ∈ commits history key) :
    ∃ before after owner seen new, history = before ++ ⟨id, .append key batch,
      .answered (.logs (.compareAndSwap owner seen new)) true⟩ :: after := by
  obtain ⟨entry, hentry, hcommit⟩ := List.mem_filterMap.1 h
  obtain ⟨before, after, rfl⟩ := List.append_of_mem hentry
  obtain ⟨owner, seen, new, rfl⟩ := Entry.exists_of_commit?_eq_some hcommit
  exact ⟨before, after, owner, seen, new, rfl⟩

theorem LostPasses.mono {key : AggregateKey} {delivered : SequenceId} {passes : Nat}
    {later : History E} (hlost : LostPasses id key delivered passes history)
    (hextends : history <+: later) : LostPasses id key delivered passes later := by
  cases hlost with
  | none => exact .none later
  | more lost hid hbegins hbegun hfound hread hgone hid' hattempted htried =>
    exact .more lost hid hbegins hbegun hfound hread hgone hid' hattempted (htried.trans hextends)

end History

/-- What append number `id` does. It opens no window but one behind the log that it has read, before
it has tried to commit; it replaces a window only by the same one, widened; it commits only to the
log that it has read; and it puts no id into an index that is there already. -/
inductive AppendStep (id : Nat) (key : AggregateKey) (batch : List (RecordedEvent E))
    (world : World E) : (Call.append key batch).Action → Prop where
  | called : AppendStep id key batch world .called
  | readLog (reply) : AppendStep id key batch world
      (.answered (.logs (.getOrInsert key .empty)) reply)
  | meetWindow {seen : Snapshot (EventLog E)} {last : SequenceId} (reply)
      (read : History.read? world.history id = some seen)
      (tail_le : seen.value.tail ≤ (streamOf world key).tail)
      (within : History.Within world.history id 0) : AppendStep id key batch world
        (.answered (.windows (.getOrInsert key (.opened (seen.value.tail + 1) last))) reply)
  | widen {current : Snapshot Window} {first last : SequenceId} (reply)
      (current_eq : world.state.windows.get? key = some current) : AppendStep id key batch world
        (.answered (.windows (.compareAndSwap key current (current.value.widened first last)))
          reply)
  | commit {seen : Snapshot (EventLog E)} (reply)
      (read : History.read? world.history id = some seen)
      (log_eq : world.state.logs.isCurrent key seen = true → (streamOf world key).log = some seen) :
      AppendStep id key batch world
        (.answered (.logs (.compareAndSwap key seen (seen.value.append batch))) reply)
  | lookUp (reply) : AppendStep id key batch world
      (.answered (.indexes (.getOrInsert key.type .empty)) reply)
  | enrol {current : Snapshot IdIndex} (reply)
      (current_eq : world.state.indexes.get? key.type = some current)
      (absent : key.id ∉ current.value.ids) : AppendStep id key batch world
        (.answered (.indexes (.compareAndSwap key.type current (current.value.insert key.id)))
          reply)
  | reached (checkpoint : Checkpoint) : AppendStep id key batch world
      (.answered (.reached checkpoint key) ())
  | succeed (indexed : (History.commits world.history key).head? = some (id, batch) →
      id ∈ world.history.filterMap (Entry.indexing? key)) :
      AppendStep id key batch world (.returned (.ok ()))
  | fail {error : RepositoryError} (duplicate : ∀ other, error = .duplicateId other →
      (id, batch) ∈ History.commits world.history key) :
      AppendStep id key batch world (.returned (.error error))

/-- What delivery number `id` does. It settles no window but the current one, once at most, and it
comes to its end only when its position is acknowledged. -/
inductive DeliveryStep (config : RepositoryConfig) (id : Nat) (key : AggregateKey)
    (delivered : SequenceId) (world : World E) :
    (Call.markDelivered (E := E) key delivered).Action →
      Prop where
  | called : DeliveryStep config id key delivered world .called
  | reached {checkpoint : Checkpoint} (acknowledged : checkpoint = .markDeliveredEnded →
      delivered ≤ History.watermark world.history key) :
      DeliveryStep config id key delivered world (.answered (.reached checkpoint key) ())
  | readLog (reply) : DeliveryStep config id key delivered world
      (.answered (.logs (.get key)) reply)
  | readWindow (reply) : DeliveryStep config id key delivered world
      (.answered (.windows (.get key)) reply)
  | report (record : LogRecord) : DeliveryStep config id key delivered world
      (.answered (.report record) ())
  | advance {current : Snapshot Window} {new : Window} (reply)
      (unsettled : History.Unsettled world.history id)
      (settled : world.state.windows.isCurrent key current = true →
        world.state.windows.get? key = some current ∧
          new = (streamOf world key).settled current.value delivered ∧ new.delivered < new.last) :
      DeliveryStep config id key delivered world
        (.answered (.windows (.compareAndSwap key current new)) reply)
  | remove {current : Snapshot Window} (reply)
      (unsettled : History.Unsettled world.history id)
      (settled : world.state.windows.isCurrent key current = true →
        world.state.windows.get? key = some current ∧
          ((streamOf world key).settled current.value delivered).delivered =
            ((streamOf world key).settled current.value delivered).last) :
      DeliveryStep config id key delivered world
        (.answered (.windows (.compareAndRemove key current)) reply)
  | succeed : DeliveryStep config id key delivered world (.returned (.ok ()))
  | fail {error : RepositoryError} (unsettled : History.Unsettled world.history id)
      (duplicate : ∀ other, error ≠ .duplicateId other)
      (liveLock : ∀ other, error = .liveLock other →
        History.passes world.history id = config.liveLockLimit.value ∧
          History.LostPasses id key delivered config.liveLockLimit.value world.history) :
      DeliveryStep config id key delivered world (.returned (.error error))

/-- What a listing does: it makes no request that changes the repository. -/
structure ListingStep (world : World E) (entry : Entry E) : Prop where
  unchanged : ∀ request reply, entry.action = .answered request reply →
    (world.state.answer request).2 = world.state
  fault : ∀ other, entry.fault? ≠ some (.duplicateId other)

/-- What a call owes to the world in which it takes a step. An append that has opened a window
announces its batch before it does anything else. -/
def IsWarranted (config : RepositoryConfig) (world : World E) (entry : Entry E) : Prop :=
  match entry with
  | ⟨id, .append key batch, action⟩ => AppendStep id key batch world action ∧
      (entry.announcement? key = some (id, batch) ∨ History.Candid world.history key id batch)
  | ⟨id, .markDelivered key delivered, action⟩ =>
    DeliveryStep config id key delivered world action
  | _ => ListingStep world entry

/-- The laws, kept by calls whose every step is warranted. -/
def rules (config : RepositoryConfig) :
    Discipline (Repository E) (Request.Reply (E := E)) (Call.Outcome (E := E)) :=
  laws.warranting (calls config) .empty (IsWarranted config)

/-- From a world on, all that a program does as a part of call number `id` is warranted, and `post`
is true when it is done. -/
abbrev Conducts (config : RepositoryConfig) (id : Nat) (call : Call E) {α : Type}
    (post : α → World E → Prop) : Operation E α → World E → Prop :=
  (calls config).Warrants (rules config) (IsWarranted config) id call post

namespace Since

variable {config : RepositoryConfig} {id stage stage' : Nat} {call : Call E} {α : Type}
  {post : α → World E → Prop} {earlier world : World E}

/-- A step between two checkpoints. -/
theorem conducts_step (hearlier : Sound earlier) (hsince : Since id stage earlier world)
    {request : Request E} {reply : request.Reply} {state : Repository E}
    {next : request.Reply → Operation E α} (hanswer : answer world.state request = (reply, state))
    (hcheckpoint : request.isCheckpoint = false) (hle : stage ≤ stage')
    (hstage : Entry.stage ⟨id, call, .answered request reply⟩ ≤ stage')
    (hwarranted : IsWarranted config world ⟨id, call, .answered request reply⟩)
    (hnext : ∀ after, after.state = state →
      after.history = world.history ++ [⟨id, call, .answered request reply⟩] →
      after = History.world after.history → Since id stage' earlier after →
      Conducts config id call post (next reply) after) :
    Conducts config id call post (step request >>= next) world := by
  have hafter : (calls config).after world id call request =
      ⟨state, world.history ++ [⟨id, call, .answered request reply⟩]⟩ := by
    simp only [System.after, calls, hanswer]
  have hreply : ((calls config).answer world.state request).1 = reply :=
    congrArg Prod.fst hanswer
  refine ⟨?_, fun hinv hfollows => ?_⟩
  · rwa [hreply]
  · rw [hafter] at hinv hfollows
    rw [if_neg (by simp [calls, hcheckpoint]), hafter, hreply]
    exact hnext _ rfl rfl hinv.2.1 (hsince.concat hearlier hle hstage hinv.1 hfollows)

/-- A checkpoint, at which others may run. -/
theorem conducts_reached (hearlier : Sound earlier) (hsince : Since id stage earlier world)
    {checkpoint : Checkpoint} {key : AggregateKey} {next : Unit → Operation E α}
    (hwarranted : IsWarranted config world ⟨id, call, .answered (.reached checkpoint key) ()⟩)
    (hnext : ∀ later,
      world.history ++ [⟨id, call, .answered (.reached checkpoint key) ()⟩] <+: later.history →
      History.own later.history id =
        History.own world.history id ++ [⟨id, call, .answered (.reached checkpoint key) ()⟩] →
      later = History.world later.history → Since id stage earlier later →
      Since id stage world later →
      Conducts config id call post (next ()) later) :
    Conducts config id call post (reached checkpoint key >>= next) world := by
  have hparked : (calls (E := E) config).isCheckpoint (.reached checkpoint key) = true := rfl
  refine ⟨hwarranted, fun hinv hfollows => ?_⟩
  rw [if_pos hparked]
  intro later hrely
  obtain ⟨entries, hentries, hne⟩ := hrely.others
  have hpassed := (refl hsince.sound hsince.within).concat hsince.sound (Nat.le_refl _)
    (Nat.zero_le _) hinv.1 hfollows
  have hlater := hpassed.rely hsince.sound ⟨hrely.inv.1, hrely.rel, hrely.others⟩
  refine hnext later ⟨entries, hentries.symm⟩ ?_ hrely.inv.2.1 (hsince.trans hearlier hlater) hlater
  rw [hentries, History.own_append_of_ne hne]
  exact History.own_concat rfl

end Since

end EventSourcing.Repository
