import EventSourcing.Proofs.Repository.Laws
import EventSourcing.Proofs.Service.Call

namespace EventSourcing

namespace Domain

variable {State Command E : Type}

/-- The state of an aggregate after the events of its log. -/
def stateAfter? (domain : Domain State Command E) (type : AggregateType)
    (log : List (RecordedEvent E)) : Option State :=
  (domain.fresh type).map fun fresh => domain.fold fresh (log.map (·.payload))

def answer? (domain : Domain State Command E) (type : AggregateType) (command : Command)
    (state : State) : Option (Except String (Outcome E)) :=
  (domain.processor type).map fun processor => processor command state

/-- A command on an aggregate leads to some events, according to the log of that aggregate. -/
def Accepts (domain : Domain State Command E) (type : AggregateType) (command : Command)
    (log : List (RecordedEvent E)) (events : List E) : Prop :=
  ∃ state, domain.stateAfter? type log = some state ∧
    domain.answer? type command state = some (.ok (.success events))

/-- A command is refused on a state. A processor that fails itself gives a single reason. -/
def Refuses (domain : Domain State Command E) (type : AggregateType) (command : Command)
    (state : State) (errors : DomainErrors) : Prop :=
  domain.answer? type command state = some (.ok (.failure errors)) ∨
    ∃ text, domain.answer? type command state = some (.error text) ∧
      errors = .single (.ofSource text)

end Domain

namespace Service

open Interleaving

variable {State Command E : Type}

/-- A batch that has become a part of a log, with the call that has put it there. -/
structure Commit (Command E : Type) where
  id : Nat
  call : Call Command E
  batch : List (RecordedEvent E)

namespace Entry

/-- The step of the repository in an entry. The operations of all calls get numbers of their own. -/
def operation? : Entry State Command E → Option (Repository.Entry E)
  | ⟨id, _, .answered (.repository number operation request) reply⟩ =>
    some ⟨Nat.pair id number, operation, .answered request reply⟩
  | _ => none

/-- Which of the things that its call asks for an entry is a part of, if that is an operation of the
repository. -/
def number? : Entry State Command E → Option Nat
  | ⟨_, _, .answered (.repository number _ _) _⟩ => some number
  | _ => none

def commit? (key : AggregateKey) (entry : Entry State Command E) : Option (Commit Command E) :=
  (entry.operation?.bind (Repository.Entry.commit? key)).map fun commit =>
    ⟨entry.id, entry.call, commit.2⟩

/-- How far an entry acknowledges the events of an aggregate. -/
def acknowledged (key : AggregateKey) (entry : Entry State Command E) : SequenceId :=
  (entry.operation?.map (Repository.Entry.acknowledged key)).getD 0

def subscriber? : Entry State Command E → Option Nat
  | ⟨_, _, .answered (.subscribe .events subscriber) _⟩ => some subscriber
  | _ => none

/-- What a subscriber has said to an event. -/
def reception? : Entry State Command E → Option (Nat × RecordedEvent E × Except String Unit)
  | ⟨_, _, .answered (.verdict subscriber event) verdict⟩ => some (subscriber, event, verdict)
  | _ => none

/-- The aggregate of which an entry helps to mark events as delivered. -/
def marking? : Entry State Command E → Option AggregateKey
  | ⟨_, _, .answered (.repository _ (.markDelivered key _) _) _⟩ => some key
  | _ => none

/-- An entry belongs to the delivery of events of an aggregate. -/
def Concerns (entry : Entry State Command E) (key : AggregateKey) : Prop :=
  entry.marking? = some key ∨ ∃ reception, entry.reception? = some reception ∧
    reception.2.1.key = key

end Entry

namespace History

/-- What one call has done. -/
def own (history : History State Command E) (id : Nat) : History State Command E :=
  history.filter (·.id = id)

/-- What has been done to the repository. -/
def operations (history : History State Command E) : Repository.History E :=
  history.filterMap Entry.operation?

/-- The batches of a log, in the order of their commits. -/
def commits (history : History State Command E) (key : AggregateKey) : List (Commit Command E) :=
  history.filterMap (Entry.commit? key)

/-- The events of a log. -/
def log (history : History State Command E) (key : AggregateKey) : List (RecordedEvent E) :=
  (commits history key).flatMap (·.batch)

/-- The events that one call has added to a log. -/
def added (history : History State Command E) (key : AggregateKey) (id : Nat) :
    List (RecordedEvent E) :=
  log (own history id) key

/-- How far the events of an aggregate have been acknowledged. -/
def watermark (history : History State Command E) (key : AggregateKey) : SequenceId :=
  Repository.History.watermark (operations history) key

/-- All who have subscribed to events, in the order of their subscription. -/
def subscribers (history : History State Command E) : List Nat :=
  history.filterMap Entry.subscriber?

/-- What one call has been told by subscribers. -/
def receptions (history : History State Command E) (id : Nat) :
    List (Nat × RecordedEvent E × Except String Unit) :=
  (own history id).filterMap Entry.reception?

/-- Call number `id` has published an event, and exactly those who had subscribed to events when it
began to do so have been given the event, in order, and have accepted it. -/
def Published (history : History State Command E) (id : Nat) (event : RecordedEvent E) : Prop :=
  ∃ before token pubSub during after,
    history = before ++ ⟨id, .drain token, .answered (.publish event) pubSub⟩ ::
      (during ++ after) ∧
    receptions during id = (subscribers before).map fun subscriber => (subscriber, event, .ok ())

/-- Call number `id` has listed the events of an aggregate up to a position and has published all of
them. Whatever it has been told about events of this aggregate is good. -/
def Confirmed (history : History State Command E) (id : Nat) (key : AggregateKey)
    (last : SequenceId) : Prop :=
  ∃ token found listing undelivered,
    ⟨id, .drain token, .answered (.arrange found) listing⟩ ∈ history ∧
    undelivered ∈ listing ∧ undelivered.key = key ∧ undelivered.lastSequenceId? = some last ∧
    (∀ event ∈ undelivered.events, Published history id event) ∧
    ∀ reception ∈ receptions history id, reception.2.1.key = key → reception.2.2 = .ok ()

/-- A listing names aggregates once each, with all of their events behind a position that has been
acknowledged. -/
structure Lists (history : History State Command E) (listing : List (UndeliveredEvents E)) :
    Prop where
  nodup : (listing.map (·.key)).Nodup
  events_eq : ∀ undelivered ∈ listing, ∃ delivered ≤ watermark history undelivered.key,
    undelivered.events = (log history undelivered.key).drop delivered
  belongs : ∀ undelivered ∈ listing, ∀ event ∈ undelivered.events, event.key = undelivered.key

/-- What a call that processes a command may tell when it returns. The state that it tells is that
of the log up to the position that it tells. -/
def Agrees (domain : Domain State Command E) (history : History State Command E) (id : Nat)
    (key : AggregateKey) (command : Command) :
    Except (StoreError State Command) (CommandResult State E) → Prop
  | .ok result =>
    ∃ past, past <+: log history key ∧ past.length = result.lastSequenceId ∧
      domain.stateAfter? key.type past = some result.state ∧ result.newEvents <:+ past ∧
      (∀ event ∈ result.newEvents, event.sourceId = domain.commandId command) ∧
      (∀ other, added history other id = if other = key then result.newEvents else []) ∧
      (result.isDuplicate = true →
        result.newEvents = [] ∧ ∃ event ∈ past, event.sourceId = domain.commandId command)
  | .error (.commandFailed failed) =>
    failed.key = key ∧ failed.command = command ∧
      (∃ past, past <+: log history key ∧ past.length = failed.lastSequenceId ∧
        domain.stateAfter? key.type past = some failed.state) ∧
      domain.Refuses key.type command failed.state failed.errors ∧
      ∀ other, added history other id = []
  | .error _ => ∀ other, added history other id = []

end History

/-- What an operation owes to the log of the aggregate whose command it is a part of: a batch is
what the command leads to on some beginning of the log in which the command has left no event. -/
def IsDecided (domain : Domain State Command E) (key : AggregateKey) (command : Command)
    (log : List (RecordedEvent E)) : Repository.Call E → Prop
  | .append owner batch => owner = key ∧ ∃ past events, past <+: log ∧
      domain.Accepts key.type command past events ∧
      (∀ event ∈ past, event.sourceId ≠ domain.commandId command) ∧
      batch = Store.record key (domain.commandId command) past.length events
  | .markDelivered _ _ => False
  | _ => True

/-- What an entry owes to the entries before it. -/
def Entry.IsWarranted (setting : Setting State Command E) (before : History State Command E) :
    Entry State Command E → Prop
  | ⟨_, .process key command, .answered (.repository _ operation _) _⟩ =>
    IsDecided setting.domain key command (before.log key) operation
  | ⟨id, .process key command, .returned outcome⟩ =>
    before.Agrees setting.domain id key command outcome
  | ⟨id, .drain _, .answered (.repository _ operation _) _⟩ =>
    match operation with
    | .append _ _ => False
    | .markDelivered key last => before.Confirmed id key last
    | _ => True
  | ⟨_, .drain _, .answered (.arrange _) listing⟩ => before.Lists listing
  | ⟨id, _, .answered (.verdict _ event) _⟩ =>
    ∀ entry ∈ before.own id, entry.marking? ≠ some event.key
  | ⟨_, .direct operation, .answered (.repository _ other _) _⟩ => other = operation
  | ⟨_, _, .answered (.repository _ operation _) _⟩ =>
    match operation with
    | .append _ _ => False
    | .markDelivered _ _ => False
    | _ => True
  | _ => True

/-- Only an append makes its batch a part of a log. -/
theorem Entry.of_commit?_eq_some {key : AggregateKey} {entry : Entry State Command E}
    {commit : Commit Command E} (h : entry.commit? key = some commit) :
    ∃ number request reply, entry =
      ⟨commit.id, commit.call,
        .answered (.repository number (.append key commit.batch) request) reply⟩ := by
  obtain ⟨base, hbase, rfl⟩ := Option.map_eq_some_iff.1 h
  obtain ⟨step, hstep, hcommit⟩ := Option.bind_eq_some_iff.1 hbase
  unfold Entry.operation? at hstep
  split at hstep
  · unfold Repository.Entry.commit? at hcommit
    split at hcommit
    · split at hcommit
      · next hkey =>
        subst hkey
        cases hstep
        cases hcommit
        exact ⟨_, _, _, rfl⟩
      · cases hcommit
    · cases hcommit
  · cases hstep

theorem Entry.of_reception?_eq_some {entry : Entry State Command E}
    {reception : Nat × RecordedEvent E × Except String Unit}
    (h : entry.reception? = some reception) :
    ∃ id call, entry =
      ⟨id, call, .answered (.verdict reception.1 reception.2.1) reception.2.2⟩ := by
  unfold Entry.reception? at h
  split at h
  · cases h
    exact ⟨_, _, rfl⟩
  · cases h

/-- An entry concerns no aggregate if it neither marks events nor tells what a subscriber says. -/
theorem Entry.not_concerns {entry : Entry State Command E} (hmarking : entry.marking? = none)
    (hreception : entry.reception? = none) (key : AggregateKey) : ¬ entry.Concerns key := by
  rintro (h | ⟨reception, h, -⟩)
  · simp [hmarking] at h
  · simp [hreception] at h

namespace History

variable (first second : History State Command E) (key : AggregateKey) (id : Nat)

@[simp]
theorem own_append : own (first ++ second) id = own first id ++ own second id :=
  List.filter_append ..

@[simp]
theorem operations_append :
    operations (first ++ second) = operations first ++ operations second :=
  List.filterMap_append

@[simp]
theorem log_append : log (first ++ second) key = log first key ++ log second key := by
  simp [log, commits]

@[simp]
theorem added_append :
    added (first ++ second) key id = added first key id ++ added second key id := by
  simp [added]

@[simp]
theorem subscribers_append :
    subscribers (first ++ second) = subscribers first ++ subscribers second :=
  List.filterMap_append

@[simp]
theorem receptions_append :
    receptions (first ++ second) id = receptions first id ++ receptions second id := by
  simp [receptions]

variable {first second : History State Command E} {key : AggregateKey} {id : Nat}

theorem own_eq_self (h : ∀ entry ∈ first, entry.id = id) : own first id = first :=
  List.filter_eq_self.2 fun entry hentry => decide_eq_true (h entry hentry)

theorem own_eq_nil (h : ∀ entry ∈ first, entry.id ≠ id) : own first id = [] :=
  List.filter_eq_nil_iff.2 fun entry hentry => by simpa using h entry hentry

theorem mem_own {entry : Entry State Command E} :
    entry ∈ own first id ↔ entry ∈ first ∧ entry.id = id := by
  simp [own]

theorem log_prefix (h : first <+: second) (key : AggregateKey) :
    log first key <+: log second key := by
  obtain ⟨rest, rfl⟩ := h
  rw [log_append]
  exact List.prefix_append _ _

/-- A log gets its events from the batches that have been committed to the repository. -/
theorem map_batch_commits (history : History State Command E) (key : AggregateKey) :
    (Repository.History.commits (operations history) key).map (·.2) =
      (commits history key).map (·.batch) := by
  simp only [Repository.History.commits, operations, commits, List.filterMap_filterMap,
    List.map_filterMap]
  congr 1
  funext entry
  rw [Entry.commit?]
  cases entry.operation?.bind (Repository.Entry.commit? key) <;> rfl

/-- Nobody takes back what has been published. -/
theorem Published.mono {event : RecordedEvent E} (h : first <+: second)
    (hpublished : Published first id event) : Published second id event := by
  obtain ⟨rest, rfl⟩ := h
  obtain ⟨before, token, pubSub, during, after, rfl, hreceptions⟩ := hpublished
  exact ⟨before, token, pubSub, during, after ++ rest, by simp, hreceptions⟩

/-- A confirmation holds until the call is told more. -/
theorem Confirmed.mono {last : SequenceId} (h : first <+: second)
    (hreceptions : receptions second id = receptions first id)
    (hconfirmed : Confirmed first id key last) : Confirmed second id key last := by
  obtain ⟨token, found, listing, undelivered, hlisted, hmem, hkey, hlast, hpublished, hgood⟩ :=
    hconfirmed
  exact ⟨token, found, listing, undelivered, h.subset hlisted, hmem, hkey, hlast,
    fun event hevent => (hpublished event hevent).mono h, hreceptions ▸ hgood⟩

end History

end Service

end EventSourcing
