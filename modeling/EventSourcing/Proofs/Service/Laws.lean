import EventSourcing.Proofs.Repository.Reachable
import EventSourcing.Proofs.Service.History

namespace EventSourcing.Service

open Interleaving

variable {State Command E : Type}

/-- What a world says about its repository. -/
def repositoryOf (world : World State Command E) : Repository.World E :=
  ⟨world.state.repository, History.operations world.history⟩

structure Lawful (setting : Setting State Command E) (world : World State Command E) : Prop where
  sound : Repository.Sound (repositoryOf world)
  warranted : ∀ before entry after, world.history = before ++ entry :: after →
    Entry.IsWarranted setting before entry
  subscribed : world.state.pubSub.subscriptions .events =
    (History.subscribers world.history).map fun subscriber => ⟨.events, subscriber⟩

/-- What rebuilding an aggregate should yield. -/
def rebuilt (setting : Setting State Command E) (key : AggregateKey)
    (log : List (RecordedEvent E)) : Except (StoreError State Command) State :=
  match setting.domain.stateAfter? key.type log with
  | some state => .ok state
  | none => .error (.missingAggregate key.type)

def laws (setting : Setting State Command E) :
    Discipline (Service E) (Request.Reply (E := E)) (@Call.Outcome Command E State) where
  Inv := Lawful setting
  Rel before after := Repository.Follows (repositoryOf before) (repositoryOf after)
  Post
    | _, .aggregate key, outcome, world => outcome = rebuilt setting key (logOf world.state key)
    | _, _, _, _ => True
  refl := fun _ _ => .refl _
  trans := fun hfirst _ h h' key => (h key).trans (hfirst.sound key) (h' key)

namespace Lawful

variable {setting : Setting State Command E} {world : World State Command E}

/-- The log of an aggregate is what has been committed to it. -/
theorem logOf_eq (hlawful : Lawful setting world) (key : AggregateKey) :
    logOf world.state key = History.log world.history key := by
  have hevents := (hlawful.sound key).events_eq
  have hbatches := History.map_batch_commits world.history key
  change logOf world.state key =
    (Repository.History.commits (History.operations world.history) key).flatMap (·.2) at hevents
  rw [hevents, List.flatMap_def, hbatches, ← List.flatMap_def]
  rfl

theorem positions (hlawful : Lawful setting world) (key : AggregateKey) :
    (History.log world.history key).map (·.sequenceId) =
      List.range' 1 (History.log world.history key).length := by
  rw [← hlawful.logOf_eq]
  exact (hlawful.sound key).positions

theorem key_eq (hlawful : Lawful setting world) {key : AggregateKey} {event : RecordedEvent E}
    (hevent : event ∈ History.log world.history key) : event.key = key := by
  rw [← hlawful.logOf_eq] at hevent
  exact (hlawful.sound key).belongs event hevent

theorem batch_ne_nil (hlawful : Lawful setting world) {key : AggregateKey} :
    ∀ commit ∈ History.commits world.history key, commit.batch ≠ [] := by
  have hmap : ∀ batch ∈ (History.commits world.history key).map (·.batch), batch ≠ [] := by
    rw [← History.map_batch_commits]
    intro batch hbatch
    obtain ⟨commit, hcommit, rfl⟩ := List.mem_map.1 hbatch
    exact (hlawful.sound key).batch_ne_nil commit hcommit
  exact fun commit hcommit => hmap _ (List.mem_map.2 ⟨commit, hcommit, rfl⟩)

/-- A batch that is put behind some beginning of a log has become a part of the log right there. -/
theorem flatMap_batch_eq (hlawful : Lawful setting world) {key : AggregateKey}
    {before after : List (Commit Command E)} {commit : Commit Command E}
    (hcommits : History.commits world.history key = before ++ commit :: after)
    {past : List (RecordedEvent E)} (hpast : past <+: History.log world.history key) {source : Uuid}
    {events : List E} (hbatch : commit.batch = Store.record key source past.length events)
    (hne : commit.batch ≠ []) : before.flatMap (·.batch) = past := by
  have hlog : History.log world.history key =
      before.flatMap (·.batch) ++ (commit.batch ++ after.flatMap (·.batch)) := by
    simp [History.log, hcommits]
  generalize before.flatMap (·.batch) = earlier at hlog ⊢
  -- The first event of the batch tells where the batch stands.
  have hlength : earlier.length = past.length := by
    obtain ⟨event, rest, hevents⟩ : ∃ event rest, events = event :: rest := by
      cases events with
      | nil => exact absurd hbatch hne
      | cons event rest => exact ⟨event, rest, rfl⟩
    have hfirst := congrArg (·[earlier.length]?) (hlawful.positions key)
    rw [hlog, hbatch, hevents] at hfirst
    simp [Store.record] at hfirst
    lia
  refine (List.prefix_of_prefix_length_le ?_ hpast (Nat.le_of_eq hlength)).eq_of_length hlength
  rw [hlog]
  exact List.prefix_append _ _

end Lawful

/-- Every entry is warranted as soon as each is when it is made. -/
theorem forall_isWarranted_concat {setting : Setting State Command E}
    {history : History State Command E} {entry : Entry State Command E}
    (hhistory : ∀ before entry after, history = before ++ entry :: after →
      Entry.IsWarranted setting before entry) (hentry : Entry.IsWarranted setting history entry) :
    ∀ before other after, history ++ [entry] = before ++ other :: after →
      Entry.IsWarranted setting before other := by
  intro before other after hsplit
  rcases concat_eq_append_cons hsplit with ⟨rest, -, hbefore⟩ | ⟨-, rfl, rfl⟩
  · exact hhistory before other rest hbefore
  · exact hentry

/-- In a later world call number `id` has done some more things, and nothing else of its own. -/
structure Since (setting : Setting State Command E) (id : Nat) (done : History State Command E)
    (earlier later : World State Command E) : Prop where
  lawful : Lawful setting later
  history : earlier.history <+: later.history
  own : History.own later.history id = History.own earlier.history id ++ done

/-- The things that call number `id` has asked for have numbers below `number`. -/
def History.IsNumbered (history : History State Command E) (id number : Nat) : Prop :=
  ∀ entry ∈ history.own id, ∀ other ∈ Entry.number? entry, other < number

/-- A call that has just begun has not asked for anything. -/
theorem History.isNumbered_of_called {history : History State Command E} {id : Nat}
    {call : Call Command E} (hown : ∀ entry ∈ History.own history id, entry = ⟨id, call, .called⟩) :
    History.IsNumbered history id 0 := by
  intro entry hentry other hother
  rw [hown entry hentry] at hother
  cases hother

namespace Since

variable {setting : Setting State Command E} {id : Nat} {done : History State Command E}
  {earlier world later : World State Command E}

theorem refl (hlawful : Lawful setting world) : Since setting id [] world world :=
  ⟨hlawful, List.prefix_refl _, (List.append_nil _).symm⟩

theorem trans {more : History State Command E} (hfirst : Since setting id done earlier world)
    (hsecond : Since setting id more world later) :
    Since setting id (done ++ more) earlier later :=
  ⟨hsecond.lawful, hfirst.history.trans hsecond.history,
    by rw [hsecond.own, hfirst.own, List.append_assoc]⟩

theorem rely (hsince : Since setting id done earlier world)
    (hrely : (laws setting).Rely id world later) : Since setting id done earlier later := by
  obtain ⟨entries, hentries, hne⟩ := hrely.others
  refine ⟨hrely.inv, ?_, ?_⟩
  · rw [hentries]
    exact hsince.history.trans (List.prefix_append _ _)
  · rw [hentries, History.own_append, History.own_eq_nil hne, List.append_nil]
    exact hsince.own

/-- The call itself does one thing more. -/
theorem concat (hsince : Since setting id done earlier world) {service : Service E}
    {entry : Entry State Command E} (hid : entry.id = id)
    (hlawful : Lawful setting ⟨service, world.history ++ [entry]⟩) :
    Since setting id (done ++ [entry]) earlier ⟨service, world.history ++ [entry]⟩ := by
  refine ⟨hlawful, hsince.history.trans (List.prefix_append _ _), ?_⟩
  have hentry : History.own [entry] id = [entry] := History.own_eq_self (by simp [hid])
  rw [History.own_append, hentry, hsince.own, List.append_assoc]

theorem added (hsince : Since setting id done earlier later) (key : AggregateKey) :
    History.added later.history key id =
      History.added earlier.history key id ++ History.log done key := by
  rw [History.added, hsince.own, History.log_append]
  rfl

theorem receptions (hsince : Since setting id done earlier later) :
    History.receptions later.history id =
      History.receptions earlier.history id ++ done.filterMap Entry.reception? := by
  rw [History.receptions, hsince.own, List.filterMap_append]
  rfl

theorem mem_own (hsince : Since setting id done earlier later) {entry : Entry State Command E} :
    entry ∈ History.own later.history id ↔
      entry ∈ History.own earlier.history id ∨ entry ∈ done := by
  rw [hsince.own, List.mem_append]

theorem isNumbered (hsince : Since setting id done earlier later) {number next : Nat}
    (hnumbered : History.IsNumbered earlier.history id number) (hle : number ≤ next)
    (hdone : ∀ entry ∈ done, ∀ other ∈ Entry.number? entry, other < next) :
    History.IsNumbered later.history id next := by
  intro entry hentry other hother
  rcases hsince.mem_own.1 hentry with h | h
  · exact Nat.lt_of_lt_of_le (hnumbered entry h other hother) hle
  · exact hdone entry h other hother

end Since

/-- A request that changes neither the repository nor the subscriptions. -/
def Request.IsPlain : Request E → Prop
  | .repository _ _ _ | .subscribe _ _ => False
  | _ => True

section

variable {setting : Setting State Command E} {id : Nat} {call : Call Command E} {α : Type}
  {post : α → World State Command E → Prop} {world : World State Command E}

theorem answer_of_isPlain (setting : Setting State Command E) {request : Request E}
    (hplain : request.IsPlain) (service : Service E) :
    (answer setting service request).2.repository = service.repository ∧
      (answer setting service request).2.pubSub = service.pubSub := by
  cases request with
  | repository | subscribe => exact hplain.elim
  | scheduleDelivery =>
    simp only [answer]
    split <;> exact ⟨rfl, rfl⟩
  | _ => exact ⟨rfl, rfl⟩

theorem Request.IsPlain.entry {request : Request E} (hplain : request.IsPlain) (State : Type)
    (id : Nat) (call : Call Command E) (reply : request.Reply) :
    Entry.operation? (⟨id, call, .answered request reply⟩ : Entry State Command E) = none ∧
      Entry.number? (⟨id, call, .answered request reply⟩ : Entry State Command E) = none ∧
      Entry.subscriber? (⟨id, call, .answered request reply⟩ : Entry State Command E) = none := by
  cases request with
  | repository | subscribe => exact hplain.elim
  | _ => exact ⟨rfl, rfl, rfl⟩

/-- An entry that is made outside the repository and subscribes nobody keeps the laws if it is
warranted. -/
theorem Lawful.concat (hlawful : Lawful setting world) {service : Service E}
    {entry : Entry State Command E} (hrepository : service.repository = world.state.repository)
    (hpubSub : service.pubSub = world.state.pubSub) (hoperation : Entry.operation? entry = none)
    (hsubscriber : Entry.subscriber? entry = none)
    (hwarranted : Entry.IsWarranted setting world.history entry) :
    Lawful setting ⟨service, world.history ++ [entry]⟩ ∧
      repositoryOf ⟨service, world.history ++ [entry]⟩ = repositoryOf world := by
  have hsame : repositoryOf ⟨service, world.history ++ [entry]⟩ = repositoryOf world := by
    simp [repositoryOf, hrepository, History.operations, hoperation]
  refine ⟨⟨hsame ▸ hlawful.sound, forall_isWarranted_concat hlawful.warranted hwarranted, ?_⟩,
    hsame⟩
  simp only [hpubSub, hlawful.subscribed, History.subscribers_append]
  simp [History.subscribers, hsubscriber]

theorem keeps_ask {request : Request E} {next : request.Reply → Operation E α}
    (hlawful : Lawful setting world) (hplain : request.IsPlain)
    (hwarranted : Entry.IsWarranted setting world.history
      ⟨id, call, .answered request (answer setting world.state request).1⟩)
    (hnext : ∀ later,
      world.history ++ [⟨id, call, .answered request (answer setting world.state request).1⟩] <+:
        later.history →
      Since setting id [⟨id, call, .answered request (answer setting world.state request).1⟩] world
        later →
      (calls setting).Keeps (laws setting) id call post
        (next (answer setting world.state request).1) later) :
    (calls setting).Keeps (laws setting) id call post (ask request >>= next) world := by
  obtain ⟨hrepository, hpubSub⟩ := answer_of_isPlain setting hplain world.state
  obtain ⟨hoperation, -, hsubscriber⟩ :=
    hplain.entry State id call (answer setting world.state request).1
  obtain ⟨hafter, hsame⟩ := hlawful.concat hrepository hpubSub hoperation hsubscriber hwarranted
  have hsince := (Since.refl hlawful : Since setting id [] world world).concat rfl hafter
  refine ⟨hafter, ?_, ?_⟩
  · exact fun key => hsame ▸ .refl _
  · split
    · intro later hrely
      obtain ⟨entries, hentries, -⟩ := hrely.others
      exact hnext later ⟨entries, hentries.symm⟩ (hsince.rely hrely)
    · exact hnext _ (List.prefix_refl _) hsince

end

/-- An entry is a step of call number `id` within the `number`-th thing that it asks for, which is
an operation of the repository. -/
def Entry.IsStep (id : Nat) (call : Call Command E) (number : Nat) (operation : Repository.Call E)
    (entry : Entry State Command E) : Prop :=
  ∃ request reply, entry = ⟨id, call, .answered (.repository number operation request) reply⟩

section

variable {setting : Setting State Command E} {id number : Nat} {call : Call Command E}
  {operation : Repository.Call E} {world : World State Command E}

/-- Steps of other calls are steps of other operations. -/
theorem rely_repositoryOf {later : World State Command E}
    (hrely : (laws setting).Rely id world later) :
    Repository.laws.Rely (Nat.pair id number) (repositoryOf world) (repositoryOf later) := by
  obtain ⟨entries, hentries, hne⟩ := hrely.others
  refine ⟨hrely.inv.sound, hrely.rel, History.operations entries, ?_, ?_⟩
  · simp [repositoryOf, hentries]
  · intro step hstep hid
    obtain ⟨entry, hentry, hoperation⟩ := List.mem_filterMap.1 hstep
    unfold Entry.operation? at hoperation
    split at hoperation
    · cases hoperation
      exact hne _ hentry (Nat.pair_eq_pair.1 hid).1
    · cases hoperation

/-- An operation that keeps the laws of the repository does so as a part of a call, if each of its
steps is warranted. -/
theorem keeps_relay {α : Type} {mid : α → Repository.World E → Prop}
    {post : α → World State Command E → Prop} {program : Repository.Operation E α}
    {earlier : World State Command E} {done : History State Command E}
    (hbase : (Repository.calls setting.repositoryConfig).Keeps Repository.laws (Nat.pair id number)
      operation mid program (repositoryOf world))
    (hsince : Since setting id done earlier world)
    (hdone : ∀ entry ∈ done, Entry.IsStep id call number operation entry)
    (hwarranted : ∀ later done, Since setting id done earlier later →
      (∀ entry ∈ done, Entry.IsStep id call number operation entry) → ∀ request reply,
        Entry.IsWarranted setting later.history
          ⟨id, call, .answered (.repository number operation request) reply⟩)
    (hpost : ∀ value later done, Since setting id done earlier later →
      (∀ entry ∈ done, Entry.IsStep id call number operation entry) →
        mid value (repositoryOf later) → post value later) :
    (calls setting).Keeps (laws setting) id call post (relay number operation program) world := by
  induction program generalizing world done with
  | done value => exact hpost value world done hsince hdone hbase
  | ask request next ih =>
    obtain ⟨hinv, hrel, hnext⟩ := hbase
    have hview : repositoryOf ((calls setting).after world id call
        (.repository number operation request)) =
          (Repository.calls setting.repositoryConfig).after (repositoryOf world)
            (Nat.pair id number) operation request := by
      simp [repositoryOf, System.after, calls, answer, Repository.calls, History.operations,
        Entry.operation?]
    have hlawful : Lawful setting ((calls setting).after world id call
        (.repository number operation request)) := by
      refine ⟨hview ▸ hinv, forall_isWarranted_concat hsince.lawful.warranted
        (hwarranted world done hsince hdone request _), ?_⟩
      have hsubscribed := hsince.lawful.subscribed
      simp only [System.after, calls, answer, hsubscribed, History.subscribers_append]
      simp [History.subscribers, Entry.subscriber?]
    have hafter : Since setting id (done ++ [⟨id, call, .answered
        (.repository number operation request) (world.state.repository.answer request).1⟩]) earlier
          ((calls setting).after world id call (.repository number operation request)) :=
      hsince.concat rfl hlawful
    have hdone' : ∀ entry ∈ done ++ [(⟨id, call, .answered (.repository number operation request)
        (world.state.repository.answer request).1⟩ : Entry State Command E)],
          Entry.IsStep id call number operation entry := by
      intro entry hentry
      rcases List.mem_append.1 hentry with hentry | hentry
      · exact hdone entry hentry
      · exact ⟨request, _, List.mem_singleton.1 hentry⟩
    refine ⟨hlawful, fun key => ?_, ?_⟩
    · exact hview ▸ hrel key
    · split at hnext
      · next hcheckpoint =>
        rw [if_pos (show (calls setting).isCheckpoint (.repository number operation request) = true
          from hcheckpoint)]
        intro later hrely
        refine ih _ (hnext (repositoryOf later) ?_) (hafter.rely hrely) hdone'
        exact hview ▸ rely_repositoryOf hrely
      · next hcheckpoint =>
        rw [if_neg (show (calls setting).isCheckpoint
          (.repository number operation request) ≠ true from hcheckpoint)]
        exact ih _ (hview ▸ hnext) hafter hdone'

/-- What an operation does when a call has the repository do it. -/
theorem keeps_perform {α : Type} {mid : operation.Outcome → Repository.World E → Prop}
    {post : α → World State Command E → Prop} {next : operation.Outcome → Operation E α}
    (hbase : (Repository.calls setting.repositoryConfig).Keeps Repository.laws (Nat.pair id number)
      operation mid (operation.program setting.repositoryConfig) (repositoryOf world))
    (hlawful : Lawful setting world)
    (hwarranted : ∀ later done, Since setting id done world later →
      (∀ entry ∈ done, Entry.IsStep id call number operation entry) → ∀ request reply,
        Entry.IsWarranted setting later.history
          ⟨id, call, .answered (.repository number operation request) reply⟩)
    (hnext : ∀ value later done, Since setting id done world later →
      (∀ entry ∈ done, Entry.IsStep id call number operation entry) →
        mid value (repositoryOf later) →
          (calls setting).Keeps (laws setting) id call post (next value) later) :
    (calls setting).Keeps (laws setting) id call post
      (perform setting.repositoryConfig number operation >>= next) world :=
  (keeps_relay hbase (.refl hlawful) (by simp) hwarranted hnext).bind fun _ _ hkeeps => hkeeps

end

end EventSourcing.Service
