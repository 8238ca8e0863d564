import EventSourcing.Proofs.Repository.Budget
import EventSourcing.Proofs.Scheduling.Noninterference

namespace EventSourcing

namespace Repository

variable {E : Type}

/-- Items can be put in such an order that what they yield comes in the order that is wanted. -/
private theorem exists_perm_filterMap {α β : Type} {f : α → Option β} {items : List α}
    {wanted : List β} (hperm : wanted.Perm (items.filterMap f)) :
    ∃ arranged : List α, arranged.Perm items ∧ arranged.filterMap f = wanted := by
  induction wanted generalizing items with
  | nil => exact ⟨items, .refl _, List.nil_perm.1 hperm⟩
  | cons first rest ih =>
    obtain ⟨item, hitem, hfirst⟩ := List.mem_filterMap.1 (hperm.mem_iff.1 List.mem_cons_self)
    obtain ⟨front, back, rfl⟩ := List.append_of_mem hitem
    rw [List.filterMap_append, List.filterMap_cons_some hfirst] at hperm
    have hrest : rest.Perm ((front ++ back).filterMap f) := by
      rw [List.filterMap_append]
      exact (hperm.trans List.perm_middle).cons_inv
    obtain ⟨arranged, harranged, hwanted⟩ := ih hrest
    refine ⟨item :: arranged, (harranged.cons item).trans List.perm_middle.symm, ?_⟩
    rw [List.filterMap_cons_some hfirst, hwanted]

/-- Nobody who reads can tell two repositories apart: logs and ids are listed in the same way, and
in whatever order the windows are found in the one, those of the other may be found in an order that
leads to the same listing of undelivered events. -/
structure Alike (one other : Repository E) : Prop where
  events : ∀ key after max,
    (runAlone (listEvents key after max) one).1 = (runAlone (listEvents key after max) other).1
  ids : ∀ type after max,
    (runAlone (listIds type after max) one).1 = (runAlone (listIds type after max) other).1
  undelivered : ∀ windows horder, ∃ otherWindows hotherOrder, ∀ max,
    (runAlone (listUndelivered max) (one.arrange windows horder)).1 =
      (runAlone (listUndelivered max) (other.arrange otherWindows hotherOrder)).1

/-- Nobody who reads can tell that something has happened to an aggregate. -/
structure Untouched (key : AggregateKey) (before after : Repository E) : Prop where
  events : ∀ position max, (runAlone (listEvents key position max) after).1 =
    (runAlone (listEvents key position max) before).1
  ids : ∃ ids laterIds, (runAlone (listIds key.type none none) before).1 = .ok ids ∧
    (runAlone (listIds key.type none none) after).1 = .ok laterIds ∧
    (key.id ∈ laterIds ↔ key.id ∈ ids)
  undelivered : ∃ listing later, (runAlone (listUndelivered none) before).1 = .ok listing ∧
    (runAlone (listUndelivered none) after).1 = .ok later ∧
    ∀ undelivered, undelivered.key = key → (undelivered ∈ later ↔ undelivered ∈ listing)

section Mirrors

variable {one other : Repository E} {ledger otherLedger : Ledger E}

theorem Mirrors.runAlone_listEvents (hmirrors : Mirrors one.view ledger) (key : AggregateKey)
    (after : SequenceId) (max : Option Nat) :
    (runAlone (listEvents key after max) one).1 =
      .ok (limit max ((ledger key).events.drop after)) := by
  rw [runAlone_listEvents_limit, hmirrors.eventsBehind_eq]

theorem runAlone_listUndelivered_arrange (repository : Repository E) {max : Option Nat}
    (hmax : max ≠ some 0) {windows : List (AggregateKey × Snapshot Window)}
    (horder : windows.Perm repository.windows.entries) :
    (runAlone (listUndelivered max) (repository.arrange windows horder)).1 =
      .ok (limitEvents max (windows.filterMap (listed? repository))) :=
  congrArg Prod.fst (runAlone_listUndelivered_limit _ hmax)

/-- What a repository tells is in the ledger that it stands for. -/
theorem Mirrors.alike (hone : Mirrors one.view ledger) (hother : Mirrors other.view ledger) :
    Alike one other where
  events key after max := by
    rw [hone.runAlone_listEvents, hother.runAlone_listEvents]
  ids type after max := by
    have hids : other.view.ids type = one.view.ids type :=
      (hone.enumerates type).eq (hother.enumerates type) fun _ => rfl
    rw [runAlone_listIds, runAlone_listIds, hids]
  undelivered windows horder := by
    have hlisted : (windows.filterMap (listed? one)).Perm
        (other.windows.entries.filterMap (listed? other)) := by
      refine (horder.filterMap _).trans ?_
      refine (List.perm_ext_iff_of_nodup hone.lists.nodup.of_map hother.lists.nodup.of_map).2 ?_
      exact fun undelivered => (hone.lists.mem_iff _).trans (hother.lists.mem_iff _).symm
    obtain ⟨otherWindows, hotherOrder, hsame⟩ := exists_perm_filterMap hlisted
    refine ⟨otherWindows, hotherOrder, fun max => ?_⟩
    by_cases hmax : max = some 0
    · subst hmax
      rfl
    · rw [runAlone_listUndelivered_arrange one hmax, runAlone_listUndelivered_arrange other hmax,
        hsame]

/-- What a repository tells of an aggregate is in its account. -/
theorem Mirrors.untouched (hone : Mirrors one.view ledger) (hother : Mirrors other.view otherLedger)
    {key : AggregateKey} (haccount : otherLedger key = ledger key) : Untouched key one other where
  events position max := by
    rw [hone.runAlone_listEvents, hother.runAlone_listEvents, haccount]
  ids := by
    refine ⟨_, _, runAlone_listIds_all one key.type, runAlone_listIds_all other key.type, ?_⟩
    have hold := (hone.enumerates key.type).mem_iff key.id
    have hnew := (hother.enumerates key.type).mem_iff key.id
    exact hnew.trans (haccount ▸ hold.symm)
  undelivered := by
    refine ⟨_, _, congrArg Prod.fst (runAlone_listUndelivered one),
      congrArg Prod.fst (runAlone_listUndelivered other), ?_⟩
    rintro undelivered rfl
    rw [hone.lists.mem_iff, hother.lists.mem_iff, haccount]

end Mirrors

end Repository

namespace Service

open Repository

variable {State Command E : Type} {setting : Setting State Command E} {service : Service E}

/-- Makes a call with nothing else in between. -/
def make (setting : Setting State Command E) (call : Call Command E) (service : Service E) :
    call.Outcome State × Service E :=
  (call.program setting).alone (answer setting) service

/-- What a new service becomes when some calls are made, one after the other. -/
def after (setting : Setting State Command E) (earlier : List (Call Command E)) : Service E :=
  earlier.foldl (fun service call => (make setting call service).2) .empty

/-- The service as a stage, with itself around its repository and its queue. -/
def stage (service : Service E) : Stage E (Service E) :=
  ⟨service.repository, service.queue, service⟩

/-- What a call ensures on a stage, it does to a service. -/
theorem make_of_ensures {call : Call Command E} (post : call.Outcome State → Repository E → Prop)
    (hcall : (call.program setting).Ensures (Stage.handling (Stage.ofService setting))
      (fun outcome later => post outcome later.repository) service.stage) :
    post (make setting call service).1 (make setting call service).2.repository := by
  have hmake : make setting call service =
      (((call.program setting).alone (Stage.answer (Stage.ofService setting)) service.stage).1,
        ((call.program setting).alone (Stage.answer (Stage.ofService setting))
          service.stage).2.service) :=
    Stage.alone_service setting (call.program setting) service.stage
  rw [hmake]
  exact hcall.alone

/-- Something to do with an aggregate. -/
inductive LocalCall (Command E : Type) where
  | append (batch : List (RecordedEvent E))
  | markDelivered (delivered : SequenceId)
  | listEvents (after : SequenceId) (max : Option Nat)
  | process (command : Command)

namespace LocalCall

variable {ledger : Ledger E}

def on (key : AggregateKey) : LocalCall Command E → Call Command E
  | append batch => .direct (.append key batch)
  | markDelivered delivered => .direct (.markDelivered key delivered)
  | listEvents after max => .direct (.listEvents key after max)
  | process command => .process key command

/-- What is to be answered from the account of the aggregate. -/
def outcome (domain : Domain State Command E) (key : AggregateKey) (account : Account E) :
    (operation : LocalCall Command E) → (operation.on key).Outcome State
  | append batch => account.appendAnswer key batch
  | markDelivered delivered => account.markAnswer delivered
  | listEvents after max =>
    .ok (limit max (account.events.filter fun event => after < event.sequenceId))
  | process command => Store.decision domain key command account.events

/-- What becomes of the account of the aggregate. -/
def effect (domain : Domain State Command E) (key : AggregateKey) (account : Account E) :
    LocalCall Command E → Account E
  | append batch => account.append key batch
  | markDelivered delivered => account.mark delivered
  | listEvents _ _ => account
  | process command =>
    account.append key (Store.newEvents (Store.decision domain key command account.events))

/-- An operation is answered from the account of its aggregate and changes no other. -/
theorem runs (operation : LocalCall Command E) (setting : Setting State Command E)
    (key : AggregateKey) (hmirrors : Mirrors service.repository.view ledger) :
    (make setting (operation.on key) service).1 =
        operation.outcome setting.domain key (ledger key) ∧
      Mirrors (make setting (operation.on key) service).2.repository.view
        (Function.update ledger key (operation.effect setting.domain key (ledger key))) := by
  have hshows : Stage.Shows ledger service.queue service.stage := ⟨hmirrors, rfl⟩
  refine make_of_ensures (fun outcome repository =>
    outcome = operation.outcome setting.domain key (ledger key) ∧ Mirrors repository.view _) ?_
  cases operation with
  | append batch =>
    exact (hshows.ensures_perform setting.repositoryConfig 0 (.append key batch)).mono
      fun _ _ hlater => ⟨hlater.1, hlater.2.1⟩
  | markDelivered delivered =>
    exact (hshows.ensures_perform setting.repositoryConfig 0 (.markDelivered key delivered)).mono
      fun _ _ hlater => ⟨hlater.1, hlater.2.1⟩
  | listEvents after max =>
    have hsame : Function.update ledger key (ledger key) = ledger := Function.update_eq_self _ _
    refine (hshows.ensures_perform setting.repositoryConfig 0 (.listEvents key after max)).mono ?_
    rintro outcome later ⟨houtcome, hlater, -⟩
    exact ⟨houtcome, hsame.symm ▸ hlater⟩
  | process command =>
    exact (hshows.ensures_process setting (Stage.ofService setting) key command).mono
      fun _ _ hlater => ⟨hlater.1, hlater.2.1⟩

end LocalCall

/-- The repository stands for some ledger: no operation is under way. -/
def IsQuiet (stage : Stage E (Service E)) : Prop :=
  ∃ ledger, Mirrors stage.repository.view ledger

theorem IsQuiet.ensures_perform {stage : Stage E (Service E)} (hquiet : IsQuiet stage)
    (number : Nat) (operation : Repository.Call E) :
    (perform setting.repositoryConfig number operation).Ensures
      (Stage.handling (Stage.ofService setting)) (fun _ => IsQuiet) stage := by
  obtain ⟨ledger, hmirrors⟩ := hquiet
  have hshows : Stage.Shows ledger stage.queue stage := ⟨hmirrors, rfl⟩
  exact (hshows.ensures_perform setting.repositoryConfig number operation).mono
    fun _ _ hlater => ⟨_, hlater.2.1⟩

theorem IsQuiet.ensures_answerStore {stage : Stage E (Service E)} (hquiet : IsQuiet stage)
    (number : Nat) (request : Store.Request E) :
    (answerStore setting.repositoryConfig number request).Ensures
      (Stage.handling (Stage.ofService setting)) (fun _ => IsQuiet) stage := by
  cases request with
  | listEvents key => exact hquiet.ensures_perform number (.listEvents key 0 none)
  | appendEvents key batch => exact hquiet.ensures_perform number (.append key batch)
  | scheduleDelivery =>
    refine ⟨trivial, ?_⟩
    change IsQuiet (stage.answer (Stage.ofService setting) .scheduleDelivery).2
    unfold Stage.answer
    cases stage.queue.enqueue () <;> exact hquiet
  | reached checkpoint key => exact ⟨trivial, hquiet⟩
  | report record => exact ⟨trivial, hquiet⟩

/-- Whatever the store does, it comes to an end with no operation under way. -/
theorem IsQuiet.ensures_store {stage : Stage E (Service E)} (hquiet : IsQuiet stage) {α : Type}
    (operation : Store.Operation E α) :
    (operation.serve (answerStore setting.repositoryConfig) 0).Ensures
      (Stage.handling (Stage.ofService setting)) (fun _ => IsQuiet) stage := by
  have hserved : operation.Ensures
      (.serving (answerStore setting.repositoryConfig) (Stage.handling (Stage.ofService setting)))
      (fun _ => IsQuiet) stage :=
    Program.ensures_of_keeps (fun request state hstate number =>
      hstate.ensures_answerStore number request) operation hquiet
  exact hserved.serve 0

theorem IsQuiet.ensures_program {stage : Stage E (Service E)} (hquiet : IsQuiet stage)
    (call : Call Command E) :
    (call.program setting).Ensures (Stage.handling (Stage.ofService setting))
      (fun _ => IsQuiet) stage := by
  cases call with
  | process key command => exact Program.ensures_bind.2 (hquiet.ensures_store _)
  | aggregate key => exact Program.ensures_bind.2 (hquiet.ensures_store _)
  | drain token =>
    obtain ⟨ledger, hmirrors⟩ := hquiet
    have hkeeps : Stage.Keeps (fun key => (ledger key).events) stage.queue.isClosed stage :=
      ⟨⟨ledger, hmirrors, fun _ => rfl⟩, rfl⟩
    refine (hkeeps.ensures_drain token).mono ?_
    rintro outcome later ⟨⟨drained, hdrained, -⟩, -⟩
    exact ⟨drained, hdrained⟩
  | direct operation => exact hquiet.ensures_perform 0 operation
  | subscribe topic subscriber => exact ⟨trivial, hquiet⟩
  | cancel token => exact ⟨trivial, hquiet⟩
  | close => exact ⟨trivial, hquiet⟩

theorem exists_mirrors_make {ledger : Ledger E} (hmirrors : Mirrors service.repository.view ledger)
    (setting : Setting State Command E) (call : Call Command E) :
    ∃ later, Mirrors (make setting call service).2.repository.view later := by
  have hquiet : IsQuiet service.stage := ⟨ledger, hmirrors⟩
  exact make_of_ensures (fun _ repository => ∃ later, Mirrors repository.view later)
    (hquiet.ensures_program call)

theorem exists_mirrors_after (setting : Setting State Command E) (earlier : List (Call Command E)) :
    ∃ ledger, Mirrors (after setting earlier).repository.view ledger := by
  suffices h : ∀ service : Service E, (∃ ledger, Mirrors service.repository.view ledger) →
      ∃ ledger, Mirrors (earlier.foldl (fun service call => (make setting call service).2)
        service).repository.view ledger from h .empty ⟨.empty, .empty⟩
  induction earlier with
  | nil => exact fun _ hmirrors => hmirrors
  | cons call later ih =>
    rintro service ⟨ledger, hmirrors⟩
    exact ih _ (exists_mirrors_make hmirrors setting call)

/-- Two calls may as well change places: each is answered as it would be without the other one
before it, and what they leave is alike. -/
structure Interchangeable (setting : Setting State Command E) (service : Service E)
    (first second : Call Command E) : Prop where
  first_same : (make setting first (make setting second service).2).1 =
    (make setting first service).1
  second_same : (make setting second (make setting first service).2).1 =
    (make setting second service).1
  alike : Alike (make setting second (make setting first service).2).2.repository
    (make setting first (make setting second service).2).2.repository

/-- After any calls, one after the other, two operations on different aggregates may as well change
places, and neither of them touches the aggregate of the other, be they appends, deliveries,
listings or commands, with whatever arguments and outcomes. The aggregates may be of one type. -/
theorem operations_on_different_aggregates (setting : Setting State Command E)
    (earlier : List (Call Command E)) {one other : AggregateKey} (hne : one ≠ other)
    (first second : LocalCall Command E) :
    Interchangeable setting (after setting earlier) (first.on one) (second.on other) ∧
      Untouched other (after setting earlier).repository
        (make setting (first.on one) (after setting earlier)).2.repository ∧
      Untouched one (after setting earlier).repository
        (make setting (second.on other) (after setting earlier)).2.repository := by
  obtain ⟨ledger, hmirrors⟩ := exists_mirrors_after setting earlier
  obtain ⟨hfirst, honlyFirst⟩ := first.runs setting one hmirrors
  obtain ⟨hsecond, honlySecond⟩ := second.runs setting other hmirrors
  obtain ⟨hthen, hboth⟩ := second.runs setting other honlyFirst
  obtain ⟨hthenFirst, hbothSwapped⟩ := first.runs setting one honlySecond
  rw [Function.update_of_ne hne.symm] at hthen hboth
  rw [Function.update_of_ne hne] at hthenFirst hbothSwapped
  rw [Function.update_comm hne] at hboth
  refine ⟨⟨hthenFirst.trans hfirst.symm, hthen.trans hsecond.symm, hboth.alike hbothSwapped⟩,
    hmirrors.untouched honlyFirst ?_, hmirrors.untouched honlySecond ?_⟩
  · exact Function.update_of_ne hne.symm _ _
  · exact Function.update_of_ne hne _ _

/-- Two aggregates of one type get their first events, the one by an append and the other one by a
command. Both are in the index of their type then, and they would be the other way round. -/
theorem operations_on_different_aggregates_of_first_events :
    ∃ first second : LocalCall Nat Nat, ∃ service : Service Nat,
      service = (make sampleSetting (second.on sampleKey)
        (make sampleSetting (first.on emptyKey) .empty).2).2 ∧
      service.repository.view.ids sampleKey.type = [sampleKey.id, emptyKey.id] ∧
      Alike service.repository (make sampleSetting (first.on emptyKey)
        (make sampleSetting (second.on sampleKey) .empty).2).2.repository := by
  have hne : emptyKey ≠ sampleKey := by decide +kernel
  refine ⟨.append [⟨emptyKey, 1, 0, .nil⟩], .process 5, _, rfl, by decide +kernel, ?_⟩
  exact (operations_on_different_aggregates sampleSetting [] hne _ _).1.alike

end Service

end EventSourcing
