import EventSourcing.Proofs.Pipeline.Draining
import EventSourcing.Proofs.Pipeline.Processing
import EventSourcing.Proofs.Service.Reachable

namespace EventSourcing.Pipeline

open Repository

variable {State Command E α : Type} {setting : Service.Setting State Command E}
  {subscribers : List Nat} {ledger : Ledger E}

section Received

variable {subscriber : Nat} {key : AggregateKey} {received : List (Nat × RecordedEvent E)}

theorem receivedBy_eq (received : List (Nat × RecordedEvent E)) :
    receivedBy subscriber key received =
      (receptionsOf subscriber received).filter (·.key = key) := by
  rw [receivedBy, receptionsOf, List.filter_map, List.filter_filter]
  refine congrArg _ (List.filter_congr fun reception _ => ?_)
  simp [Bool.and_comm]

theorem receivedBy_append (received more : List (Nat × RecordedEvent E)) :
    receivedBy subscriber key (received ++ more) =
      receivedBy subscriber key received ++ receivedBy subscriber key more := by
  rw [receivedBy, List.filter_append, List.map_append]
  rfl

theorem receivedBy_prefix {later : List (Nat × RecordedEvent E)} (h : received <+: later)
    (subscriber : Nat) (key : AggregateKey) :
    receivedBy subscriber key received <+: receivedBy subscriber key later :=
  (h.filter _).map _

/-- A listing holds what is pending of an account in one place. -/
private theorem flatMap_listing {listing : List (UndeliveredEvents E)}
    (hlists : ledger.Lists listing) (key : AggregateKey) :
    (listing.flatMap fun undelivered => if undelivered.key = key then undelivered.events else []) =
      (ledger key).pending := by
  by_cases hlisted : ∃ undelivered ∈ listing, undelivered.key = key
  · obtain ⟨undelivered, hmem, rfl⟩ := hlisted
    rw [← ((hlists.mem_iff undelivered).1 hmem).1]
    obtain ⟨before, after, rfl⟩ := List.append_of_mem hmem
    have hnodup := hlists.nodup
    rw [List.map_append, List.map_cons, List.nodup_append, List.nodup_cons] at hnodup
    obtain ⟨-, ⟨hafter, -⟩, hbefore⟩ := hnodup
    have hnone : ∀ others : List (UndeliveredEvents E),
        (∀ other ∈ others, other.key ≠ undelivered.key) →
          (others.flatMap fun other => if other.key = undelivered.key then other.events else []) =
            [] :=
      fun others hothers => List.flatMap_eq_nil_iff.2 fun other h => if_neg (hothers other h)
    rw [List.flatMap_append, List.flatMap_cons, if_pos rfl, hnone before, hnone after,
      List.nil_append, List.append_nil]
    · intro other hother heq
      exact hafter (heq ▸ List.mem_map_of_mem hother)
    · intro other hother
      exact hbefore _ (List.mem_map_of_mem hother) _ List.mem_cons_self
  · have hpending : (ledger key).pending = [] := by
      refine Classical.byContradiction fun hne => hlisted ⟨⟨key, (ledger key).pending⟩, ?_, rfl⟩
      exact (hlists.mem_iff _).2 ⟨rfl, hne⟩
    rw [hpending]
    refine List.flatMap_eq_nil_iff.2 fun undelivered hmem => if_neg fun h => ?_
    exact hlisted ⟨undelivered, hmem, h⟩

/-- When all that is listed is handed out, each subscriber gets what is pending of an account. -/
theorem receivedBy_handedAll (hnodup : subscribers.Nodup) (hsubscriber : subscriber ∈ subscribers)
    {listing : List (UndeliveredEvents E)} (hlists : ledger.Lists listing)
    (hsound : ∀ key, (ledger key).IsSound key) :
    receivedBy subscriber key (handedAll subscribers listing) = (ledger key).pending := by
  rw [receivedBy_eq, receptionsOf_handedAll hnodup hsubscriber, ← flatMap_listing hlists key,
    List.filter_flatMap]
  refine List.flatMap_congr fun undelivered hmem => ?_
  have hbelongs := belongs_of_lists hlists hsound undelivered hmem
  split
  · next hkey =>
    exact List.filter_eq_self.2 fun event hevent => by simp [hbelongs event hevent, hkey]
  · next hkey =>
    exact List.filter_eq_nil_iff.2 fun event hevent => by simp [hbelongs event hevent, hkey]

end Received

/-- Subscribers accept every event. -/
def accepting : Nat → RecordedEvent E → Except String Unit :=
  fun _ _ => .ok ()

theorem acceptedKeys_accepting (subscribers : List Nat) (listing : List (UndeliveredEvents E)) :
    acceptedKeys accepting subscribers listing = listing.map (·.key) := by
  have haccepted : ∀ events : List (RecordedEvent E),
      isAccepted accepting subscribers events = true := by
    simp [isAccepted, accepting, Except.isOk, Except.toBool]
  simp [acceptedKeys, haccepted]

/-- A drain leaves nothing pending if everything is accepted. -/
theorem drained_of_lists {listing : List (UndeliveredEvents E)} (hlists : ledger.Lists listing)
    (hsound : ∀ key, (ledger key).IsSound key) (subscribers : List Nat) :
    listing.foldl (settled accepting subscribers) ledger = fun key => drained (ledger key) := by
  funext key
  have hle := (hsound key).watermark_le
  rw [foldl_settled listing fun key => (hsound key).watermark_le, acceptedKeys_accepting]
  split
  · rfl
  · next hunlisted =>
    have hpending : (ledger key).pending = [] := by
      refine Classical.byContradiction fun hne => hunlisted (List.mem_map.2 ?_)
      exact ⟨⟨key, (ledger key).pending⟩, (hlists.mem_iff _).2 ⟨rfl, hne⟩, rfl⟩
    have htail : (ledger key).tail ≤ (ledger key).watermark := List.drop_eq_nil_iff.1 hpending
    rw [drained, ← Nat.le_antisymm hle htail]

/-- All that is delivered of an account has been received by each subscriber, and nothing else. -/
structure Tracks (subscribers : List Nat) (ledger : Ledger E) (pipeline : Pipeline E) : Prop where
  shows : Shows .univ subscribers ledger pipeline.service.queue pipeline.received pipeline
  isOpen : pipeline.service.queue.isClosed = false
  received : ∀ subscriber ∈ subscribers, ∀ key, receivedBy subscriber key pipeline.received =
    (ledger key).events.take (ledger key).watermark

/-- What is true between two steps: a drain is to come as long as something is pending. -/
structure Ready (subscribers : List Nat) (ledger : Ledger E) (pipeline : Pipeline E) : Prop
    extends Tracks subscribers ledger pipeline where
  queued : pipeline.service.queue.items = [] → ∀ key, (ledger key).pending = []

/-- What a step makes of a pipeline. Nothing is delivered in it that has not been there before. -/
def Advances (subscribers : List Nat) (ledger : Ledger E) (later : Pipeline E) : Prop :=
  ∃ next, Ready subscribers next later ∧ ledger.Grows next ∧
    ∀ key, (next key).events.take (next key).watermark <+: (ledger key).events

variable {pipeline : Pipeline E}

theorem subscriptions_foldl_subscribe (subscribers : List Nat)
    (pubSub : PubSub Service.Topic Nat) :
    (subscribers.foldl (fun pubSub => pubSub.subscribe .events) pubSub).subscriptions .events =
      pubSub.subscriptions .events ++
        subscribers.map fun subscriber => ⟨.events, subscriber⟩ := by
  induction subscribers generalizing pubSub with
  | nil => simp
  | cons subscriber rest ih =>
    rw [List.foldl_cons, ih, PubSub.subscriptions_subscribe, if_pos rfl]
    simp

theorem ready_start (subscribers : List Nat) :
    Ready subscribers .empty (start subscribers : Pipeline E) where
  shows :=
    ⟨.empty, subscriptions_foldl_subscribe subscribers .empty, fun _ _ => rfl, rfl, rfl⟩
  isOpen := rfl
  received _ _ _ := rfl
  queued _ _ := rfl

theorem Ready.advances (hready : Ready subscribers ledger pipeline) :
    Advances subscribers ledger pipeline :=
  ⟨ledger, hready, .refl ledger, fun _ => List.take_prefix _ _⟩

theorem Advances.holds (hadvances : Advances subscribers ledger pipeline) :
    Holds ledger pipeline := by
  obtain ⟨next, hready, hgrows, -⟩ := hadvances
  exact hready.shows.holds hgrows

/-- More events are more to deliver, but nothing is delivered by that. -/
theorem take_watermark_append (hle : ∀ key, (ledger key).watermark ≤ (ledger key).tail)
    (key : AggregateKey) (batch : List (RecordedEvent E)) (other : AggregateKey) :
    (ledger.apply (.append key batch) other).events.take
        (ledger.apply (.append key batch) other).watermark =
      (ledger other).events.take (ledger other).watermark := by
  refine (Function.forall_update_iff ledger fun other account =>
    account.events.take account.watermark =
      (ledger other).events.take (ledger other).watermark).2 ⟨?_, fun _ _ => rfl⟩ other
  unfold Account.append
  split
  · exact List.take_append_of_le_length (hle key)
  · rfl

theorem Ready.ensures_process (hready : Ready subscribers ledger pipeline)
    (hdelivers : setting.delivers = true) (key : AggregateKey) (command : Command) :
    (Service.Call.program setting (.process key command)).Ensures (handling setting ledger)
      (fun _ later => Advances subscribers ledger later) pipeline := by
  have htake := take_watermark_append fun key => (hready.shows.mirrors.sound key).watermark_le
  refine (hready.shows.ensures_process (.refl ledger) key command).mono ?_
  rintro outcome later ⟨-, hlater⟩
  generalize Store.newEvents _ = newEvents at hlater
  rw [Becomes, hdelivers, Bool.true_and] at hlater
  refine ⟨_, ⟨⟨{ hlater with queue := rfl, received := rfl }, ?_, ?_⟩, ?_⟩,
    ledger.grows_apply _, fun other => ?_⟩
  · rw [hlater.queue]
    split
    · exact congrArg TaskQueue.isClosed (TaskQueue.offered_of_open hready.isOpen)
    · exact hready.isOpen
  · intro subscriber hsubscriber other
    rw [hlater.received, hready.received subscriber hsubscriber other, htake]
  · rw [hlater.queue]
    cases newEvents with
    | nil =>
      rw [ledger.apply_append_nil]
      exact hready.queued
    | cons first rest =>
      rw [List.isEmpty_cons, Bool.not_false, if_pos rfl, TaskQueue.offered_of_open hready.isOpen]
      simp
  · rw [htake]
    exact List.take_prefix _ _

theorem Tracks.ensures_drain (htracks : Tracks subscribers ledger pipeline)
    (hnodup : subscribers.Nodup) (haccepts : Decided setting subscribers accepting)
    (token : CancellationToken) :
    (Service.Call.program setting (.drain token)).Ensures (handling setting ledger)
      (fun _ later => Advances subscribers ledger later) pipeline := by
  have hsound := htracks.shows.mirrors.sound
  refine (htracks.shows.ensures_drain (.refl ledger) haccepts trivial).mono ?_
  rintro outcome later ⟨listing, -, hlists, -, hlater⟩
  rw [drained_of_lists hlists hsound] at hlater
  refine ⟨_, ⟨⟨{ hlater with queue := rfl, received := rfl }, ?_, ?_⟩, ?_⟩,
    fun _ => List.prefix_rfl, fun _ => List.take_prefix _ _⟩
  · rw [hlater.queue, htracks.isOpen]
  · intro subscriber hsubscriber key
    have hhanded : receivedBy subscriber key (handedAll subscribers listing) =
        (ledger key).pending := receivedBy_handedAll hnodup hsubscriber hlists hsound
    rw [handedAll] at hhanded
    rw [hlater.received, receivedBy_append, htracks.received subscriber hsubscriber, hhanded]
    exact (List.take_append_drop _ _).trans (List.take_length.symm)
  · exact fun _ key => List.drop_length

theorem ensures_onService {always : Pipeline E → Prop} {post : α → Pipeline E → Prop}
    {program : Service.Operation E α}
    (h : program.Ensures (.answering (answerService setting) always) post pipeline) :
    (onService program).Ensures (.answering (answer setting) always) post pipeline := by
  induction program generalizing pipeline with
  | done value => exact h
  | ask request next ih => exact ⟨h.1, ih _ h.2⟩

/-- The worker takes the front item of the queue, if there is one. -/
theorem Ready.answer_take (hready : Ready subscribers ledger pipeline) (token : CancellationToken) :
    answer setting pipeline (.take token) =
      match pipeline.service.queue.items with
      | [] => (.notYet, pipeline)
      | item :: rest => (.item item, pipeline.withQueue ⟨rest, false⟩) := by
  have hdequeue : pipeline.service.queue.dequeue
      (pipeline.service.cancellations.isCancelled token) =
        match pipeline.service.queue.items with
        | [] => (.notYet, pipeline.service.queue)
        | item :: rest => (.item item, ⟨rest, false⟩) := by
    rw [hready.shows.uncancelled token trivial, TaskQueue.dequeue, if_neg Bool.false_ne_true,
      hready.isOpen]
    cases pipeline.service.queue.items <;> rfl
  rw [answer, hdequeue]
  cases pipeline.service.queue.items <;> rfl

theorem Ready.ensures_step (hready : Ready subscribers ledger pipeline)
    (hdelivers : setting.delivers = true) (hnodup : subscribers.Nodup)
    (haccepts : Decided setting subscribers accepting) (step : Step Command) :
    (step.program setting).Ensures (.answering (answer setting) (Holds ledger))
      (fun _ later => Advances subscribers ledger later) pipeline := by
  cases step with
  | process key command =>
    exact Program.ensures_bind.2
      ((ensures_onService (hready.ensures_process hdelivers key command)).mono fun _ _ h => h)
  | work token =>
    refine ⟨hready.shows.holds (.refl ledger), ?_⟩
    change Program.Ensures _ _ (Program.bind (.done (answer setting pipeline (.take token)).1) _)
      (answer setting pipeline (.take token)).2
    rw [hready.answer_take token]
    cases hitems : pipeline.service.queue.items with
    | nil => exact hready.advances
    | cons item rest =>
      have htracks : Tracks subscribers ledger (pipeline.withQueue ⟨rest, false⟩) :=
        ⟨{ hready.shows with queue := rfl, received := rfl }, rfl, hready.received⟩
      have hitem : (Pipeline.item setting token).Ensures (handling setting ledger)
          (fun _ later => Advances subscribers ledger later)
            (pipeline.withQueue ⟨rest, false⟩) := by
        refine Program.ensures_bind.2 ((htracks.ensures_drain hnodup haccepts token).mono ?_)
        rintro (error | _) later hlater <;> exact hlater
      change Program.Ensures _ _ (((onService (Pipeline.item setting token) >>= _) >>= _) >>= _)
        (pipeline.withQueue ⟨rest, false⟩)
      refine Program.ensures_bind.2 (Program.ensures_bind.2 (Program.ensures_bind.2 ?_))
      refine (ensures_onService hitem).mono ?_
      rintro (text | _) later hlater
      · exact ⟨hlater.holds, hlater⟩
      · exact hlater

theorem exists_ready_after (hdelivers : setting.delivers = true) (hnodup : subscribers.Nodup)
    (haccepts : Decided setting subscribers accepting) (steps : List (Step Command)) :
    ∃ ledger, Ready subscribers ledger (after setting subscribers steps) := by
  suffices h : ∀ (ledger : Ledger E) (pipeline : Pipeline E), Ready subscribers ledger pipeline →
      ∃ next, Ready subscribers next (steps.foldl (fun pipeline step =>
        ((step.program setting).alone (answer setting) pipeline).2) pipeline) from
    h .empty _ (ready_start subscribers)
  induction steps with
  | nil => exact fun ledger _ hready => ⟨ledger, hready⟩
  | cons step rest ih =>
    intro ledger pipeline hready
    obtain ⟨next, hnext, -⟩ := (hready.ensures_step hdelivers hnodup haccepts step).alone
    exact ih next _ hnext

theorem prefix_answer (setting : Service.Setting State Command E) (pipeline : Pipeline E)
    (request : Request E) :
    pipeline.received <+: (answer setting pipeline request).2.received := by
  cases request with
  | take token => exact List.prefix_rfl
  | service request =>
    cases request with
    | hand subscriber event => exact List.prefix_append _ _
    | _ => exact List.prefix_rfl

/-- Whatever steps have been taken, one after the other, and at every moment of the next one: what a
subscriber has received of an aggregate is the beginning of its log, in order, without gap and
without repetition. Between two steps, if the queue is empty, it is the whole log, and nothing is
listed as undelivered. -/
theorem received_exactly_once (hdelivers : setting.delivers = true) (hnodup : subscribers.Nodup)
    (haccepts : ∀ time, ∀ subscriber ∈ subscribers, ∀ event,
      setting.verdict time subscriber event = .ok ()) (steps : List (Step Command)) :
    (∀ next : Step Command, (next.program setting).Throughout (answer setting) (fun moment =>
      ∀ subscriber ∈ subscribers, ∀ key,
        receivedBy subscriber key moment.received <+: moment.service.logOf key)
      (after setting subscribers steps)) ∧
    ((after setting subscribers steps).service.queue.items = [] →
      (∀ subscriber ∈ subscribers, ∀ key,
        receivedBy subscriber key (after setting subscribers steps).received =
          (after setting subscribers steps).service.logOf key) ∧
      (runAlone (listUndelivered none) (after setting subscribers steps).service.repository).1 =
        .ok []) := by
  obtain ⟨ledger, hready⟩ := exists_ready_after hdelivers hnodup haccepts steps
  have hmirrors := hready.shows.mirrors
  refine ⟨fun next => ?_, fun hempty => ⟨fun subscriber hsubscriber key => ?_, ?_⟩⟩
  · have hstep := hready.ensures_step hdelivers hnodup haccepts next
    obtain ⟨later, hlater, -, hdelivered⟩ := hstep.alone
    have hbetween := Program.throughout_prefix Pipeline.received (prefix_answer setting)
      (next.program setting) (after setting subscribers steps)
    refine ((hstep.throughout fun _ _ h => h.holds).and hbetween).mono ?_
    rintro moment ⟨hholds, -, hprefix⟩ subscriber hsubscriber key
    have hreceived := receivedBy_prefix hprefix subscriber key
    rw [hlater.received subscriber hsubscriber key] at hreceived
    exact (hreceived.trans (hdelivered key)).trans (hholds key)
  · have hle : (ledger key).events.length ≤ (ledger key).watermark :=
      List.drop_eq_nil_iff.1 (hready.queued hempty key)
    rw [hready.received subscriber hsubscriber key, List.take_of_length_le hle]
    exact (hmirrors.events key).symm
  · obtain ⟨listing, hlists, hanswer⟩ :=
      (hmirrors.call setting.repositoryConfig (.listUndelivered none)).1
    have hnone : listing = [] := by
      refine List.eq_nil_iff_forall_not_mem.2 fun undelivered hmem => ?_
      obtain ⟨hevents, hne⟩ := (hlists.mem_iff undelivered).1 hmem
      exact hne (hevents.trans (hready.queued hempty _))
    rw [hnone] at hanswer
    exact hanswer

/-- Two commands are processed, and then the two items are run that wait. -/
def sampleSteps : List (Step Nat) :=
  [.process Service.sampleKey 5, .process Service.sampleKey 7, .work ⟨0⟩, .work ⟨1⟩]

def samplePipeline : Pipeline Nat :=
  after Service.sampleSetting [0, 1] sampleSteps

theorem received_exactly_once_of_sampleSteps :
    samplePipeline.service.queue.items = [] ∧
    (samplePipeline.service.logOf Service.sampleKey).length = 4 ∧
    (∀ subscriber ∈ [0, 1], ∀ key,
      receivedBy subscriber key samplePipeline.received = samplePipeline.service.logOf key) ∧
    (runAlone (listUndelivered none) samplePipeline.service.repository).1 = .ok [] := by
  have hempty : samplePipeline.service.queue.items = [] ∧
      (samplePipeline.service.logOf Service.sampleKey).length = 4 := by decide +kernel
  have hdelivers : Service.sampleSetting.delivers = true := rfl
  have hnodup : [0, 1].Nodup := by decide
  have hall := received_exactly_once hdelivers hnodup (fun _ _ _ _ => rfl) sampleSteps
  exact ⟨hempty.1, hempty.2, hall.2 hempty.1⟩

end EventSourcing.Pipeline
