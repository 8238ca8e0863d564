import EventSourcing.Proofs.Pipeline.Showing
import Mathlib.Data.List.Nodup

namespace EventSourcing.Pipeline

open Repository

variable {State Command E : Type} {setting : Service.Setting State Command E}
  {pipeline : Pipeline E} {live : Set CancellationToken} {token : CancellationToken}
  {subscribers : List Nat} {base ledger : Ledger E} {queue : TaskQueue Unit}
  {received : List (Nat × RecordedEvent E)}
  {accepts : Nat → RecordedEvent E → Except String Unit}

/-- Some subscribers always say the same of an event. -/
def Decided (setting : Service.Setting State Command E) (subscribers : List Nat)
    (accepts : Nat → RecordedEvent E → Except String Unit) : Prop :=
  ∀ time, ∀ subscriber ∈ subscribers, ∀ event,
    setting.verdict time subscriber event = accepts subscriber event

/-- What becomes of the publishing of an event. -/
def published (accepts : Nat → RecordedEvent E → Except String Unit) (subscribers : List Nat)
    (event : RecordedEvent E) : Except PublishError Unit :=
  match failures (subscribers.map fun subscriber => (subscriber, accepts subscriber event)) with
  | [] => .ok ()
  | failures => .error ⟨failures⟩

/-- An event is handed to some subscribers, one after the other. -/
def handed (subscribers : List Nat) (event : RecordedEvent E) : List (Nat × RecordedEvent E) :=
  subscribers.map fun subscriber => (subscriber, event)

theorem Shows.ensures_receive (hshows : Shows live subscribers ledger queue received pipeline)
    (hgrows : base.Grows ledger) (hdecided : Decided setting subscribers accepts) {subscriber : Nat}
    (hsubscriber : subscriber ∈ subscribers) (event : RecordedEvent E) :
    (Service.receive subscriber event).Ensures (handling setting base) (fun outcome later =>
      outcome = accepts subscriber event ∧
        Shows live subscribers ledger queue (received ++ [(subscriber, event)]) later)
      pipeline := by
  have hreceived : Shows live subscribers ledger queue (received ++ [(subscriber, event)])
      (answerService setting pipeline (.hand subscriber event)).2 :=
    { hshows with received := congrArg (· ++ [(subscriber, event)]) hshows.received }
  refine ⟨hshows.holds hgrows, hreceived.holds hgrows, hdecided _ _ hsubscriber event, ?_⟩
  exact { hreceived with }

theorem Shows.ensures_publish (hshows : Shows live subscribers ledger queue received pipeline)
    (hgrows : base.Grows ledger) (hdecided : Decided setting subscribers accepts)
    (event : RecordedEvent E) :
    (Service.publish event).Ensures (handling setting base) (fun outcome later =>
      outcome = published accepts subscribers event ∧
        Shows live subscribers ledger queue (received ++ handed subscribers event) later)
      pipeline := by
  refine ⟨hshows.holds hgrows, ?_⟩
  change Program.Ensures _ _ (PubSub.publish (fun _ => Service.Topic.events) Service.receive
    pipeline.service.pubSub event) pipeline
  rw [PubSub.publish, hshows.subscriptions, PubSub.publishTo, Program.ensures_bind]
  -- What has been handed out and what is still to be make the same at any time.
  refine (Program.ensures_forEachCollectingFrom
    (fun (rest : List (Subscription Service.Topic Nat)) later =>
      (∀ subscription ∈ rest, subscription.topic = .events ∧
        subscription.subscriber ∈ subscribers) ∧
      ∃ done, Shows live subscribers ledger queue done later ∧
        done ++ handed (rest.map (·.subscriber)) event = received ++ handed subscribers event)
    (fun subscription => accepts subscription.subscriber event) ?_ ?_ [] ?_).mono ?_
  · exact fun _ _ hinv => ⟨rfl, hinv⟩
  · rintro subscription rest state ⟨hrest, done, hstate, hdone⟩
    obtain ⟨htopic, hsubscriber⟩ := hrest _ List.mem_cons_self
    rw [PubSub.hand, if_pos htopic]
    refine (hstate.ensures_receive hgrows hdecided hsubscriber event).mono ?_
    rintro outcome later ⟨rfl, hlater⟩
    refine ⟨rfl, fun other hother => hrest other (List.mem_cons_of_mem _ hother), _, hlater, ?_⟩
    rw [← hdone]
    simp [handed]
  · refine ⟨?_, received, hshows, ?_⟩
    · simp
    · simp [handed, Function.comp_def]
  · rintro outcome later ⟨rfl, -, done, hlater, hdone⟩
    rw [List.map_nil, handed, List.map_nil, List.append_nil] at hdone
    subst hdone
    have hfailures := failures_map (fun subscription : Subscription Service.Topic Nat =>
      accepts subscription.subscriber event) (fun subscriber => ⟨.events, subscriber⟩) subscribers
    rw [List.nil_append, hfailures, published]
    generalize failures (subscribers.map _) = refusals
    cases refusals <;> exact ⟨rfl, hlater⟩

/-- Requests of a drain are answered by the parts of the service. -/
def deliveryHandling (setting : Service.Setting State Command E) (token : CancellationToken)
    (base : Ledger E) : Handling (Delivery.Request E) Delivery.Request.Reply (Pipeline E) :=
  .serving (Service.answerDelivery setting.repositoryConfig token) (handling setting base)

theorem Shows.ensures_isCancelled (hshows : Shows live subscribers ledger queue received pipeline)
    (hgrows : base.Grows ledger) (hlive : token ∈ live) :
    (Delivery.ask .isCancelled).Ensures (deliveryHandling setting token base) (fun found later =>
      found = false ∧ later = pipeline) pipeline :=
  fun _ => ⟨hshows.holds hgrows, hshows.uncancelled token hlive, rfl⟩

/-- The failures of the publishing of some events. -/
def refusals (accepts : Nat → RecordedEvent E → Except String Unit) (subscribers : List Nat)
    (events : List (RecordedEvent E)) : List PublishError :=
  failures (events.map fun event => (event, published accepts subscribers event))

theorem Shows.ensures_publishAll (hshows : Shows live subscribers ledger queue received pipeline)
    (hgrows : base.Grows ledger) (hdecided : Decided setting subscribers accepts)
    (hlive : token ∈ live) (events : List (RecordedEvent E)) :
    (forEachCollecting (Delivery.ask .isCancelled) (fun event => Delivery.ask (.publish event))
      events).Ensures (deliveryHandling setting token base) (fun outcome later =>
        outcome = conclusion (refusals accepts subscribers events) ∧
          Shows live subscribers ledger queue
            (received ++ events.flatMap (handed subscribers)) later) pipeline := by
  refine (Program.ensures_forEachCollectingFrom
    (fun rest later => ∃ done, Shows live subscribers ledger queue done later ∧
      done ++ rest.flatMap (handed subscribers) = received ++ events.flatMap (handed subscribers))
    (published accepts subscribers) ?_ ?_ [] ⟨received, hshows, rfl⟩).mono ?_
  · rintro rest state ⟨done, hstate, hdone⟩
    refine (hstate.ensures_isCancelled hgrows hlive).mono ?_
    rintro found later ⟨rfl, rfl⟩
    exact ⟨rfl, done, hstate, hdone⟩
  · rintro event rest state ⟨done, hstate, hdone⟩
    refine fun number => (hstate.ensures_publish hgrows hdecided event).mono ?_
    rintro outcome later ⟨rfl, hlater⟩
    refine ⟨rfl, _, hlater, ?_⟩
    rw [List.append_assoc, ← List.flatMap_cons]
    exact hdone
  · rintro outcome later ⟨rfl, done, hlater, hdone⟩
    rw [List.flatMap_nil, List.append_nil] at hdone
    exact ⟨rfl, hdone ▸ hlater⟩

/-- All subscribers accept all of some events. -/
def isAccepted (accepts : Nat → RecordedEvent E → Except String Unit) (subscribers : List Nat)
    (events : List (RecordedEvent E)) : Bool :=
  events.all fun event => subscribers.all fun subscriber => (accepts subscriber event).isOk

theorem refusals_eq_nil_iff {events : List (RecordedEvent E)} :
    refusals accepts subscribers events = [] ↔ isAccepted accepts subscribers events = true := by
  rw [refusals, failures_eq_nil_iff, List.forall_mem_map, isAccepted, List.all_eq_true]
  refine forall₂_congr fun event _ => ?_
  rw [published, List.all_eq_true]
  have hfailures : failures (subscribers.map fun subscriber =>
      (subscriber, accepts subscriber event)) = [] ↔
        ∀ subscriber ∈ subscribers, (accepts subscriber event).isOk = true :=
    failures_eq_nil_iff.trans List.forall_mem_map
  rw [← hfailures]
  split
  · next hnone => exact iff_of_true rfl hnone
  · next hsome => exact iff_of_false nofun hsome

/-- What becomes of the delivery of an aggregate. -/
def delivered (accepts : Nat → RecordedEvent E → Except String Unit) (subscribers : List Nat)
    (undelivered : UndeliveredEvents E) : Except DeliveryError Unit :=
  match refusals accepts subscribers undelivered.events with
  | [] => .ok ()
  | failures => .error (.publish undelivered.key failures)

/-- The ledger when an aggregate has been delivered, as far as it was accepted. -/
def settled (accepts : Nat → RecordedEvent E → Except String Unit) (subscribers : List Nat)
    (ledger : Ledger E) (undelivered : UndeliveredEvents E) : Ledger E :=
  if refusals accepts subscribers undelivered.events = [] then
    ledger.apply (.markDelivered undelivered.key (ledger undelivered.key).tail)
  else ledger

theorem Shows.ensures_deliver (hshows : Shows live subscribers ledger queue received pipeline)
    (hgrows : base.Grows ledger) (hdecided : Decided setting subscribers accepts)
    (hlive : token ∈ live) {undelivered : UndeliveredEvents E}
    (hlast : undelivered.lastSequenceId? = some (ledger undelivered.key).tail) :
    (Delivery.deliver undelivered).Ensures (deliveryHandling setting token base)
      (fun outcome later => outcome = delivered accepts subscribers undelivered ∧
        Shows live subscribers (settled accepts subscribers ledger undelivered) queue
          (received ++ undelivered.events.flatMap (handed subscribers)) later) pipeline := by
  rw [Delivery.deliver, hlast]
  refine Program.ensures_bind.2
    ((hshows.ensures_publishAll hgrows hdecided hlive undelivered.events).mono ?_)
  rintro outcome publishedState ⟨rfl, hpublished⟩
  unfold delivered settled
  cases refusals accepts subscribers undelivered.events with
  | cons failure failures => exact ⟨rfl, hpublished⟩
  | nil =>
    rw [if_pos rfl]
    refine fun number => (hpublished.ensures_perform hgrows number (.markDelivered _ _)).mono ?_
    rintro outcome later ⟨⟨hanswers, -⟩, hlater, -⟩
    rw [Ledger.Answers, Account.markAnswer, if_neg (Nat.lt_irrefl _)] at hanswers
    subst hanswers
    exact ⟨rfl, hlater⟩

section Received

variable {subscriber : Nat}

/-- What a subscriber has received, in the order in which it came. -/
def receptionsOf (subscriber : Nat) (received : List (Nat × RecordedEvent E)) :
    List (RecordedEvent E) :=
  (received.filter fun reception => reception.1 = subscriber).map (·.2)

theorem receptionsOf_append (received more : List (Nat × RecordedEvent E)) :
    receptionsOf subscriber (received ++ more) =
      receptionsOf subscriber received ++ receptionsOf subscriber more := by
  rw [receptionsOf, List.filter_append, List.map_append]
  rfl

theorem receptionsOf_flatMap {α : Type} (items : List α)
    (out : α → List (Nat × RecordedEvent E)) :
    receptionsOf subscriber (items.flatMap out) =
      items.flatMap fun item => receptionsOf subscriber (out item) := by
  induction items with
  | nil => rfl
  | cons item rest ih => rw [List.flatMap_cons, receptionsOf_append, ih, List.flatMap_cons]

/-- Each subscriber gets an event that is handed out once. -/
theorem receptionsOf_handed (hnodup : subscribers.Nodup) (hsubscriber : subscriber ∈ subscribers)
    (event : RecordedEvent E) : receptionsOf subscriber (handed subscribers event) = [event] := by
  have hone : subscribers.filter (· = subscriber) = [subscriber] := by
    rw [List.filter_eq, List.count_eq_one_of_mem hnodup hsubscriber]
    rfl
  rw [receptionsOf, handed, List.filter_map, List.map_map]
  exact congrArg (List.map fun _ => event) hone

/-- What a drain hands out. -/
def handedAll (subscribers : List Nat) (listing : List (UndeliveredEvents E)) :
    List (Nat × RecordedEvent E) :=
  listing.flatMap fun undelivered => undelivered.events.flatMap (handed subscribers)

theorem receptionsOf_handedAll (hnodup : subscribers.Nodup) (hsubscriber : subscriber ∈ subscribers)
    (listing : List (UndeliveredEvents E)) :
    receptionsOf subscriber (handedAll subscribers listing) = listing.flatMap (·.events) := by
  rw [handedAll, receptionsOf_flatMap]
  refine List.flatMap_congr fun undelivered _ => ?_
  rw [receptionsOf_flatMap,
    List.flatMap_congr fun event _ => receptionsOf_handed hnodup hsubscriber event,
    List.flatMap_singleton']

end Received

theorem events_settled (ledger : Ledger E) (undelivered : UndeliveredEvents E)
    (key : AggregateKey) :
    (settled accepts subscribers ledger undelivered key).events = (ledger key).events := by
  unfold settled
  split
  · exact ledger.events_apply_markDelivered _ _ key
  · rfl

/-- An account all of which has been delivered. -/
def drained (account : Account E) : Account E :=
  ⟨account.events, account.tail⟩

theorem settled_eq (undelivered : UndeliveredEvents E)
    (hle : (ledger undelivered.key).watermark ≤ (ledger undelivered.key).tail) :
    settled accepts subscribers ledger undelivered =
      if isAccepted accepts subscribers undelivered.events then
        Function.update ledger undelivered.key (drained (ledger undelivered.key))
      else ledger := by
  rw [settled, if_congr refusals_eq_nil_iff rfl rfl, Ledger.apply, Account.mark,
    if_neg (Nat.lt_irrefl _), Nat.max_eq_right hle, drained]

/-- The keys of what is listed and accepted. -/
def acceptedKeys (accepts : Nat → RecordedEvent E → Except String Unit) (subscribers : List Nat)
    (listing : List (UndeliveredEvents E)) : List AggregateKey :=
  (listing.filter fun undelivered => isAccepted accepts subscribers undelivered.events).map (·.key)

/-- The accounts that have been visited and accepted are delivered, and the others are left as they
were. -/
theorem foldl_settled (listing : List (UndeliveredEvents E))
    (hle : ∀ key, (ledger key).watermark ≤ (ledger key).tail) (key : AggregateKey) :
    listing.foldl (settled accepts subscribers) ledger key =
      if key ∈ acceptedKeys accepts subscribers listing then drained (ledger key)
      else ledger key := by
  induction listing generalizing ledger with
  | nil => rfl
  | cons undelivered rest ih =>
    rw [List.foldl_cons, settled_eq undelivered (hle _), acceptedKeys]
    cases haccepted : isAccepted accepts subscribers undelivered.events with
    | false =>
      rw [List.filter_cons_of_neg (by simp [haccepted])]
      exact ih hle
    | true =>
      have hle' : ∀ key, (Function.update ledger undelivered.key
          (drained (ledger undelivered.key)) key).watermark ≤
            (Function.update ledger undelivered.key (drained (ledger undelivered.key)) key).tail :=
        (Function.forall_update_iff ledger fun _ account => account.watermark ≤ account.tail).2
          ⟨Nat.le_refl _, fun other _ => hle other⟩
      rw [if_pos rfl, ih hle', List.filter_cons_of_pos (by simp [haccepted]), List.map_cons]
      by_cases hkey : key = undelivered.key
      · subst hkey
        simp [drained, Account.tail]
      · rw [Function.update_of_ne hkey]
        exact if_congr (List.mem_cons.trans (or_iff_right hkey)).symm rfl rfl

/-- What is listed of an account belongs to it. -/
theorem belongs_of_lists {listing : List (UndeliveredEvents E)} (hlists : ledger.Lists listing)
    (hsound : ∀ key, (ledger key).IsSound key) :
    ∀ undelivered ∈ listing, ∀ event ∈ undelivered.events, event.key = undelivered.key := by
  intro undelivered hmem event hevent
  rw [((hlists.mem_iff undelivered).1 hmem).1] at hevent
  exact (hsound undelivered.key).belongs event (List.mem_of_mem_drop hevent)

/-- What is listed of an account comes in ascending order. -/
theorem ascending_of_lists {listing : List (UndeliveredEvents E)} (hlists : ledger.Lists listing)
    (hsound : ∀ key, (ledger key).IsSound key) :
    ∀ undelivered ∈ listing, (undelivered.events.map (·.sequenceId)).Pairwise (· < ·) := by
  intro undelivered hmem
  rw [((hlists.mem_iff undelivered).1 hmem).1, Account.pending, List.map_drop,
    (hsound undelivered.key).positions]
  exact List.Pairwise.drop List.pairwise_lt_range'

/-- What is listed of an account ends with its last event. -/
theorem lastSequenceId?_of_lists {listing : List (UndeliveredEvents E)}
    (hlists : ledger.Lists listing) (hsound : ∀ key, (ledger key).IsSound key) :
    ∀ undelivered ∈ listing,
      undelivered.lastSequenceId? = some (ledger undelivered.key).tail := by
  intro undelivered hmem
  obtain ⟨hevents, hne⟩ := (hlists.mem_iff undelivered).1 hmem
  rw [Account.pending] at hevents
  have hlt : (ledger undelivered.key).watermark < (ledger undelivered.key).events.length := by
    refine Nat.lt_of_not_le fun hle => hne ?_
    rw [hevents]
    exact List.drop_of_length_le hle
  have hpos : (ledger undelivered.key).events.length ≠ 0 := Nat.ne_of_gt (Nat.zero_lt_of_lt hlt)
  rw [UndeliveredEvents.lastSequenceId?, hevents, List.getLast?_drop,
    if_neg (Nat.not_le_of_lt hlt), ← List.getLast?_map, (hsound undelivered.key).positions,
    List.getLast?_range', if_neg hpos]
  exact congrArg some (Nat.add_sub_cancel_left 1 _)

/-- The listing with which a drain begins: what the repository lists, in the order in which that
comes. -/
def Listed (setting : Service.Setting State Command E) (pipeline : Pipeline E)
    (listing : List (UndeliveredEvents E)) : Prop :=
  ∃ stored, (runAlone (listUndelivered none) pipeline.service.repository).1 = .ok stored ∧
    setting.arrange pipeline.service.time stored = listing

theorem Shows.ensures_listUndelivered
    (hshows : Shows live subscribers ledger queue received pipeline) (hgrows : base.Grows ledger)
    (number : Nat) :
    (Service.listUndelivered setting.repositoryConfig number).Ensures (handling setting base)
      (fun outcome later => ∃ listing, outcome = .ok listing ∧ Listed setting pipeline listing ∧
        ledger.Lists listing ∧ Shows live subscribers ledger queue received later) pipeline := by
  refine Program.ensures_bind.2
    ((hshows.ensures_perform hgrows number (.listUndelivered none)).mono ?_)
  rintro outcome listed ⟨⟨hanswers, houtcome⟩, hlisted, htime⟩
  rw [Ledger.Answers, if_neg (by simp)] at hanswers
  obtain ⟨stored, hlists, rfl⟩ := hanswers
  have hperm := setting.arrange_perm listed.service.time stored
  refine ⟨hlisted.holds hgrows, _, rfl, ⟨stored, houtcome.symm, ?_⟩, ⟨?_, fun undelivered => ?_⟩,
    { hlisted with }⟩
  · rw [← htime]
    rfl
  · exact (hperm.map _).nodup_iff.2 hlists.nodup
  · exact hperm.mem_iff.trans (hlists.mem_iff undelivered)

/-- What becomes of a pipeline when the listed aggregates are delivered, one after the other. -/
def Drains (live : Set CancellationToken) (accepts : Nat → RecordedEvent E → Except String Unit)
    (subscribers : List Nat) (ledger : Ledger E) (listing : List (UndeliveredEvents E))
    (queue : TaskQueue Unit) (received : List (Nat × RecordedEvent E))
    (outcome : Except DeliveryError Unit) (pipeline : Pipeline E) : Prop :=
  outcome = (conclusion (failures (listing.map fun undelivered =>
      (undelivered, delivered accepts subscribers undelivered)))).mapError Delivery.failureOf ∧
    Shows live subscribers (listing.foldl (settled accepts subscribers) ledger) queue
      (received ++ listing.flatMap fun undelivered =>
        undelivered.events.flatMap (handed subscribers)) pipeline

theorem Shows.ensures_deliverAll (hshows : Shows live subscribers ledger queue received pipeline)
    (hgrows : base.Grows ledger) (hdecided : Decided setting subscribers accepts)
    (hlive : token ∈ live) {listing : List (UndeliveredEvents E)}
    (hlasts : ∀ undelivered ∈ listing,
      undelivered.lastSequenceId? = some (ledger undelivered.key).tail) :
    (forEachCollecting (Delivery.ask .isCancelled) Delivery.deliver listing).Ensures
      (deliveryHandling setting token base) (fun outcome later => outcome = conclusion
          (failures (listing.map fun undelivered =>
            (undelivered, delivered accepts subscribers undelivered))) ∧
        Shows live subscribers (listing.foldl (settled accepts subscribers) ledger) queue
          (received ++ listing.flatMap fun undelivered =>
            undelivered.events.flatMap (handed subscribers)) later) pipeline := by
  refine (Program.ensures_forEachCollectingFrom
    (fun (rest : List (UndeliveredEvents E)) later => ∃ current done,
      Shows live subscribers current queue done later ∧
      (∀ key, (current key).events = (ledger key).events) ∧
      (∀ undelivered ∈ rest, undelivered ∈ listing) ∧
      rest.foldl (settled accepts subscribers) current =
        listing.foldl (settled accepts subscribers) ledger ∧
      (done ++ rest.flatMap fun undelivered => undelivered.events.flatMap (handed subscribers)) =
        received ++ listing.flatMap fun undelivered =>
          undelivered.events.flatMap (handed subscribers))
    (delivered accepts subscribers) ?_ ?_ []
    ⟨ledger, received, hshows, fun _ => rfl, fun _ h => h, rfl, rfl⟩).mono ?_
  · rintro rest state ⟨current, done, hstate, hevents, hrest⟩
    have hgrows' : base.Grows current := fun key => hevents key ▸ hgrows key
    refine (hstate.ensures_isCancelled hgrows' hlive).mono ?_
    rintro found later ⟨rfl, rfl⟩
    exact ⟨rfl, current, done, hstate, hevents, hrest⟩
  · rintro undelivered rest state ⟨current, done, hstate, hevents, hmem, hcurrent, hdone⟩
    have hgrows' : base.Grows current := fun key => hevents key ▸ hgrows key
    have hlast : undelivered.lastSequenceId? = some (current undelivered.key).tail := by
      rw [hlasts undelivered (hmem _ List.mem_cons_self), Account.tail, Account.tail, hevents]
    refine (hstate.ensures_deliver hgrows' hdecided hlive hlast).mono ?_
    rintro outcome later ⟨rfl, hlater⟩
    refine ⟨rfl, _, _, hlater, fun key => (events_settled _ _ key).trans (hevents key),
      fun other hother => hmem other (List.mem_cons_of_mem _ hother), hcurrent, ?_⟩
    rw [List.flatMap_cons] at hdone
    rw [List.append_assoc]
    exact hdone
  · rintro outcome later ⟨rfl, current, done, hlater, -, -, hcurrent, hdone⟩
    rw [List.foldl_nil] at hcurrent
    rw [List.flatMap_nil, List.append_nil] at hdone
    subst hcurrent hdone
    exact ⟨rfl, hlater⟩

/-- A drain delivers all that is listed, whatever becomes of each aggregate. -/
theorem Shows.ensures_drain (hshows : Shows live subscribers ledger queue received pipeline)
    (hgrows : base.Grows ledger) (hdecided : Decided setting subscribers accepts)
    (hlive : token ∈ live) :
    (Service.Call.program setting (.drain token)).Ensures (handling setting base)
      (fun outcome later => ∃ listing, Listed setting pipeline listing ∧ ledger.Lists listing ∧
        Drains live accepts subscribers ledger listing queue received outcome later) pipeline := by
  have hrun : Delivery.publishAll.Ensures (deliveryHandling setting token base)
      (fun outcome later => ∃ listing, Listed setting pipeline listing ∧ ledger.Lists listing ∧
        Drains live accepts subscribers ledger listing queue received outcome later) pipeline := by
    refine fun number => (hshows.ensures_listUndelivered hgrows number).mono ?_
    rintro outcome listed ⟨listing, rfl, horder, hlists, hlisted⟩
    have hlasts := lastSequenceId?_of_lists hlists hshows.mirrors.sound
    change Program.Ensures _ _ (forEachCollecting _ _ listing >>= _) listed
    refine Program.ensures_bind.2 ?_
    refine (hlisted.ensures_deliverAll hgrows hdecided hlive hlasts).mono ?_
    rintro outcome later ⟨rfl, hlater⟩
    generalize hfailures : failures _ = failed at *
    cases failed with
    | nil => exact ⟨listing, horder, hlists, by rw [hfailures]; rfl, hlater⟩
    | cons error errors => exact ⟨listing, horder, hlists, by rw [hfailures]; rfl, hlater⟩
  rw [Service.Call.program, Program.ensures_bind]
  exact (hrun.serve 0).mono fun served later hserved => hserved

end EventSourcing.Pipeline
