import EventSourcing.Proofs.Service.Operations

namespace EventSourcing.Service

open Interleaving

variable {State Command E : Type} {setting : Setting State Command E} {id number : Nat}
  {token : CancellationToken} {world : World State Command E} {event : RecordedEvent E}

/-- An entry may be made while an event is published. -/
structure Entry.IsAbout (event : RecordedEvent E) (entry : Entry State Command E) : Prop where
  number : entry.number? = none
  reception : ∀ reception, entry.reception? = some reception → reception.2.1 = event

theorem Entry.marking?_eq_none {entry : Entry State Command E} (hnumber : entry.number? = none) :
    entry.marking? = none := by
  unfold marking?
  split
  · cases hnumber
  · rfl

theorem keeps_receive {α : Type} {post : α → World State Command E → Prop} {subscriber : Nat}
    {next : Except String Unit → Operation E α} (hlawful : Lawful setting world)
    (hunmarked : ∀ entry ∈ History.own world.history id, entry.marking? ≠ some event.key)
    (hnext : ∀ verdict later done, Since setting id done world later →
      (∀ entry ∈ done, entry.IsAbout event) →
      done.filterMap Entry.reception? = [(subscriber, event, verdict)] →
        (calls setting).Keeps (laws setting) id (.drain token) post (next verdict) later) :
    (calls setting).Keeps (laws setting) id (.drain token) post (receive subscriber event >>= next)
      world := by
  rw [receive, bind_assoc]
  refine keeps_ask hlawful trivial trivial fun later _ hlater => ?_
  refine keeps_ask hlater.lawful trivial ?_ fun last _ hlast => ?_
  · intro entry hentry
    rcases hlater.mem_own.1 hentry with h | h
    · exact hunmarked entry h
    · rw [List.mem_singleton.1 h]
      exact fun h => by cases h
  · refine hnext _ last _ (hlater.trans hlast) (fun entry hentry => ?_) rfl
    rcases List.mem_append.1 hentry with h | h <;> rw [List.mem_singleton.1 h]
    · exact ⟨rfl, fun reception h => by cases h⟩
    · exact ⟨rfl, fun reception h => by cases h; rfl⟩

/-- Call number `id` has done something to publish an event, and if all is well, those in a list
have accepted it. -/
structure Handed (setting : Setting State Command E) (id : Nat) (event : RecordedEvent E)
    (earlier : World State Command E) (accepted : List Nat) (isWell : Prop)
    (done : History State Command E) (world : World State Command E) : Prop where
  since : Since setting id done earlier world
  about : ∀ entry ∈ done, entry.IsAbout event
  receptions : isWell → done.filterMap Entry.reception? =
    accepted.map fun subscriber => (subscriber, event, .ok ())

section Publish

variable {earlier : World State Command E}

theorem Since.unmarked {done : History State Command E}
    (hsince : Since setting id done earlier world)
    (habout : ∀ entry ∈ done, entry.IsAbout event) {key : AggregateKey}
    (hunmarked : ∀ entry ∈ History.own earlier.history id, entry.marking? ≠ some key) :
    ∀ entry ∈ History.own world.history id, entry.marking? ≠ some key := by
  intro entry hentry
  rcases hsince.mem_own.1 hentry with h | h
  · exact hunmarked entry h
  · simp [Entry.marking?_eq_none (habout entry h).number]

/-- Handing an event around until all subscribers have got it. -/
theorem keeps_handing (subscribers : List Nat) {accepted : List Nat} {errors : List String}
    {done : History State Command E}
    (hunmarked : ∀ entry ∈ History.own earlier.history id, entry.marking? ≠ some event.key)
    (hhanded : Handed setting id event earlier accepted (errors = []) done world) :
    (calls setting).Keeps (laws setting) id (.drain token)
      (fun outcome later => ∃ done, Handed setting id event earlier (accepted ++ subscribers)
        (outcome = .ok ()) done later)
      (forEachCollectingFrom (pure false) (PubSub.hand (fun _ => Topic.events) receive event) errors
        (subscribers.map fun subscriber => ⟨.events, subscriber⟩)) world := by
  induction subscribers generalizing accepted errors done world with
  | nil =>
    rw [List.append_nil]
    cases errors with
    | nil => exact ⟨done, hhanded.since, hhanded.about, fun _ => hhanded.receptions rfl⟩
    | cons error errors => exact ⟨done, hhanded.since, hhanded.about, fun h => by cases h⟩
  | cons subscriber rest ih =>
    rw [List.map_cons, forEachCollectingFrom, Program.pure_eq, Program.done_bind, if_neg (by simp),
      PubSub.hand, if_pos rfl]
    refine keeps_receive hhanded.since.lawful
      (hhanded.since.unmarked hhanded.about hunmarked) ?_
    intro verdict later more hsince habout hreception
    rw [List.append_cons]
    have habout' : ∀ entry ∈ done ++ more, entry.IsAbout event := fun entry hentry =>
      (List.mem_append.1 hentry).elim (hhanded.about entry) (habout entry)
    cases verdict with
    | ok _ =>
      refine ih ⟨hhanded.since.trans hsince, habout', fun herrors => ?_⟩
      rw [List.filterMap_append, hhanded.receptions herrors, hreception, List.map_append]
      rfl
    | error error => exact ih ⟨hhanded.since.trans hsince, habout', fun h => by simp at h⟩

/-- An event has been published as soon as all have accepted it who had subscribed to events when
that began. -/
private theorem published_of_since {pubSub : PubSub Topic Nat} {done : History State Command E}
    (hextends : earlier.history ++ [⟨id, .drain token, .answered (.publish event) pubSub⟩] <+:
      world.history)
    (hsince : Since setting id ([⟨id, .drain token, .answered (.publish event) pubSub⟩] ++ done)
      earlier world)
    (hreceptions : done.filterMap Entry.reception? =
      (History.subscribers earlier.history).map fun subscriber => (subscriber, event, .ok ())) :
    History.Published world.history id event := by
  obtain ⟨during, hduring⟩ := hextends
  refine ⟨earlier.history, token, pubSub, during, [], by simp [← hduring], ?_⟩
  -- All that the call has done since then it has done to hand the event around.
  have hown := hsince.own
  rw [← hduring, List.append_assoc, History.own_append] at hown
  have hdone := List.append_cancel_left hown
  rw [History.own_append, History.own_eq_self (by simp)] at hdone
  have hduring : History.own during id = done := List.append_cancel_left hdone
  rw [History.receptions, hduring, hreceptions]

/-- If publishing ends well, then the event has been published and nobody has refused it. -/
theorem keeps_publish {α : Type} {post : α → World State Command E → Prop}
    {next : Except PublishError Unit → Operation E α} (hlawful : Lawful setting world)
    (hunmarked : ∀ entry ∈ History.own world.history id, entry.marking? ≠ some event.key)
    (hnext : ∀ outcome later done, Since setting id done world later →
      (∀ entry ∈ done, entry.IsAbout event) →
      (outcome = .ok () → History.Published later.history id event ∧
        ∀ reception ∈ done.filterMap Entry.reception?, reception.2.2 = .ok ()) →
        (calls setting).Keeps (laws setting) id (.drain token) post (next outcome) later) :
    (calls setting).Keeps (laws setting) id (.drain token) post (publish event >>= next)
      world := by
  rw [publish, bind_assoc]
  refine keeps_ask hlawful trivial trivial fun later hbegun hlater => ?_
  have habout : ∀ entry ∈ [(⟨id, .drain token, .answered (.publish event) world.state.pubSub⟩ :
      Entry State Command E)], Entry.IsAbout event entry := fun entry hentry =>
    List.mem_singleton.1 hentry ▸ ⟨rfl, fun _ h => by cases h⟩
  have hhanded : Handed setting id event later [] (([] : List String) = []) [] later :=
    ⟨.refl hlater.lawful, by simp, fun _ => rfl⟩
  have hsubscriptions : (answer setting world.state (.publish event)).1.subscriptions .events = _ :=
    hlawful.subscribed
  rw [PubSub.publish, PubSub.publishTo, bind_assoc, hsubscriptions]
  refine (keeps_handing (History.subscribers world.history) (hlater.unmarked habout hunmarked)
    hhanded).bind ?_
  rintro outcome last ⟨done, hlast⟩
  have hsince := hlater.trans hlast.since
  have habout' : ∀ entry ∈ [_] ++ done, Entry.IsAbout event entry := fun entry hentry =>
    (List.mem_append.1 hentry).elim (habout entry) (hlast.about entry)
  have hpublished : outcome = .ok () → History.Published last.history id event ∧
      ∀ reception ∈ done.filterMap Entry.reception?, reception.2.2 = .ok () := by
    intro hok
    have hreceptions := hlast.receptions hok
    rw [List.nil_append] at hreceptions
    refine ⟨published_of_since (hbegun.trans hlast.since.history) hsince hreceptions, ?_⟩
    intro reception hreception
    rw [hreceptions] at hreception
    obtain ⟨subscriber, -, rfl⟩ := List.mem_map.1 hreception
    rfl
  match outcome with
  | .ok _ => exact hnext _ last _ hsince habout' fun _ => hpublished rfl
  | .error (.failed failures) => exact hnext _ last _ hsince habout' fun h => by cases h
  | .error .cancelled => exact hnext _ last _ hsince habout' fun h => by cases h

end Publish

/-- A loop that looks for a cancellation before each item keeps what each of its visits keeps. -/
theorem keeps_forEach {β ε : Type} {visit : β → Delivery.Operation E (Except ε Unit)}
    (inv : List ε → List β → Nat → World State Command E → Prop)
    (hlawful : ∀ errors items number world, inv errors items number world → Lawful setting world)
    (hcancelled : ∀ errors items number world later reply, inv errors items number world →
      Since setting id [⟨id, .drain token, .answered (.isCancelled token) reply⟩] world later →
        inv errors items (number + 1) later)
    (hvisit : ∀ errors item rest number world, inv errors (item :: rest) number world →
      (calls setting).Keeps (laws setting) id (.drain token)
        (fun served later => match served.1 with
          | .ok _ => inv errors rest served.2 later
          | .error error => inv (errors ++ [error]) rest served.2 later)
        ((visit item).serve (answerDelivery setting.repositoryConfig token) number) world)
    (errors : List ε) (items : List β) {number : Nat} {world : World State Command E}
    (hinv : inv errors items number world) :
    (calls setting).Keeps (laws setting) id (.drain token)
      (fun served later => ∃ errors items, inv errors items served.2 later ∧
        (served.1 = .ok () → errors = [] ∧ items = []))
      ((forEachCollectingFrom (Delivery.ask .isCancelled) visit errors items).serve
        (answerDelivery setting.repositoryConfig token) number) world := by
  induction items generalizing errors number world with
  | nil =>
    cases errors with
    | nil => exact ⟨[], [], hinv, fun _ => ⟨rfl, rfl⟩⟩
    | cons error errors => exact ⟨_, [], hinv, fun h => by cases h⟩
  | cons item rest ih =>
    rw [forEachCollectingFrom, Delivery.serve_ask]
    refine keeps_ask (hlawful _ _ _ _ hinv) trivial trivial fun later _ hlater => ?_
    have hinv' := hcancelled _ _ _ _ _ _ hinv hlater
    split
    · exact ⟨errors, item :: rest, hinv', fun h => by cases h⟩
    · rw [Program.serve_bind]
      refine (hvisit _ _ _ _ _ hinv').bind ?_
      rintro ⟨outcome, next⟩ last hlast
      cases outcome with
      | ok _ => exact ih _ hlast
      | error error => exact ih _ hlast

/-- A drain has taken its listing and has had nothing to do with some aggregates yet. -/
structure Draining (setting : Setting State Command E) (id : Nat) (token : CancellationToken)
    (listing : List (UndeliveredEvents E)) (number : Nat) (pending : List AggregateKey)
    (world : World State Command E) : Prop where
  lawful : Lawful setting world
  numbered : History.IsNumbered world.history id number
  listed : ∃ found, ⟨id, .drain token, .answered (.arrange found) listing⟩ ∈ world.history
  untouched : ∀ key ∈ pending, ∀ entry ∈ History.own world.history id, ¬ Entry.Concerns entry key

section Deliver

variable {listing : List (UndeliveredEvents E)} {pending : List AggregateKey}

theorem Draining.since {done : History State Command E} {later : World State Command E} {next : Nat}
    (hdraining : Draining setting id token listing number pending world)
    (hsince : Since setting id done world later) (hle : number ≤ next)
    (hdone : ∀ entry ∈ done, (∀ other ∈ Entry.number? entry, other < next) ∧
      ∀ key ∈ pending, ¬ Entry.Concerns entry key) :
    Draining setting id token listing next pending later where
  lawful := hsince.lawful
  numbered := hsince.isNumbered hdraining.numbered hle fun entry hentry => (hdone entry hentry).1
  listed := hdraining.listed.imp fun _ h => hsince.history.subset h
  untouched key hkey entry hentry := by
    rcases hsince.mem_own.1 hentry with h | h
    · exact hdraining.untouched key hkey entry h
    · exact (hdone entry h).2 key hkey

/-- A drain is at work on the events of one aggregate. It has not marked any of them, and if all is
well, it has published some of them and nobody has refused any. -/
structure Delivering (setting : Setting State Command E) (id : Nat) (token : CancellationToken)
    (listing : List (UndeliveredEvents E)) (number : Nat) (pending : List AggregateKey)
    (key : AggregateKey) (published : List (RecordedEvent E)) (isWell : Prop)
    (world : World State Command E) : Prop
    extends Draining setting id token listing number pending world where
  unmarked : ∀ entry ∈ History.own world.history id, Entry.marking? entry ≠ some key
  published : isWell → ∀ event ∈ published, History.Published world.history id event
  accepted : isWell → ∀ reception ∈ History.receptions world.history id,
    reception.2.1.key = key → reception.2.2 = .ok ()

variable {key : AggregateKey} {published : List (RecordedEvent E)} {isWell : Prop}

theorem Draining.begin
    (hdraining : Draining setting id token listing number (key :: pending) world) :
    Delivering setting id token listing number pending key [] True world where
  toDraining := { hdraining with
    untouched := fun other hother => hdraining.untouched other (List.mem_cons_of_mem _ hother) }
  unmarked entry hentry h := hdraining.untouched key List.mem_cons_self entry hentry (.inl h)
  published _ event hevent := by cases hevent
  accepted _ reception hreception hkey := by
    obtain ⟨entry, hentry, h⟩ := List.mem_filterMap.1 hreception
    exact (hdraining.untouched key List.mem_cons_self entry hentry (.inr ⟨_, h, hkey⟩)).elim

/-- A drain goes on with its work on one aggregate. -/
theorem Delivering.since {published' : List (RecordedEvent E)} {isWell' : Prop}
    {done : History State Command E} {later : World State Command E}
    (hdelivering : Delivering setting id token listing number pending key published isWell world)
    (hpending : key ∉ pending) (hsince : Since setting id done world later)
    (hdone : ∀ entry ∈ done, Entry.number? entry = none ∧
      ∀ reception, Entry.reception? entry = some reception → reception.2.1.key = key)
    (hwell : isWell' → isWell ∧
      (∀ event ∈ published', event ∈ published ∨ History.Published later.history id event) ∧
        ∀ reception ∈ done.filterMap Entry.reception?, reception.2.2 = .ok ()) :
    Delivering setting id token listing (number + 1) pending key published' isWell' later where
  toDraining := by
    refine hdelivering.toDraining.since hsince (Nat.le_succ _) fun entry hentry => ?_
    obtain ⟨hnumber, hreception⟩ := hdone entry hentry
    refine ⟨by simp [hnumber], ?_⟩
    rintro other hother (h | ⟨reception, h, hkey⟩)
    · simp [Entry.marking?_eq_none hnumber] at h
    · exact hpending ((hreception reception h).symm.trans hkey ▸ hother)
  unmarked entry hentry := by
    rcases hsince.mem_own.1 hentry with h | h
    · exact hdelivering.unmarked entry h
    · simp [Entry.marking?_eq_none (hdone entry h).1]
  published hisWell event hevent := by
    obtain ⟨hwas, hpublished, -⟩ := hwell hisWell
    rcases hpublished event hevent with h | h
    · exact (hdelivering.published hwas event h).mono hsince.history
    · exact h
  accepted hisWell reception hreception hkey := by
    obtain ⟨hwas, -, hok⟩ := hwell hisWell
    rw [hsince.receptions] at hreception
    rcases List.mem_append.1 hreception with h | h
    · exact hdelivering.accepted hwas reception h hkey
    · exact hok reception h

theorem Delivering.imp {isWell' : Prop} (himp : isWell' → isWell)
    (hdelivering : Delivering setting id token listing number pending key published isWell world) :
    Delivering setting id token listing number pending key published isWell' world :=
  { hdelivering with
    published := fun h => hdelivering.published (himp h)
    accepted := fun h => hdelivering.accepted (himp h) }

/-- A drain has published the events of one aggregate but for some at the end. -/
def Remains (setting : Setting State Command E) (id : Nat) (token : CancellationToken)
    (listing : List (UndeliveredEvents E)) (pending : List AggregateKey)
    (undelivered : UndeliveredEvents E) (errors : List PublishError)
    (rest : List (RecordedEvent E)) (number : Nat) (world : World State Command E) : Prop :=
  ∃ published, published ++ rest = undelivered.events ∧
    Delivering setting id token listing number pending undelivered.key published (errors = []) world

section Aggregate

variable {undelivered : UndeliveredEvents E}
  (hbelongs : ∀ event ∈ undelivered.events, event.key = undelivered.key)
  (hpending : undelivered.key ∉ pending)

include hbelongs hpending

theorem keeps_publishing
    (hdraining : Draining setting id token listing number (undelivered.key :: pending) world) :
    (calls setting).Keeps (laws setting) id (.drain token)
      (fun served later => ∃ errors rest,
        Remains setting id token listing pending undelivered errors rest served.2 later ∧
          (served.1 = .ok () → errors = [] ∧ rest = []))
      ((forEachCollecting (Delivery.ask .isCancelled) (fun event => Delivery.ask (.publish event))
          undelivered.events).serve (answerDelivery setting.repositoryConfig token) number)
      world := by
  refine keeps_forEach (Remains setting id token listing pending undelivered) ?_ ?_ ?_ []
    undelivered.events ⟨[], rfl, ?_⟩
  · rintro errors rest number world ⟨published, -, hdelivering⟩
    exact hdelivering.lawful
  · rintro errors rest number world later reply ⟨published, hsplit, hdelivering⟩ hsince
    refine ⟨published, hsplit, hdelivering.since hpending hsince ?_ fun h => ⟨h, ?_, ?_⟩⟩
    · intro entry hentry
      rw [List.mem_singleton.1 hentry]
      exact ⟨rfl, fun _ h => by cases h⟩
    · exact fun event hevent => .inl hevent
    · exact fun reception hreception => by cases hreception
  · rintro errors event rest number world ⟨published, hsplit, hdelivering⟩
    have hkey : event.key = undelivered.key := hbelongs event (by simp [← hsplit])
    change (calls setting).Keeps _ _ _ _
      (publish event >>= fun outcome => .done (outcome, number + 1)) _
    refine keeps_publish hdelivering.lawful (hkey ▸ hdelivering.unmarked) ?_
    intro outcome later done hsince habout hpublished
    have hdone : ∀ entry ∈ done, Entry.number? entry = none ∧
        ∀ reception, Entry.reception? entry = some reception →
          reception.2.1.key = undelivered.key := fun entry hentry =>
      ⟨(habout entry hentry).number, fun reception h =>
        ((habout entry hentry).reception reception h).symm ▸ hkey⟩
    cases outcome with
    | ok _ =>
      obtain ⟨hevent, hok⟩ := hpublished rfl
      refine ⟨published ++ [event], by simp [← hsplit], ?_⟩
      refine hdelivering.since hpending hsince hdone fun h => ⟨h, fun other hother => ?_, hok⟩
      rcases List.mem_append.1 hother with h | h
      · exact .inl h
      · exact .inr (List.mem_singleton.1 h ▸ hevent)
    | error error =>
      refine ⟨published ++ [event], by simp [← hsplit], ?_⟩
      exact hdelivering.since hpending hsince hdone fun h => by simp at h
  · exact hdraining.begin.imp fun _ => trivial

/-- A drain marks the events of an aggregate only if it has published all that it has listed. -/
theorem keeps_deliver (hmem : undelivered ∈ listing)
    (hdraining : Draining setting id token listing number (undelivered.key :: pending) world) :
    (calls setting).Keeps (laws setting) id (.drain token)
      (fun served later => Draining setting id token listing served.2 pending later)
      ((Delivery.deliver undelivered).serve (answerDelivery setting.repositoryConfig token) number)
      world := by
  unfold Delivery.deliver
  cases hlast : undelivered.lastSequenceId? with
  | none => exact hdraining.begin.toDraining
  | some last =>
    dsimp only
    rw [Program.serve_bind]
    refine (keeps_publishing hbelongs hpending hdraining).bind ?_
    rintro ⟨outcome, number⟩ later ⟨errors, rest, ⟨published, hsplit, hdelivering⟩, hok⟩
    match outcome with
    | .error (.failed failures) => exact hdelivering.toDraining
    | .error .cancelled => exact hdelivering.toDraining
    | .ok _ =>
      obtain ⟨rfl, rfl⟩ := hok rfl
      rw [List.append_nil] at hsplit
      obtain ⟨found, hlisted⟩ := hdelivering.listed
      have hconfirmed : History.Confirmed later.history id undelivered.key last :=
        ⟨token, found, listing, undelivered, hlisted, hmem, rfl, hlast,
          hsplit ▸ hdelivering.published rfl, hdelivering.accepted rfl⟩
      dsimp only
      rw [Delivery.serve_ask]
      refine keeps_perform (Repository.keeps_markDelivered _ _ undelivered.key last
        hdelivering.lawful.sound) hdelivering.lawful ?_ ?_
      · intro after done hsince hdone _ _
        refine hconfirmed.mono hsince.history ?_
        rw [hsince.receptions, receptions_of_isStep hdone, List.append_nil]
      · intro value after done hsince hdone _
        have hafter : Draining setting id token listing (number + 1) pending after := by
          refine hdelivering.toDraining.since hsince (Nat.le_succ _) fun entry hentry => ?_
          refine ⟨number?_of_isStep hdone entry hentry, ?_⟩
          obtain ⟨request, reply, rfl⟩ := hdone entry hentry
          rintro key hkey (h | ⟨_, h, -⟩)
          · exact hpending (Option.some.inj h ▸ hkey)
          · cases h
        cases value <;> exact hafter

end Aggregate

end Deliver

/-- A drain that has delivered the events of some of the listed aggregates, but for those at the end
of its listing. -/
structure DrainingFrom (setting : Setting State Command E) (id : Nat) (token : CancellationToken)
    (listing rest : List (UndeliveredEvents E)) (number : Nat) (world : World State Command E) :
    Prop where
  suffix : rest <:+ listing
  draining : Draining setting id token listing number (rest.map (·.key)) world

theorem keeps_deliverAll {listing : List (UndeliveredEvents E)}
    (hnodup : (listing.map (·.key)).Nodup)
    (hbelongs : ∀ undelivered ∈ listing, ∀ event ∈ undelivered.events,
      event.key = undelivered.key)
    (hdraining : Draining setting id token listing number (listing.map (·.key)) world) :
    (calls setting).Keeps (laws setting) id (.drain token)
      (fun served later => ∃ rest, DrainingFrom setting id token listing rest served.2 later)
      ((forEachCollecting (Delivery.ask .isCancelled) Delivery.deliver listing).serve
        (answerDelivery setting.repositoryConfig token) number) world := by
  refine (keeps_forEach (fun _ => DrainingFrom setting id token listing) ?_ ?_ ?_ [] listing
    ⟨List.suffix_refl _, hdraining⟩).mono ?_
  · exact fun _ _ _ _ hfrom => hfrom.draining.lawful
  · rintro errors rest number world later reply ⟨hsuffix, hdraining⟩ hsince
    refine ⟨hsuffix, hdraining.since hsince (Nat.le_succ _) fun entry hentry => ?_⟩
    rw [List.mem_singleton.1 hentry]
    exact ⟨nofun, fun key _ => Entry.not_concerns rfl rfl key⟩
  · rintro errors undelivered rest number world ⟨hsuffix, hdraining⟩
    have hmem : undelivered ∈ listing := hsuffix.subset List.mem_cons_self
    have hnotMem : undelivered.key ∉ rest.map (·.key) :=
      (List.nodup_cons.1 (hnodup.sublist (hsuffix.sublist.map _))).1
    have hrest : rest <:+ listing := (List.suffix_cons _ _).trans hsuffix
    refine (keeps_deliver (hbelongs _ hmem) hnotMem hmem hdraining).mono ?_
    rintro ⟨outcome, next⟩ later hlater
    cases outcome <;> exact ⟨hrest, hlater⟩
  · rintro served later ⟨-, rest, hfrom, -⟩
    exact ⟨rest, hfrom⟩

theorem keeps_drain (hlawful : Lawful setting world)
    (hown : ∀ entry ∈ History.own world.history id, entry = ⟨id, .drain token, .called⟩) :
    (calls setting).Keeps (laws setting) id (.drain token) (fun _ later => Lawful setting later)
      (Call.program setting (.drain token)) world := by
  change (calls setting).Keeps _ _ _ _ (Delivery.publishAll.serve
    (answerDelivery setting.repositoryConfig token) 0 >>= fun served => .done served.1) _
  unfold Delivery.publishAll
  rw [Delivery.serve_ask, bind_assoc]
  refine keeps_listUndelivered hlawful ?_
  intro found listing later done hsince hdone hlisted hnodup hbelongs
  have hdraining : Draining setting id token listing 1 (listing.map (·.key)) later := by
    refine ⟨hsince.lawful, hsince.isNumbered (History.isNumbered_of_called hown) (Nat.zero_le _)
      (fun entry hentry => (hdone entry hentry).1), ⟨found, ?_⟩, ?_⟩
    · exact (History.mem_own.1 (hsince.mem_own.2 (.inr hlisted))).1
    · intro key _ entry hentry
      rcases hsince.mem_own.1 hentry with h | h
      · rw [hown entry h]
        exact Entry.not_concerns rfl rfl key
      · exact (hdone entry h).2 key
  dsimp only
  rw [Program.serve_bind, bind_assoc]
  refine (keeps_deliverAll hnodup hbelongs hdraining).bind ?_
  rintro ⟨outcome, next⟩ last ⟨rest, hfrom⟩
  cases outcome <;> exact hfrom.draining.lawful

end EventSourcing.Service
