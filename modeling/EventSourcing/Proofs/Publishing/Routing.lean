import EventSourcing.Proofs.Interleaving.Tracing
import EventSourcing.Proofs.Publishing.Call

namespace EventSourcing.Publishing

open Interleaving Program

variable {Topic Message S : Type} [DecidableEq Topic] {setting : Setting Topic Message S}
  {moment : Moment Topic Message S}

/-- The subscribers to a topic, in the order in which they came. -/
def registered (topic : Topic) (history : History Topic Message S) : List S :=
  history.filterMap fun entry =>
    match entry.action with
    | .answered (.subscribe other subscriber) _ => if other = topic then some subscriber else none
    | _ => none

abbrev Exchanges (Topic Message S : Type) :=
  List (Exchange (@Request.Reply Topic Message S))

/-- Who has got which message. -/
def handed (exchanges : Exchanges Topic Message S) : List (S × Message) :=
  exchanges.filterMap fun exchange =>
    match exchange.request with
    | .hand subscriber message => some (subscriber, message)
    | _ => none

/-- Who has given which verdict. -/
def verdicts (exchanges : Exchanges Topic Message S) : List (S × Except String Unit) :=
  exchanges.filterMap fun exchange =>
    match exchange with
    | ⟨.verdict subscriber _, verdict⟩ => some (subscriber, verdict)
    | _ => none

theorem registered_concat_of_none {history : History Topic Message S}
    {entry : Entry Topic Message S}
    (hnone : ∀ other subscriber reply, entry.action ≠ .answered (.subscribe other subscriber) reply)
    (topic : Topic) : registered topic (history ++ [entry]) = registered topic history := by
  obtain ⟨id, call, action⟩ := entry
  have hlast : registered topic [(⟨id, call, action⟩ : Entry Topic Message S)] = [] := by
    unfold registered
    cases action with
    | answered request reply =>
      cases request with
      | subscribe other subscriber => exact absurd rfl (hnone other subscriber reply)
      | _ => rfl
    | _ => rfl
  rw [registered, List.filterMap_append]
  exact (congrArg _ hlast).trans (List.append_nil _)

section Loop

/-- Hands a message to some subscribers after others have failed with `errors`. -/
abbrev handAll (setting : Setting Topic Message S) (message : Message) (errors : List String)
    (subscriptions : List (Subscription Topic S)) :
    Operation Topic Message S (Except (CollectedError String) Unit) :=
  forEachCollectingFrom (pure false) (PubSub.hand setting.topicOf receive message) errors
    subscriptions

variable {message : Message}

/-- A subscriber under the topic of a message gets it, and says what it thinks of it. -/
theorem handAll_cons {subscription : Subscription Topic S}
    (htopic : subscription.topic = setting.topicOf message) (errors : List String)
    (rest : List (Subscription Topic S)) :
    handAll setting message errors (subscription :: rest) =
      .ask (.hand subscription.subscriber message) fun _ =>
        .ask (.verdict subscription.subscriber message) fun verdict => handAll setting message
          (errors ++ failures [(subscription.subscriber, verdict)]) rest := by
  unfold handAll
  rw [forEachCollectingFrom, PubSub.hand, if_pos htopic]
  refine congrArg (Program.ask (Request.hand _ _)) (funext fun _ => ?_)
  refine congrArg (Program.ask (Request.verdict _ _)) (funext fun verdict => ?_)
  cases verdict with
  | ok _ => exact congrArg (handAll setting message · rest) (List.append_nil errors).symm
  | error error => rfl

/-- The loop over subscriptions under the topic of a message hands it to one after the other. When
it ends all have got it, and what it ends with are the failures among their verdicts. -/
theorem leads_hands {subscriptions : List (Subscription Topic S)}
    (hroutes : ∀ subscription ∈ subscriptions, subscription.topic = setting.topicOf message)
    {errors : List String} {exchanges : Exchanges Topic Message S}
    {rest : Operation Topic Message S (Except (CollectedError String) Unit)}
    (hleads : (handAll setting message errors subscriptions).Leads exchanges rest) :
    handed exchanges <+: subscriptions.map (fun subscription =>
        (subscription.subscriber, message)) ∧
      ∀ outcome, rest = .done outcome →
        handed exchanges = subscriptions.map (fun subscription =>
          (subscription.subscriber, message)) ∧
        (verdicts exchanges).map Prod.fst = subscriptions.map (·.subscriber) ∧
        outcome = conclusion (errors ++ failures (verdicts exchanges)) := by
  induction subscriptions generalizing errors exchanges with
  | nil =>
    have hend : exchanges = [] ∧ rest = .done (conclusion errors) := by
      cases errors <;> cases hleads <;> exact ⟨rfl, rfl⟩
    obtain ⟨rfl, rfl⟩ := hend
    refine ⟨List.nil_prefix, fun outcome hdone => ⟨rfl, rfl, ?_⟩⟩
    cases hdone
    exact congrArg conclusion (List.append_nil errors).symm
  | cons subscription later ih =>
    rw [handAll_cons (hroutes _ List.mem_cons_self)] at hleads
    have hlater : ∀ other ∈ later, other.topic = setting.topicOf message :=
      fun other hother => hroutes other (List.mem_cons_of_mem _ hother)
    rcases leads_ask hleads with ⟨rfl, rfl⟩ | ⟨-, afterHand, rfl, hverdict⟩
    · exact ⟨List.nil_prefix, nofun⟩
    rcases leads_ask hverdict with ⟨rfl, rfl⟩ | ⟨verdict, afterVerdict, rfl, hrest⟩
    · refine ⟨?_, nofun⟩
      exact (List.prefix_cons_inj _).2 List.nil_prefix
    · obtain ⟨hpast, hend⟩ := ih hlater hrest
      refine ⟨(List.prefix_cons_inj (subscription.subscriber, message)).2 hpast, ?_⟩
      intro outcome hdone
      obtain ⟨hall, hgiven, rfl⟩ := hend outcome hdone
      refine ⟨congrArg ((subscription.subscriber, message) :: ·) hall,
        congrArg (subscription.subscriber :: ·) hgiven, ?_⟩
      have hfailures : failures ((subscription.subscriber, verdict) :: verdicts afterVerdict) =
          failures [(subscription.subscriber, verdict)] ++ failures (verdicts afterVerdict) :=
        List.filterMap_append (l := [_])
      rw [List.append_assoc, ← hfailures]
      rfl

end Loop

/-- What a pubsub holds if these are the subscribers. -/
def Holds (pubSub : PubSub Topic S) (history : History Topic Message S) : Prop :=
  ∀ topic, pubSub.subscriptions topic =
    (registered topic history).map fun subscriber => ⟨topic, subscriber⟩

/-- The subscriptions are those of the subscribers that the history tells of, and so they were
whenever somebody looked. -/
structure Routed (moment : Moment Topic Message S) : Prop where
  now : Holds moment.world.state.pubSub moment.world.history
  looked : ∀ before id call message pubSub after,
    moment.world.history = before ++ ⟨id, call, .answered (.look message) pubSub⟩ :: after →
      Holds pubSub before

/-- Another entry, which leaves the past as it was. -/
private theorem Routed.concat {next : Moment Topic Message S} {entry : Entry Topic Message S}
    (hrouted : Routed moment) (hhistory : next.world.history = moment.world.history ++ [entry])
    (hnow : Holds next.world.state.pubSub next.world.history)
    (hlook : ∀ message pubSub, entry.action = .answered (.look message) pubSub →
      pubSub = moment.world.state.pubSub) : Routed next := by
  refine ⟨hnow, fun before id call message pubSub after hsplit => ?_⟩
  rw [hhistory] at hsplit
  rcases concat_eq_append_cons hsplit with ⟨rest, -, hold⟩ | ⟨-, rfl, rfl⟩
  · exact hrouted.looked before id call message pubSub rest hold
  · rw [hlook message pubSub rfl]
    exact hrouted.now

/-- An entry that registers nobody leaves those registered who were. -/
private theorem Holds.concat {pubSub : PubSub Topic S} {history : History Topic Message S}
    (hholds : Holds pubSub history) {entry : Entry Topic Message S}
    (hnone : ∀ other subscriber reply,
      entry.action ≠ .answered (.subscribe other subscriber) reply) :
    Holds pubSub (history ++ [entry]) := by
  intro topic
  rw [registered_concat_of_none hnone]
  exact hholds topic

private theorem Holds.subscribe {pubSub : PubSub Topic S} {history : History Topic Message S}
    (hholds : Holds pubSub history) (id : Nat) (call : Call Topic Message S) (topic : Topic)
    (subscriber : S) : Holds (pubSub.subscribe topic subscriber)
      (history ++ [⟨id, call, .answered (.subscribe topic subscriber) ()⟩]) := by
  intro other
  rw [PubSub.subscriptions_subscribe, hholds, registered, registered, List.filterMap_append,
    List.map_append]
  congr 1
  by_cases hother : other = topic
  · subst hother
    simp
  · have hne : topic ≠ other := fun h => hother h.symm
    simp [hother, hne]

private theorem Routed.next {next : Moment Topic Message S} {move : Move (Call Topic Message S)}
    (hrouted : Routed moment) (hnext : (calls setting).next? moment move = some next) :
    Routed next := by
  revert hrouted
  refine System.next?_cases (motive := fun moment next => Routed moment → Routed next) hnext
    ?_ ?_ ?_
  · intro world frames nextId call _ hrouted
    exact hrouted.concat rfl (hrouted.now.concat nofun) nofun
  · intro world id call request rest isParked frames nextId hrouted
    cases request with
    | look message =>
      refine hrouted.concat rfl (hrouted.now.concat nofun) fun other pubSub hlook => ?_
      cases hlook
      rfl
    | hand subscriber message => exact hrouted.concat rfl (hrouted.now.concat nofun) nofun
    | verdict subscriber message => exact hrouted.concat rfl (hrouted.now.concat nofun) nofun
    | subscribe topic subscriber =>
      exact hrouted.concat rfl (hrouted.now.subscribe id call topic subscriber) nofun
  · intro world id call outcome isParked frames nextId hrouted
    exact hrouted.concat rfl (hrouted.now.concat nofun) nofun

theorem Reachable.routed (hreach : Reachable setting moment) : Routed moment := by
  refine System.Reaches.induct hreach ⟨fun topic => rfl, ?_⟩ fun hrouted hnext => hrouted.next hnext
  simp [Moment.start]

section Publish

variable {message : Message} {subscriptions : List (Subscription Topic S)}
  {exchanges : Exchanges Topic Message S}

theorem handed_of_leads_publishTo {rest : Operation Topic Message S (Except PublishError Unit)}
    (hroutes : ∀ subscription ∈ subscriptions, subscription.topic = setting.topicOf message)
    (hleads : (PubSub.publishTo setting.topicOf receive subscriptions message).Leads exchanges
      rest) :
    handed exchanges <+:
      subscriptions.map fun subscription => (subscription.subscriber, message) := by
  rcases Leads.of_bind hleads with ⟨mid, hhands⟩ | ⟨early, late, collected, rfl, hhands, hend⟩
  · exact (leads_hands hroutes hhands).1
  · have hlate : late = [] := by
      rcases collected with (_ | _) | _ <;> cases hend <;> rfl
    rw [hlate, List.append_nil]
    exact (leads_hands hroutes (leads_done_iff.2 hhands)).1

theorem outcome_of_yields_publishTo {outcome : Except PublishError Unit}
    (hroutes : ∀ subscription ∈ subscriptions, subscription.topic = setting.topicOf message)
    (hyields : (PubSub.publishTo setting.topicOf receive subscriptions message).Yields exchanges
      outcome) :
    handed exchanges = subscriptions.map (fun subscription => (subscription.subscriber, message)) ∧
      (verdicts exchanges).map Prod.fst = subscriptions.map (·.subscriber) ∧
      (outcome = .ok () ↔ ∀ verdict ∈ verdicts exchanges, verdict.2 = .ok ()) ∧
      ∀ error, outcome = .error error → error.failures = failures (verdicts exchanges) := by
  obtain ⟨early, late, collected, rfl, hhands, hend⟩ := yields_bind_iff.1 hyields
  obtain ⟨hall, hgiven, hcollected⟩ :=
    (leads_hands hroutes (leads_done_iff.2 hhands)).2 collected rfl
  rw [List.nil_append] at hcollected
  have hlate : late = [] := by
    rcases collected with (_ | _) | _ <;> exact hend.1
  rw [hlate, List.append_nil]
  refine ⟨hall, hgiven, ?_⟩
  rw [← failures_eq_nil_iff_ok]
  cases hfailures : failures (verdicts early) with
  | nil =>
    rw [hfailures] at hcollected
    subst hcollected
    obtain ⟨-, rfl⟩ := hend
    exact ⟨iff_of_true rfl rfl, nofun⟩
  | cons first others =>
    rw [hfailures] at hcollected
    subst hcollected
    obtain ⟨-, rfl⟩ := hend
    refine ⟨iff_of_false nofun nofun, fun error herror => ?_⟩
    cases herror
    rfl

variable {id : Nat} {before after : History Topic Message S}

/-- The first thing that a publishing asks for are the subscriptions, and it finds the subscribers
who were registered when it began. -/
theorem Reachable.looks (hreach : Reachable setting moment)
    (hcalled : moment.world.history = before ++ ⟨id, .publish message, .called⟩ :: after) :
    exchangesOf id moment.world.history = [] ∨ ∃ looked later,
      exchangesOf id moment.world.history = ⟨.look message, looked⟩ :: later ∧
        Holds looked before := by
  have hsplit : moment.world.history = (before ++ [⟨id, .publish message, .called⟩]) ++ after := by
    simp [hcalled]
  have hexchanges : exchangesOf id moment.world.history = exchangesOf id after := by
    rw [hsplit, exchangesOf_append, exchangesOf_concat_of_none fun _ => rfl,
      exchangesOf_eq_nil (System.Reaches.called_first hreach hcalled), List.nil_append]
  rw [hexchanges]
  cases after with
  | nil => exact .inl rfl
  | cons next later =>
    obtain ⟨looked, rfl⟩ := System.Reaches.begins hreach rfl hcalled
    refine .inr ⟨looked, exchangesOf id later, exchangesOf_cons_answered .., fun topic => ?_⟩
    rw [hreach.routed.looked _ _ _ _ _ _ hsplit topic,
      registered_concat_of_none (by rintro _ _ _ ⟨⟩)]

/-- Whoever stands under a topic can take its messages. -/
theorem Holds.routes {pubSub : PubSub Topic S} (hholds : Holds pubSub before) (topic : Topic) :
    ∀ subscription ∈ pubSub.subscriptions topic, subscription.topic = topic := by
  intro subscription hmem
  rw [hholds] at hmem
  obtain ⟨subscriber, -, rfl⟩ := List.mem_map.1 hmem
  rfl

/-- At every moment of every run, while subscribers join and publish as they like: a message goes to
the subscribers who were registered for its topic when its publishing began, to each of them once
and in the order in which they came, and when the publishing returns all of them have got it and
have given their verdicts. It returns well exactly if all accept, and else with their failures in
that order. No subscriber ever gets a message that it cannot take. -/
theorem publish_routes_exactly (hreach : Reachable setting moment)
    (hcalled : moment.world.history = before ++ ⟨id, .publish message, .called⟩ :: after) :
    handed (exchangesOf id moment.world.history) <+:
        (registered (setting.topicOf message) before).map (fun subscriber =>
          (subscriber, message)) ∧
      (∀ outcome, ⟨id, .publish message, .returned outcome⟩ ∈ moment.world.history →
        handed (exchangesOf id moment.world.history) =
            (registered (setting.topicOf message) before).map (fun subscriber =>
              (subscriber, message)) ∧
          (verdicts (exchangesOf id moment.world.history)).map Prod.fst =
            registered (setting.topicOf message) before ∧
          (outcome = .ok () ↔
            ∀ verdict ∈ verdicts (exchangesOf id moment.world.history), verdict.2 = .ok ()) ∧
          ∀ error, outcome = .error error →
            error.failures = failures (verdicts (exchangesOf id moment.world.history))) ∧
      (∃ later outcome, (calls setting).Reaches moment later ∧
        ⟨id, .publish message, .returned outcome⟩ ∈ later.world.history) ∧
      ∀ looked, ⟨id, .publish message, .answered (.look message) looked⟩ ∈ moment.world.history →
        ∀ subscription ∈ looked.subscriptions (setting.topicOf message),
          PubSub.hand setting.topicOf receive message subscription =
            (receive subscription.subscriber message : Operation Topic Message S _) := by
  have hbegun : ⟨id, .publish message, .called⟩ ∈ moment.world.history := by
    rw [hcalled]
    exact List.mem_append_right _ List.mem_cons_self
  have hfound : ∀ looked : PubSub Topic S, Holds looked before →
      (looked.subscriptions (setting.topicOf message)).map (·.subscriber) =
        registered (setting.topicOf message) before := by
    intro looked hholds
    rw [hholds, List.map_map]
    exact List.map_id _
  have hfoundEach : ∀ looked : PubSub Topic S, Holds looked before →
      (looked.subscriptions (setting.topicOf message)).map (fun subscription =>
        (subscription.subscriber, message)) =
          (registered (setting.topicOf message) before).map fun subscriber =>
            (subscriber, message) := by
    intro looked hholds
    rw [← hfound looked hholds, List.map_map]
    rfl
  refine ⟨?_, fun outcome hreturned => ?_, System.Reaches.exists_returned hreach hbegun,
    fun looked hlooked subscription hsubscription => ?_⟩
  · obtain ⟨rest, hleads⟩ := System.Reaches.exists_leads hreach hbegun
    rcases hreach.looks hcalled with hnone | ⟨looked, later, hlook, hholds⟩
    · rw [hnone]
      exact List.nil_prefix
    · rw [hlook] at hleads ⊢
      cases hleads with
      | cons hlater =>
        have hhands : (PubSub.publishTo setting.topicOf receive
            (looked.subscriptions (setting.topicOf message)) message).Leads later rest := hlater
        have hgot := handed_of_leads_publishTo (hholds.routes _) hhands
        rw [hfoundEach looked hholds] at hgot
        exact hgot
  · have hyields := System.Reaches.yields hreach hreturned
    rcases hreach.looks hcalled with hnone | ⟨looked, later, hlook, hholds⟩
    · rw [hnone] at hyields
      obtain ⟨_, _, hnil, -⟩ := hyields
      cases hnil
    · rw [hlook] at hyields ⊢
      obtain ⟨_, _, hsame, hlater⟩ := hyields
      cases hsame
      have hhands : (PubSub.publishTo setting.topicOf receive
          (looked.subscriptions (setting.topicOf message)) message).Yields later outcome := hlater
      have hgot := outcome_of_yields_publishTo (hholds.routes _) hhands
      rw [hfoundEach looked hholds, hfound looked hholds] at hgot
      exact hgot
  · obtain ⟨early, late, hsplit⟩ := List.append_of_mem hlooked
    have hholds := hreach.routed.looked _ _ _ _ _ _ hsplit
    exact if_pos (hholds.routes _ subscription hsubscription)

end Publish

/-- Messages and subscribers are numbers. A message is about its parity, and one subscriber refuses
everything. -/
def sampleSetting : Setting Bool Nat Nat where
  topicOf message := message % 2 = 0
  verdict _ subscriber _ := if subscriber = 2 then .error "refused" else .ok ()

/-- Two subscribers are registered for even numbers and one for odd ones. An even number is
published, and while the first subscriber handles it an odd number is published and another
subscriber joins. -/
def joining : List (Move (Call Bool Nat Nat)) :=
  [.call (.subscribe true 1), .proceed, .proceed, .call (.subscribe false 3), .proceed, .proceed,
    .call (.subscribe true 2), .proceed, .proceed, .call (.publish 4), .proceed, .proceed,
    .call (.publish 5), .proceed, .proceed, .proceed, .proceed,
    .call (.subscribe true 6), .proceed, .proceed] ++ .replicate 4 .proceed

/-- The even number goes to the first two, not to the one who has joined meanwhile, and the refusal
is told. -/
theorem publish_routes_exactly_of_joining : ∃ moment outcome,
    (calls sampleSetting).run? (.start ⟨.empty, 0⟩) joining = some moment ∧
      ⟨3, .publish 4, .returned outcome⟩ ∈ moment.world.history ∧
      moment.world.state.pubSub.count true = 3 ∧
      handed (exchangesOf 3 moment.world.history) = [(1, 4), (2, 4)] ∧
      ∀ error, outcome = .error error → error.failures = ["refused"] := by
  obtain ⟨moment, hrun, hcalled, hreturned, hcount, hregistered, hverdicts⟩ : ∃ moment,
      (calls sampleSetting).run? (.start ⟨.empty, 0⟩) joining = some moment ∧
        moment.world.history = moment.world.history.take 9 ++
          ⟨3, .publish 4, .called⟩ :: moment.world.history.drop 10 ∧
        ⟨3, .publish 4, .returned (.error ⟨["refused"]⟩)⟩ ∈ moment.world.history ∧
        moment.world.state.pubSub.count true = 3 ∧
        registered true (moment.world.history.take 9) = [1, 2] ∧
        failures (verdicts (exchangesOf 3 moment.world.history)) = ["refused"] :=
    ⟨_, rfl, rfl, List.mem_of_getElem? (i := 23) rfl, rfl, rfl, rfl⟩
  obtain ⟨-, hends, -⟩ := publish_routes_exactly ⟨joining, hrun⟩ hcalled
  obtain ⟨hhanded, -, -, hfailures⟩ := hends _ hreturned
  refine ⟨moment, _, hrun, hreturned, hcount, ?_, fun error herror => ?_⟩
  · exact hhanded.trans (congrArg (List.map fun subscriber => (subscriber, 4)) hregistered)
  · exact (hfailures error herror).trans hverdicts

end EventSourcing.Publishing
