import EventSourcing.Collect

namespace EventSourcing

/-- Some subscribers of a message failed, in the order of their subscription. -/
structure PublishError where
  failures : List String
  deriving DecidableEq, Repr

namespace PublishError

def message (error : PublishError) : String :=
  let count := error.failures.length
  s!"{count} subscriber(s) failed"

end PublishError

/-- A subscriber with the topic of the messages it can take. -/
structure Subscription (Topic S : Type) where
  topic : Topic
  subscriber : S

/-- The subscriptions to each topic, in the order in which they were made. -/
structure PubSub (Topic S : Type) where
  topics : List (Topic × List (Subscription Topic S))

namespace PubSub

variable {Topic S Message : Type} [DecidableEq Topic]

protected def empty : PubSub Topic S :=
  ⟨[]⟩

def subscriptions (pubSub : PubSub Topic S) (topic : Topic) : List (Subscription Topic S) :=
  ((pubSub.topics.find? fun entry => entry.1 = topic).map Prod.snd).getD []

/-- Puts a subscription behind the others to its topic. -/
def addTo (topic : Topic) (subscription : Subscription Topic S) :
    List (Topic × List (Subscription Topic S)) → List (Topic × List (Subscription Topic S))
  | [] => [(topic, [subscription])]
  | entry :: rest =>
    if entry.1 = topic then (topic, entry.2 ++ [subscription]) :: rest
    else entry :: addTo topic subscription rest

/-- Registers a subscriber for a topic. -/
def subscribe (pubSub : PubSub Topic S) (topic : Topic) (subscriber : S) : PubSub Topic S :=
  ⟨addTo topic ⟨topic, subscriber⟩ pubSub.topics⟩

def count (pubSub : PubSub Topic S) (topic : Topic) : Nat :=
  (pubSub.subscriptions topic).length

/-- How many topics have ever had a subscriber. -/
def topicCount (pubSub : PubSub Topic S) : Nat :=
  pubSub.topics.length

/-- The failure of a subscriber that gets a message it cannot take. -/
def mismatch : String :=
  "message routed to a subscriber of another type"

section Publish

variable {m : Type → Type} [Monad m] (topicOf : Message → Topic)
  (receive : S → Message → m (Except String Unit))

def hand (message : Message) (subscription : Subscription Topic S) : m (Except String Unit) :=
  if subscription.topic = topicOf message then receive subscription.subscriber message
  else return .error mismatch

/-- Hands a message to the given subscribers, one after the other. -/
def publishTo (subscriptions : List (Subscription Topic S)) (message : Message) :
    m (Except PublishError Unit) := do
  match ← forEachCollecting (pure false) (hand topicOf receive message) subscriptions with
  | .ok _ => return .ok ()
  | .error (.failed failures) => return .error ⟨failures⟩
  | .error .cancelled => return .error ⟨["publishing was cancelled"]⟩

/-- Hands a message to the subscribers that its topic has now, not to those that join meanwhile. -/
def publish (pubSub : PubSub Topic S) (message : Message) : m (Except PublishError Unit) :=
  publishTo topicOf receive (pubSub.subscriptions (topicOf message)) message

end Publish

private theorem find?_addTo (entries : List (Topic × List (Subscription Topic S))) (topic : Topic)
    (subscription : Subscription Topic S) (other : Topic) :
    (((addTo topic subscription entries).find? fun entry => entry.1 = other).map Prod.snd).getD [] =
      ((entries.find? fun entry => entry.1 = other).map Prod.snd).getD [] ++
        if other = topic then [subscription] else [] := by
  induction entries with
  | nil =>
    by_cases h : other = topic
    · simp [addTo, h]
    · have : ¬ topic = other := fun e => h e.symm
      simp [addTo, h, this]
  | cons entry rest ih =>
    rw [addTo]
    by_cases ht : entry.1 = topic
    · rw [if_pos ht]
      by_cases h : other = topic
      · simp [ht, h]
      · have : ¬ topic = other := fun e => h e.symm
        simp [ht, h, this]
    · rw [if_neg ht]
      by_cases ho : entry.1 = other
      · have : ¬ other = topic := fun e => ht (ho.trans e)
        simp [ho, this]
      · simpa [ho] using ih

/-- A new subscription goes behind the others to its topic and touches no other topic. -/
theorem subscriptions_subscribe (pubSub : PubSub Topic S) (topic : Topic) (subscriber : S)
    (other : Topic) :
    (pubSub.subscribe topic subscriber).subscriptions other =
      pubSub.subscriptions other ++ if other = topic then [⟨topic, subscriber⟩] else [] :=
  find?_addTo pubSub.topics topic _ other

end PubSub

end EventSourcing
