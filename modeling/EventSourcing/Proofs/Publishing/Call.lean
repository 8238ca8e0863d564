import EventSourcing.Proofs.Interleaving.Run
import EventSourcing.PubSub

namespace EventSourcing.Publishing

open Interleaving

variable {Topic Message S α : Type} [DecidableEq Topic]

/-- The subscriptions, and how many verdicts have been given so far. -/
structure Hub (Topic S : Type) where
  pubSub : PubSub Topic S
  time : Nat

/-- What messages are about, and what is left open: the verdicts of subscribers, for every time. -/
structure Setting (Topic Message S : Type) where
  topicOf : Message → Topic
  verdict : (time : Nat) → S → Message → Except String Unit

/-- One indivisible step of a call. -/
inductive Request (Topic Message S : Type) where
  /-- The publishing of a message begins with a look at the subscriptions. -/
  | look (message : Message)
  /-- A subscriber gets a message. What it calls meanwhile runs before its verdict. -/
  | hand (subscriber : S) (message : Message)
  | verdict (subscriber : S) (message : Message)
  | subscribe (topic : Topic) (subscriber : S)

abbrev Request.Reply : Request Topic Message S → Type
  | .look _ => PubSub Topic S
  | .hand _ _ => Unit
  | .verdict _ _ => Except String Unit
  | .subscribe _ _ => Unit

def answer (setting : Setting Topic Message S) (hub : Hub Topic S) :
    (request : Request Topic Message S) → request.Reply × Hub Topic S
  | .look _ => (hub.pubSub, hub)
  | .hand _ _ => ((), hub)
  | .verdict subscriber message =>
    (setting.verdict hub.time subscriber message, { hub with time := hub.time + 1 })
  | .subscribe topic subscriber =>
    ((), { hub with pubSub := hub.pubSub.subscribe topic subscriber })

def Request.isCheckpoint : Request Topic Message S → Bool
  | .hand _ _ => true
  | _ => false

abbrev Operation (Topic Message S α : Type) :=
  Program (Request Topic Message S) Request.Reply α

def ask (request : Request Topic Message S) : Operation Topic Message S request.Reply :=
  Program.request request

/-- Lets a subscriber handle a message. -/
def receive (subscriber : S) (message : Message) :
    Operation Topic Message S (Except String Unit) := do
  ask (.hand subscriber message)
  ask (.verdict subscriber message)

inductive Call (Topic Message S : Type) where
  | subscribe (topic : Topic) (subscriber : S)
  | publish (message : Message)

namespace Call

abbrev Outcome : Call Topic Message S → Type
  | subscribe _ _ => Unit
  | publish _ => Except PublishError Unit

def program (setting : Setting Topic Message S) :
    (call : Call Topic Message S) → Operation Topic Message S call.Outcome
  | subscribe topic subscriber => ask (.subscribe topic subscriber)
  | publish message => do
    let pubSub ← ask (.look message)
    pubSub.publish setting.topicOf receive message

end Call

/-- All uses of a hub. -/
def calls (setting : Setting Topic Message S) :
    System (Request Topic Message S) Request.Reply (Hub Topic S) (Call Topic Message S)
      Call.Outcome where
  answer := answer setting
  isCheckpoint := Request.isCheckpoint
  program := Call.program setting

abbrev Entry (Topic Message S : Type) :=
  Interleaving.Entry (@Request.Reply Topic Message S) (@Call.Outcome Topic Message S)

abbrev History (Topic Message S : Type) :=
  List (Entry Topic Message S)

abbrev Moment (Topic Message S : Type) :=
  Interleaving.Moment (Hub Topic S) (@Request.Reply Topic Message S)
    (@Call.Outcome Topic Message S)

/-- A moment of some run that begins without subscriptions. -/
def Reachable (setting : Setting Topic Message S) (moment : Moment Topic Message S) : Prop :=
  (calls setting).Reaches (.start ⟨.empty, 0⟩) moment

end EventSourcing.Publishing
