import EventSourcing.Proofs.Interleaving.Nesting
import EventSourcing.ScriptedHook

namespace EventSourcing.Scripting

open Interleaving

variable {P A α : Type} [DecidableEq P]

/-- One indivisible step of a call. -/
inductive Request (P A : Type) where
  | register (checkpoint : P) (action : A)
  | arrive (checkpoint : P)
  /-- An action begins. Whatever it does runs before its call goes on. -/
  | run (action : A)
  | take (checkpoint : P)
  | look (checkpoint : P)

abbrev Request.Reply : Request P A → Type
  | .register _ _ => Unit
  | .arrive _ => Option A
  | .run _ => Unit
  | .take _ => Bool
  | .look _ => Nat

def answer (hook : ScriptedHook P A) :
    (request : Request P A) → request.Reply × ScriptedHook P A
  | .register checkpoint action => ((), hook.onFirst checkpoint action)
  | .arrive checkpoint => hook.arrive checkpoint
  | .run _ => ((), hook)
  | .take checkpoint => hook.tryTake checkpoint
  | .look checkpoint => (hook.pending checkpoint, hook)

def Request.isCheckpoint : Request P A → Bool
  | .run _ => true
  | .register _ _ | .arrive _ | .take _ | .look _ => false

abbrev Operation (P A α : Type) :=
  Program (Request P A) Request.Reply α

def ask (request : Request P A) : Operation P A request.Reply :=
  Program.request request

/-- Arrives at a checkpoint and runs the action that this sets off. -/
def reach (checkpoint : P) : Operation P A Unit := do
  match ← ask (.arrive checkpoint) with
  | some action => ask (.run action)
  | none => return ()

inductive Call (P A : Type) where
  | onFirst (checkpoint : P) (action : A)
  | reached (checkpoint : P)
  | tryTake (checkpoint : P)
  /-- Takes an arrival without waiting for one. -/
  | waitFor (checkpoint : P)
  | pending (checkpoint : P)

namespace Call

abbrev Outcome : Call P A → Type
  | onFirst _ _ => Unit
  | reached _ => Unit
  | tryTake _ => Bool
  | waitFor _ => Bool
  | pending _ => Nat

def program : (call : Call P A) → Operation P A call.Outcome
  | onFirst checkpoint action => ask (.register checkpoint action)
  | reached checkpoint => reach checkpoint
  | tryTake checkpoint => ask (.take checkpoint)
  | waitFor checkpoint => ask (.take checkpoint)
  | pending checkpoint => ask (.look checkpoint)

end Call

/-- All uses of a hook. -/
def calls (P A : Type) [DecidableEq P] :
    System (Request P A) Request.Reply (ScriptedHook P A) (Call P A) Call.Outcome where
  answer := answer
  isCheckpoint := Request.isCheckpoint
  program := Call.program

abbrev Entry (P A : Type) :=
  Interleaving.Entry (@Request.Reply P A) (@Call.Outcome P A)

abbrev History (P A : Type) :=
  List (Entry P A)

abbrev Moment (P A : Type) :=
  Interleaving.Moment (ScriptedHook P A) (@Request.Reply P A) (@Call.Outcome P A)

/-- A moment of some run that begins with an unused hook. -/
def Reachable (moment : Moment P A) : Prop :=
  (calls P A).Reaches (.start .empty) moment

end EventSourcing.Scripting
