import EventSourcing.Domain
import EventSourcing.Round.Basic

namespace EventSourcing.Round

/-- What a command asks of a round. -/
inductive Action where
  | startRound (minInputSats : Nat)
  | registerInput (inputId : String) (sats : Nat)
  | unregisterInput (inputId : String)
  | startSigning
  | setSucceeded (txId : String)
  | setFailed (reason : String)
  /-- Makes the processor itself fail. -/
  | explode
  deriving DecidableEq, Repr

/-- A command with the id of its submission. -/
structure Command where
  id : Uuid
  action : Action
  deriving DecidableEq, Repr

namespace Action

def name : Action → String
  | startRound _ => "StartRound"
  | registerInput _ _ => "RegisterInput"
  | unregisterInput _ => "UnregisterInput"
  | startSigning => "StartSigning"
  | setSucceeded _ => "SetSucceeded"
  | setFailed _ => "SetFailed"
  | explode => "Explode"

end Action

def requireStatus (state : State) (expected : Status) : Except DomainError Unit :=
  if state.status = expected then
    .ok ()
  else
    let actualName := state.status.name
    let expectedName := expected.name
    .error (.ofProperty "Status" s!"Round is {actualName}, expected {expectedName}")

def startRound (state : State) (minInputSats : Nat) : Except DomainError (List Event) := do
  requireStatus state .new
  return [.roundStarted minInputSats]

/-- A started round takes inputs that are large enough and not yet there. -/
def registerInput (state : State) (inputId : String) (sats : Nat) :
    Except DomainError (List Event) := do
  requireStatus state .started
  if sats < state.minInputSats then
    let minimum := state.minInputSats
    .error (.ofProperty "Sats" s!"Input amount {sats} is below minimum {minimum}")
  else if state.hasInput inputId then
    .error (.ofProperty "InputId" "Input is already registered")
  else
    .ok [.inputRegistered inputId sats]

/-- A started round gives back inputs that are there. -/
def unregisterInput (state : State) (inputId : String) : Except DomainError (List Event) := do
  requireStatus state .started
  if state.hasInput inputId then
    .ok [.inputUnregistered inputId]
  else
    .error (.ofProperty "InputId" "Input is not registered")

/-- A started round with inputs goes on to signing. -/
def startSigning (state : State) : Except DomainError (List Event) := do
  requireStatus state .started
  if state.inputs.isEmpty then
    .error (.ofProperty "Inputs" "Round has no inputs")
  else
    .ok [.signingStarted]

def setSucceeded (state : State) (txId : String) : Except DomainError (List Event) := do
  requireStatus state .signing
  return [.roundSucceeded txId]

/-- A round fails unless it has ended already. -/
def setFailed (state : State) (reason : String) : Except DomainError (List Event) :=
  match state.status with
  | .new | .started | .signing => .ok [.roundFailed reason]
  | .succeeded | .failed => .error (.ofProperty "Status" "Round has already ended")

def outcomeOf : Except DomainError (List Event) → Outcome Event
  | .ok events => .success events
  | .error error => .failure (.single error)

def process : Processor State Command Event := fun command state =>
  match command.action with
  | .startRound minInputSats => .ok (outcomeOf (startRound state minInputSats))
  | .registerInput inputId sats => .ok (outcomeOf (registerInput state inputId sats))
  | .unregisterInput inputId => .ok (outcomeOf (unregisterInput state inputId))
  | .startSigning => .ok (outcomeOf (startSigning state))
  | .setSucceeded txId => .ok (outcomeOf (setSucceeded state txId))
  | .setFailed reason => .ok (outcomeOf (setFailed state reason))
  | .explode => .error "round processor exploded"

/-- Rounds, under their one type name. -/
def domain : Domain State Command Event where
  fresh type := if type.text = typeName then some .initial else none
  apply := State.apply
  processor type := if type.text = typeName then some process else none
  commandId := Command.id

end EventSourcing.Round
