import EventSourcing.Uuid

namespace EventSourcing.Round

def typeName : String :=
  "TestRoundAggregate"

/-- What can happen to a round. -/
inductive Event where
  | roundStarted (minInputSats : Nat)
  | inputRegistered (inputId : String) (sats : Nat)
  | inputUnregistered (inputId : String)
  | signingStarted
  | roundSucceeded (txId : String)
  | roundFailed (reason : String)
  deriving DecidableEq, Repr

inductive Status where
  | new
  | started
  | signing
  | succeeded
  | failed
  deriving DecidableEq, Repr

namespace Status

def name : Status → String
  | new => "New"
  | started => "Started"
  | signing => "Signing"
  | succeeded => "Succeeded"
  | failed => "Failed"

def all : List Status :=
  [new, started, signing, succeeded, failed]

def ofName? (name : String) : Option Status :=
  all.find? fun status => status.name == name

end Status

/-- An input that takes part in a round. -/
structure Input where
  id : String
  sats : Nat
  deriving DecidableEq, Repr

/-- What is known of a round. -/
structure State where
  status : Status := .new
  minInputSats : Nat := 0
  inputs : List Input := []
  txId : Option String := none
  failureReason : Option String := none
  deriving DecidableEq, Repr

namespace State

def initial : State :=
  {}

def hasInput (state : State) (inputId : String) : Bool :=
  state.inputs.any fun input => input.id = inputId

/-- The state after an event. -/
def apply (state : State) : Event → State
  | .roundStarted minInputSats => { state with minInputSats, status := .started }
  | .inputRegistered inputId sats => { state with inputs := state.inputs ++ [⟨inputId, sats⟩] }
  | .inputUnregistered inputId =>
    { state with inputs := state.inputs.filter fun input => input.id ≠ inputId }
  | .signingStarted => { state with status := .signing }
  | .roundSucceeded txId => { state with txId := some txId, status := .succeeded }
  | .roundFailed reason => { state with failureReason := some reason, status := .failed }

end State

end EventSourcing.Round
