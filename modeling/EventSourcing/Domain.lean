import EventSourcing.Identifier
import EventSourcing.Uuid

namespace EventSourcing

/-- One reason to refuse a command. -/
structure DomainError where
  /-- The property of the command or state that is at fault. -/
  property : Option String
  message : String
  /-- The text of the failure that the reason reports, if it reports one. -/
  source : Option String
  deriving DecidableEq, Repr

namespace DomainError

def general (message : String) : DomainError :=
  ⟨none, message, none⟩

def ofProperty (property message : String) : DomainError :=
  ⟨some property, message, none⟩

/-- The reason that reports a failure of the processor itself. -/
def ofSource (text : String) : DomainError :=
  ⟨none, text, some text⟩

/-- A reason is written as its message, after its property if it has one. -/
instance : ToString DomainError where
  toString error :=
    match error.property with
    | some property => property ++ ": " ++ error.message
    | none => error.message

end DomainError

/-- The reasons for a refusal; there is at least one. -/
structure DomainErrors where
  toList : List DomainError
  ne_nil : toList ≠ []
  deriving DecidableEq

namespace DomainErrors

/-- The text of the refusal of an empty list. -/
def emptyMessage : String :=
  "DomainErrors failed the predicate test."

/-- The reasons in a list, if there are any. -/
def ofList? (errors : List DomainError) : Option DomainErrors :=
  if h : errors = [] then none else some ⟨errors, h⟩

def head (errors : DomainErrors) : DomainError :=
  errors.toList.head errors.ne_nil

def single (error : DomainError) : DomainErrors :=
  ⟨[error], List.cons_ne_nil _ _⟩

end DomainErrors

/-- What a processor answers to a command. -/
inductive Outcome (E : Type) where
  | success (events : List E)
  | failure (errors : DomainErrors)
  deriving DecidableEq

namespace Outcome

variable {E : Type}

def isSuccess : Outcome E → Bool
  | success _ => true
  | failure _ => false

end Outcome

/-- A processor answers a command on a state, or fails itself with a text. -/
abbrev Processor (State Command Event : Type) :=
  Command → State → Except String (Outcome Event)

/-- The aggregates and command processors of a domain. -/
structure Domain (State Command Event : Type) where
  /-- The state of an aggregate without events; `none` for a type that has no aggregate. -/
  fresh : AggregateType → Option State
  apply : State → Event → State
  /-- The processor for aggregates of a type; `none` for a type that has none. -/
  processor : AggregateType → Option (Processor State Command Event)
  /-- The id that tells a repeated command from a new one. -/
  commandId : Command → Uuid

namespace Domain

variable {State Command Event : Type}

/-- The state that a sequence of events leads to. -/
def fold (domain : Domain State Command Event) (state : State) (events : List Event) : State :=
  events.foldl domain.apply state

/-- The states that a sequence of events leads through, from the first to the last. -/
def states (domain : Domain State Command Event) (state : State) : List Event → List State
  | [] => [state]
  | event :: rest => state :: domain.states (domain.apply state event) rest

/-- A processor's answer, its own failure turned into a refusal with that single reason. -/
def decide (processor : Processor State Command Event) (command : Command) (state : State) :
    Outcome Event :=
  match processor command state with
  | .ok outcome => outcome
  | .error text => .failure (.single (.ofSource text))

end Domain

end EventSourcing
