import EventSourcing.Identifier
import EventSourcing.Json.Literal
import EventSourcing.Limit

namespace EventSourcing.Json

/-- The first problem of a text. -/
inductive ReadError where
  /-- The text is no JSON, or its values are not of the types expected. -/
  | malformed
  | identifier (error : IdentifierError)
  | limit (error : LimitError)
  | missingField (name : String)
  | duplicateField (name : String)
  deriving DecidableEq, Repr

namespace ReadError

def message? : ReadError → Option String
  | malformed => none
  | identifier error => some (error.message ++ " Expected valid " ++ error.kind.name)
  | limit error => some (error.message ++ " Expected valid " ++ error.typeName)
  | missingField name => some s!"missing field `{name}`"
  | duplicateField name => some s!"duplicate field `{name}`"

end ReadError

/-- Takes a value off the front of a text. -/
abbrev Reader (α : Type) :=
  StateT (List Char) (Except ReadError) α

/-- The characters that may stand between JSON tokens. -/
def isSpace (c : Char) : Bool :=
  c == ' ' || c == '\n' || c == '\t' || c == '\r'

/-- The text behind the space at its front. -/
def dropSpace (cs : List Char) : List Char :=
  cs.dropWhile isSpace

namespace Reader

variable {α β ε σ : Type}

/-- Reads what `read?` takes off the front, once the space before it is gone. -/
def token (read? : List Char → Option (α × List Char)) : Reader α := fun cs =>
  match read? (dropSpace cs) with
  | some result => .ok result
  | none => .error .malformed

/-- Looks at the next character that is no space. -/
def peek : Reader (Option Char) := fun cs =>
  .ok ((dropSpace cs).head?, cs)

def char (expected : Char) : Reader Unit :=
  token fun
    | c :: rest => if c = expected then some ((), rest) else none
    | [] => none

def string : Reader String :=
  token fun
    | '"' :: rest => (readBody? rest).map fun (text, rest) => (String.ofList text, rest)
    | _ => none

/-- Reads a whole number below `bound`. -/
def nat (bound : Nat) : Reader Nat := do
  let n ← token readNat?
  if n < bound then return n else throw .malformed

/-- Reads a value, and goes on with what it is checked as. -/
def checked (reader : Reader β) (check : β → Except ε α) (error : ε → ReadError) : Reader α := do
  match check (← reader) with
  | .ok value => return value
  | .error problem => throw (error problem)

/-- Reads a value of any type and forgets it. -/
def skipped (skip? : List Char → Option (List Char)) : Reader Unit :=
  token fun cs => (skip? cs).map fun rest => ((), rest)

/-- Reads a text that holds one value and nothing else. -/
def decode (reader : Reader α) (text : String) : Except ReadError α := do
  let (value, rest) ← reader.run text.toList
  if dropSpace rest = [] then return value else throw .malformed

end Reader

end EventSourcing.Json
