import EventSourcing.Json.Skip

namespace EventSourcing.Json

/-- A field of a record whose parts are gathered in a `σ`. -/
structure Field (σ : Type) where
  name : String
  isOptional : Bool
  isRead : σ → Bool
  read : σ → Reader σ

/-- A record that is made of the parts in a `σ`. -/
structure Record (σ α : Type) where
  fields : List (Field σ)
  start : σ
  /-- The value, or the first of its fields that is missing. -/
  finish : σ → Except ReadError α

namespace Record

variable {σ α : Type}

/-- Reads the comma before a part that is not the first. -/
def separator (isFirst : Bool) : Reader Unit :=
  if isFirst then return else Reader.char ','

/-- Reads the elements for the given fields and the end of the array. -/
def readElements : (fields : List (Field σ)) → (isFirst : Bool) → σ → Reader σ
  | [], _, parts => do
    Reader.char ']'
    return parts
  | field :: fields, isFirst, parts => do
    if (← Reader.peek) = some ']' then
      if field.isOptional then readElements fields isFirst parts else throw .malformed
    else
      separator isFirst
      let parts ← field.read parts
      readElements fields false parts

/-- Reads a member whose name has been read. -/
def readMember (fields : List (Field σ)) (name : String) (parts : σ) : Reader σ := do
  match fields.find? fun field => field.name == name with
  | some field =>
    if field.isRead parts then
      throw (.duplicateField name)
    else
      Reader.char ':'
      field.read parts
  | none =>
    Reader.char ':'
    Reader.skipped skipValue?
    return parts

/-- Reads members up to and with the end of the object; each takes some characters, so as many
`steps` as characters suffice. -/
def readMembers (fields : List (Field σ)) : (steps : Nat) → (isFirst : Bool) → σ → Reader σ
  | 0, _, _ => throw .malformed
  | steps + 1, isFirst, parts => do
    if (← Reader.peek) = some '\x7d' then
      Reader.char '\x7d'
      return parts
    else
      separator isFirst
      let name ← Reader.string
      let parts ← readMember fields name parts
      readMembers fields steps false parts

/-- Reads a record in either form. -/
def reader (record : Record σ α) : Reader α := do
  let parts ←
    match ← Reader.peek with
    | some '[' => do
      Reader.char '['
      readElements record.fields true record.start
    | some '\x7b' => do
      Reader.char '\x7b'
      let steps := (← get).length
      readMembers record.fields steps true record.start
    | _ => throw .malformed
  record.finish parts

/-- The record of one field, which has a default. -/
def single {β : Type} (name : String) (reader : Reader β) (default : β) (make : β → α) :
    Record (Option β) α where
  fields := [{ name, isOptional := true, isRead := Option.isSome,
               read := fun _ => do return some (← reader) }]
  start := none
  finish part := .ok (make (part.getD default))

end Record

def writeMembers : List (String × List Char) → List Char
  | [] => []
  | [(name, value)] => writeString name ++ ':' :: value
  | (name, value) :: rest => writeString name ++ ':' :: value ++ ',' :: writeMembers rest

def writeObject (members : List (String × List Char)) : List Char :=
  '\x7b' :: writeMembers members ++ ['\x7d']

end EventSourcing.Json
