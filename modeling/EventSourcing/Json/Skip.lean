import EventSourcing.Json.Reader

namespace EventSourcing.Json

/-- A collection that has begun and not ended yet. -/
inductive Open where
  | array
  | object
  deriving DecidableEq, Repr

def skipName? (cs : List Char) : Option (List Char) :=
  match dropSpace cs with
  | '"' :: rest =>
    match (skipBody? rest).map dropSpace with
    | some (':' :: rest) => some rest
    | _ => none
  | _ => none

/-- Skips a value that is neither a string nor a collection. -/
def skipScalar? : List Char → Option (List Char)
  | 'n' :: 'u' :: 'l' :: 'l' :: rest => some rest
  | 't' :: 'r' :: 'u' :: 'e' :: rest => some rest
  | 'f' :: 'a' :: 'l' :: 's' :: 'e' :: rest => some rest
  | cs => skipNumber? cs

/-- Skips to the end of the collections in `stack`, outermost last. A value comes next unless
`afterValue`; each step takes at least one character, so as many `steps` as characters suffice. -/
def skipRest? : (steps : Nat) → (stack : List Open) → (afterValue : Bool) → List Char →
    Option (List Char)
  | 0, _, _, _ => none
  | _ + 1, [], true, cs => some cs
  | steps + 1, .array :: outer, true, cs =>
    match dropSpace cs with
    | ',' :: rest => skipRest? steps (.array :: outer) false rest
    | ']' :: rest => skipRest? steps outer true rest
    | _ => none
  | steps + 1, .object :: outer, true, cs =>
    match dropSpace cs with
    | ',' :: rest => (skipName? rest).bind (skipRest? steps (.object :: outer) false)
    | '\x7d' :: rest => skipRest? steps outer true rest
    | _ => none
  | steps + 1, stack, false, cs =>
    match dropSpace cs with
    | '"' :: rest => (skipBody? rest).bind (skipRest? steps stack true)
    | '[' :: rest =>
      match dropSpace rest with
      | ']' :: rest => skipRest? steps stack true rest
      | rest => skipRest? steps (.array :: stack) false rest
    | '\x7b' :: rest =>
      match dropSpace rest with
      | '\x7d' :: rest => skipRest? steps stack true rest
      | rest => (skipName? rest).bind (skipRest? steps (.object :: stack) false)
    | rest => (skipScalar? rest).bind (skipRest? steps stack true)

def skipValue? (cs : List Char) : Option (List Char) :=
  skipRest? (cs.length + 1) [] false cs

end EventSourcing.Json
