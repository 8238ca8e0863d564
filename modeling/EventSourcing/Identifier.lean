import EventSourcing.Text.Blank

namespace EventSourcing

/-- The two things an identifier may name. -/
inductive IdentifierKind where
  | aggregateType
  | aggregateId
  deriving DecidableEq, Repr

namespace IdentifierKind

def name : IdentifierKind → String
  | aggregateType => "AggregateType"
  | aggregateId => "AggregateId"

end IdentifierKind

namespace Identifier

def maxLength : Nat :=
  255

end Identifier

/-- A name with no blank at either end, not empty and not too long. -/
structure Identifier (kind : IdentifierKind) where
  text : String
  isTrimmed : Text.IsTrimmed text.toList
  ne_empty : text ≠ ""
  length_le : text.length ≤ Identifier.maxLength
  deriving DecidableEq

/-- What is wrong with a trimmed text that is no identifier. -/
inductive IdentifierProblem where
  | empty
  | tooLong
  deriving DecidableEq, Repr

/-- The refusal of a text as an identifier of one kind. -/
structure IdentifierError where
  kind : IdentifierKind
  problem : IdentifierProblem
  deriving DecidableEq, Repr

namespace IdentifierError

def message (error : IdentifierError) : String :=
  let name := error.kind.name
  match error.problem with
  | .empty => s!"{name} is empty."
  | .tooLong =>
    let limit := Identifier.maxLength
    s!"{name} is too long: the maximum valid length is {limit} characters."

end IdentifierError

namespace Identifier

/-- Trims a text and takes the rest as an identifier. -/
def parse (kind : IdentifierKind) (raw : String) : Except IdentifierError (Identifier kind) :=
  let text := Text.trim raw
  if hempty : text = "" then
    .error ⟨kind, .empty⟩
  else if hlength : text.length ≤ maxLength then
    .ok ⟨text, Text.isTrimmed_trim raw, hempty, hlength⟩
  else
    .error ⟨kind, .tooLong⟩

@[ext]
theorem ext {kind : IdentifierKind} {a b : Identifier kind} (h : a.text = b.text) : a = b := by
  cases a
  cases b
  cases h
  rfl

/-- The text of an identifier parses as that identifier. -/
theorem parse_text {kind : IdentifierKind} (a : Identifier kind) : parse kind a.text = .ok a := by
  simp [parse, Text.trim_of_isTrimmed a.isTrimmed, a.ne_empty, a.length_le]

/-- What parses is the trimmed text. -/
theorem text_of_parse {kind : IdentifierKind} {raw : String} {a : Identifier kind}
    (h : parse kind raw = .ok a) : a.text = Text.trim raw := by
  simp only [parse] at h
  split at h
  · cases h
  · split at h
    · cases h
      rfl
    · cases h

instance (kind : IdentifierKind) : ToString (Identifier kind) :=
  ⟨text⟩

instance (kind : IdentifierKind) : Ord (Identifier kind) :=
  ⟨fun a b => compare a.text b.text⟩

/-- The order of identifiers is that of their texts. -/
instance (kind : IdentifierKind) : Std.TransOrd (Identifier kind) :=
  inferInstanceAs (Std.TransCmp (compareOn text))

theorem eq_of_compare {kind : IdentifierKind} {a b : Identifier kind} (h : compare a b = .eq) :
    a = b :=
  ext (Std.LawfulEqOrd.eq_of_compare h)

/-- The code points of a name. -/
def codePoints {kind : IdentifierKind} (a : Identifier kind) : List Nat :=
  a.text.toList.map Char.toNat

private theorem map_toNat_lt_iff {cs ds : List Char} :
    cs.map Char.toNat < ds.map Char.toNat ↔ cs < ds := by
  induction cs generalizing ds with
  | nil => cases ds <;> simp
  | cons c cs ih =>
    cases ds with
    | nil => simp
    | cons d ds =>
      rw [List.map_cons, List.map_cons, List.cons_lt_cons_iff, List.cons_lt_cons_iff, ih,
        Char.toNat_inj]
      exact Iff.rfl

/-- Identifiers are ordered by their code points, one after the other. -/
theorem compare_eq_lt_iff {kind : IdentifierKind} {a b : Identifier kind} :
    compare a b = .lt ↔ a.codePoints < b.codePoints :=
  compareOfLessAndEq_eq_lt.trans map_toNat_lt_iff.symm

end Identifier

abbrev AggregateType :=
  Identifier .aggregateType

/-- The name of one aggregate among those of its type. -/
abbrev AggregateId :=
  Identifier .aggregateId

/-- The full name of one aggregate. -/
structure AggregateKey where
  type : AggregateType
  id : AggregateId
  deriving DecidableEq

namespace AggregateKey

/-- Keys are ordered by type and, within a type, by id. -/
instance : Ord AggregateKey :=
  ⟨fun a b => (compare a.type b.type).then (compare a.id b.id)⟩

/-- A key is written as its type, a slash and its id. -/
instance : ToString AggregateKey :=
  ⟨fun key => key.type.text ++ "/" ++ key.id.text⟩

/-- Parses the type first, so a key with two faults is refused for its type. -/
def parse (type id : String) : Except IdentifierError AggregateKey := do
  let type ← Identifier.parse .aggregateType type
  let id ← Identifier.parse .aggregateId id
  return ⟨type, id⟩

/-- The keys in ascending order. -/
def sort (keys : List AggregateKey) : List AggregateKey :=
  keys.mergeSort fun a b => (compare a b).isLE

/-- How many keys are equal to the key before them. -/
def countRepeats : List AggregateKey → Nat
  | first :: second :: rest =>
    (if first = second then 1 else 0) + countRepeats (second :: rest)
  | _ => 0

end AggregateKey

end EventSourcing
