import EventSourcing.Identifier

namespace EventSourcing

/-- The ids in ascending order, and how many have been inserted. -/
structure IdIndex where
  inserted : Nat
  ids : List AggregateId
  deriving DecidableEq

namespace IdIndex

protected def empty : IdIndex :=
  ⟨0, []⟩

/-- Puts an id before the first greater one; an id that is there stays as it is. -/
def insertSorted (id : AggregateId) : List AggregateId → List AggregateId
  | [] => [id]
  | first :: rest =>
    match compare id first with
    | .lt => id :: first :: rest
    | .eq => first :: rest
    | .gt => first :: insertSorted id rest

def insert (index : IdIndex) (id : AggregateId) : IdIndex :=
  ⟨index.inserted + 1, insertSorted id index.ids⟩

/-- The ids greater than `after`, at most `max` of them. -/
def page (index : IdIndex) (after : Option AggregateId) (max : Option Nat) : List AggregateId :=
  let later :=
    match after with
    | some after => index.ids.filter fun id => compare after id == .lt
    | none => index.ids
  match max with
  | some max => later.take max
  | none => later

theorem mem_insertSorted_self (id : AggregateId) (ids : List AggregateId) :
    id ∈ insertSorted id ids := by
  induction ids with
  | nil => exact List.mem_cons_self
  | cons first rest ih =>
    unfold insertSorted
    split
    · exact List.mem_cons_self
    · next heq =>
      obtain rfl := Identifier.eq_of_compare heq
      exact List.mem_cons_self
    · exact List.mem_cons_of_mem _ ih

/-- Putting an id in makes no other id come or go. -/
theorem mem_insertSorted_of_ne {id other : AggregateId} (h : other ≠ id)
    (ids : List AggregateId) : other ∈ insertSorted id ids ↔ other ∈ ids := by
  induction ids with
  | nil => simp [insertSorted, h]
  | cons first rest ih =>
    unfold insertSorted
    split
    · simp [h]
    · rfl
    · simp [ih]

/-- Putting an id in keeps the ids in ascending order. -/
theorem pairwise_insertSorted (id : AggregateId) {ids : List AggregateId}
    (h : ids.Pairwise fun a b => compare a b = .lt) :
    (insertSorted id ids).Pairwise fun a b => compare a b = .lt := by
  induction ids with
  | nil => exact List.pairwise_singleton _ _
  | cons first rest ih =>
    obtain ⟨hfirst, hrest⟩ := List.pairwise_cons.1 h
    unfold insertSorted
    split
    · next hlt =>
      refine List.pairwise_cons.2 ⟨fun other hother => ?_, h⟩
      rcases List.mem_cons.1 hother with rfl | hother
      · exact hlt
      · exact Std.TransCmp.lt_trans hlt (hfirst other hother)
    · exact h
    · next hgt =>
      refine List.pairwise_cons.2 ⟨fun other hother => ?_, ih hrest⟩
      by_cases heq : other = id
      · exact heq ▸ Std.OrientedCmp.lt_of_gt hgt
      · exact hfirst other ((mem_insertSorted_of_ne heq rest).1 hother)

theorem length_insertSorted {id : AggregateId} {ids : List AggregateId} (habsent : id ∉ ids) :
    (insertSorted id ids).length = ids.length + 1 := by
  induction ids with
  | nil => rfl
  | cons first rest ih =>
    obtain ⟨hne, habsent⟩ := not_or.1 fun h => habsent (List.mem_cons.2 h)
    unfold insertSorted
    split
    · rfl
    · next heq => exact absurd (Identifier.eq_of_compare heq) hne
    · exact congrArg (· + 1) (ih habsent)

/-- An index that counts its ids, each of which is there once. -/
structure Valid (index : IdIndex) : Prop where
  inserted_eq : index.inserted = index.ids.length
  ascending : index.ids.Pairwise fun a b => compare a b = .lt

theorem Valid.empty : IdIndex.empty.Valid :=
  ⟨rfl, List.Pairwise.nil⟩

theorem Valid.insert {index : IdIndex} (hvalid : index.Valid) {id : AggregateId}
    (habsent : id ∉ index.ids) : (index.insert id).Valid where
  inserted_eq := by
    rw [IdIndex.insert, length_insertSorted habsent, hvalid.inserted_eq]
  ascending := pairwise_insertSorted id hvalid.ascending

end IdIndex

end EventSourcing
