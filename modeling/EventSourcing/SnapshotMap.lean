namespace EventSourcing

/-- A value with the stamp it got when it entered its map. -/
structure Snapshot (V : Type) where
  stamp : Nat
  value : V
  deriving DecidableEq

/-- At most one snapshot per key, each stamped when it came in. -/
structure SnapshotMap (K V : Type) where
  entries : List (K × Snapshot V)
  /-- The stamp of the next value to come in. -/
  nextStamp : Nat
  keys_nodup : (entries.map Prod.fst).Nodup
  stamp_lt : ∀ entry ∈ entries, entry.2.stamp < nextStamp

namespace SnapshotMap

variable {K V : Type} [DecidableEq K]

protected def empty : SnapshotMap K V where
  entries := []
  nextStamp := 0
  keys_nodup := List.nodup_nil
  stamp_lt := by simp

def get? (map : SnapshotMap K V) (key : K) : Option (Snapshot V) :=
  (map.entries.find? fun entry => entry.1 = key).map Prod.snd

private theorem find?_eq_none_of_get? {map : SnapshotMap K V} {key : K}
    (h : map.get? key = none) : ∀ entry ∈ map.entries, entry.1 ≠ key := by
  simpa [get?] using h

private def add (map : SnapshotMap K V) (key : K) (value : V) (absent : map.get? key = none) :
    SnapshotMap K V where
  entries := map.entries ++ [(key, ⟨map.nextStamp, value⟩)]
  nextStamp := map.nextStamp + 1
  keys_nodup := by
    have h := find?_eq_none_of_get? absent
    simp only [List.map_append, List.map_cons, List.map_nil, List.nodup_append]
    refine ⟨map.keys_nodup, by simp, ?_⟩
    intro a ha b hb
    obtain ⟨entry, hentry, rfl⟩ := List.mem_map.1 ha
    obtain rfl : b = key := by simpa using hb
    exact h entry hentry
  stamp_lt := by
    intro entry h
    rcases List.mem_append.1 h with h | h
    · exact Nat.lt_succ_of_lt (map.stamp_lt entry h)
    · obtain rfl : entry = _ := by simpa using h
      exact Nat.lt_succ_self _

private def put (map : SnapshotMap K V) (key : K) (value : V) : SnapshotMap K V where
  entries := map.entries.map fun entry =>
    if entry.1 = key then (key, ⟨map.nextStamp, value⟩) else entry
  nextStamp := map.nextStamp + 1
  keys_nodup := by
    have : (map.entries.map fun entry =>
        if entry.1 = key then (key, (⟨map.nextStamp, value⟩ : Snapshot V)) else entry).map Prod.fst
          = map.entries.map Prod.fst := by
      rw [List.map_map]
      apply List.map_congr_left
      intro entry _
      by_cases h : entry.1 = key <;> simp [h]
    rw [this]
    exact map.keys_nodup
  stamp_lt := by
    intro entry h
    obtain ⟨old, hold, rfl⟩ := List.mem_map.1 h
    split
    · exact Nat.lt_succ_self _
    · exact Nat.lt_succ_of_lt (map.stamp_lt old hold)

private def drop (map : SnapshotMap K V) (key : K) : SnapshotMap K V where
  entries := map.entries.filter fun entry => entry.1 ≠ key
  nextStamp := map.nextStamp
  keys_nodup := map.keys_nodup.sublist (List.filter_sublist.map _)
  stamp_lt := fun entry h => map.stamp_lt entry (List.mem_filter.1 h).1

/-- The current snapshot of a key, after `fallback` has come in if there was none; the flag says
whether it has. -/
def getOrInsert (map : SnapshotMap K V) (key : K) (fallback : V) :
    (Snapshot V × Bool) × SnapshotMap K V :=
  match h : map.get? key with
  | some current => ((current, false), map)
  | none => ((⟨map.nextStamp, fallback⟩, true), map.add key fallback h)

/-- Whether the entry of a key is the very snapshot that was seen. -/
def isCurrent (map : SnapshotMap K V) (key : K) (seen : Snapshot V) : Bool :=
  (map.get? key).any fun current => current.stamp = seen.stamp

/-- Replaces the entry of a key if it is still the snapshot that was seen. -/
def compareAndSwap (map : SnapshotMap K V) (key : K) (seen : Snapshot V) (new : V) :
    Bool × SnapshotMap K V :=
  if map.isCurrent key seen then (true, map.put key new) else (false, map)

/-- Removes the entry of a key if it is still the snapshot that was seen. -/
def compareAndRemove (map : SnapshotMap K V) (key : K) (seen : Snapshot V) :
    Bool × SnapshotMap K V :=
  if map.isCurrent key seen then (true, map.drop key) else (false, map)

/-- One indivisible use of a map. -/
inductive Request (K V : Type) where
  | get (key : K)
  | getOrInsert (key : K) (fallback : V)
  | compareAndSwap (key : K) (seen : Snapshot V) (new : V)
  | compareAndRemove (key : K) (seen : Snapshot V)
  | entries

abbrev Request.Reply : Request K V → Type
  | .get _ => Option (Snapshot V)
  | .getOrInsert _ _ => Snapshot V × Bool
  | .compareAndSwap _ _ _ => Bool
  | .compareAndRemove _ _ => Bool
  | .entries => List (K × Snapshot V)

def answer (map : SnapshotMap K V) : (r : Request K V) → r.Reply × SnapshotMap K V
  | .get key => (map.get? key, map)
  | .getOrInsert key fallback => map.getOrInsert key fallback
  | .compareAndSwap key seen new => map.compareAndSwap key seen new
  | .compareAndRemove key seen => map.compareAndRemove key seen
  | .entries => (map.entries, map)

@[simp]
theorem get?_empty (key : K) : (SnapshotMap.empty : SnapshotMap K V).get? key = none :=
  rfl

private theorem get?_add (map : SnapshotMap K V) (key : K) (value : V)
    (absent : map.get? key = none) (other : K) :
    (map.add key value absent).get? other =
      if other = key then some ⟨map.nextStamp, value⟩ else map.get? other := by
  by_cases h : other = key
  · subst h
    simp only [get?, Option.map_eq_none_iff] at absent
    simp [get?, add, List.find?_append, absent]
  · have : ¬ key = other := fun e => h e.symm
    simp [get?, add, List.find?_append, h, this]

private theorem find?_put (entries : List (K × Snapshot V)) (key other : K) (new : Snapshot V) :
    ((entries.map fun entry => if entry.1 = key then (key, new) else entry).find?
        fun entry => entry.1 = other).map Prod.snd =
      if other = key then
        ((entries.find? fun entry => entry.1 = other).map Prod.snd).map fun _ => new
      else (entries.find? fun entry => entry.1 = other).map Prod.snd := by
  induction entries with
  | nil => simp
  | cons entry rest ih =>
    rw [List.map_cons, List.find?_cons, List.find?_cons]
    by_cases hk : entry.1 = key <;> by_cases ho : entry.1 = other
    · have : other = key := ho.symm.trans hk
      simp [hk, this]
    · have hne : ¬ other = key := fun e => ho (hk.trans e.symm)
      have hne' : ¬ key = other := fun e => hne e.symm
      simp only [hk, if_true, hne', decide_false]
      simpa [hne, hne'] using ih
    · have hne : ¬ other = key := fun e => hk (ho.trans e)
      simp [ho, hne]
    · simp only [hk, if_false, ho, decide_false]
      exact ih

private theorem get?_put (map : SnapshotMap K V) (key : K) (value : V) (other : K) :
    (map.put key value).get? other =
      if other = key then (map.get? other).map fun _ => ⟨map.nextStamp, value⟩
      else map.get? other :=
  find?_put map.entries key other _

private theorem find?_drop (entries : List (K × Snapshot V)) (key other : K) :
    ((entries.filter fun entry => entry.1 ≠ key).find? fun entry => entry.1 = other) =
      if other = key then none else entries.find? fun entry => entry.1 = other := by
  induction entries with
  | nil => simp
  | cons entry rest ih =>
    by_cases hk : entry.1 = key <;> by_cases ho : entry.1 = other
    · have : other = key := ho.symm.trans hk
      simp [this]
    · have hne : ¬ other = key := fun e => ho (hk.trans e.symm)
      have hne' : ¬ key = other := fun e => hne e.symm
      simpa [List.filter_cons, hk, hne, hne'] using ih
    · have hne : ¬ other = key := fun e => hk (ho.trans e)
      simp [ho, hne]
    · simpa [List.filter_cons, hk, ho] using ih

private theorem get?_drop (map : SnapshotMap K V) (key other : K) :
    (map.drop key).get? other = if other = key then none else map.get? other := by
  rw [get?, drop, find?_drop]
  split <;> rfl

/-- Inserting yields the entry that the key has from then on. -/
theorem get?_getOrInsert_self (map : SnapshotMap K V) (key : K) (fallback : V) :
    (map.getOrInsert key fallback).2.get? key = some (map.getOrInsert key fallback).1.1 := by
  unfold getOrInsert
  split
  · next h => exact h
  · simp [get?_add]

theorem get?_getOrInsert_of_ne (map : SnapshotMap K V) {key other : K} (fallback : V)
    (h : other ≠ key) : (map.getOrInsert key fallback).2.get? other = map.get? other := by
  unfold getOrInsert
  split
  · rfl
  · simp [get?_add, h]

/-- The flag of an insertion says that the key was absent. -/
theorem getOrInsert_inserted_iff (map : SnapshotMap K V) (key : K) (fallback : V) :
    (map.getOrInsert key fallback).1.2 = true ↔ map.get? key = none := by
  unfold getOrInsert
  split <;> simp_all

theorem getOrInsert_of_get? {map : SnapshotMap K V} {key : K} {current : Snapshot V}
    (h : map.get? key = some current) (fallback : V) :
    map.getOrInsert key fallback = ((current, false), map) := by
  unfold getOrInsert
  split <;> simp_all

/-- A fallback comes in with the next stamp. -/
theorem getOrInsert_of_absent {map : SnapshotMap K V} {key : K} (h : map.get? key = none)
    (fallback : V) : (map.getOrInsert key fallback).1 = (⟨map.nextStamp, fallback⟩, true) ∧
      (map.getOrInsert key fallback).2.nextStamp = map.nextStamp + 1 := by
  unfold getOrInsert
  split
  · next current hcurrent => simp [h] at hcurrent
  · exact ⟨rfl, rfl⟩

theorem get?_getOrInsert_of_absent {map : SnapshotMap K V} {key : K} (h : map.get? key = none)
    (fallback : V) :
    (map.getOrInsert key fallback).2.get? key = some ⟨map.nextStamp, fallback⟩ := by
  rw [get?_getOrInsert_self, (getOrInsert_of_absent h fallback).1]

theorem isCurrent_iff {map : SnapshotMap K V} {key : K} {seen : Snapshot V} :
    map.isCurrent key seen = true ↔
      ∃ current, map.get? key = some current ∧ current.stamp = seen.stamp := by
  unfold isCurrent
  cases map.get? key <;> simp

theorem isCurrent_of_get? {map : SnapshotMap K V} {key : K} {seen : Snapshot V}
    (h : map.get? key = some seen) : map.isCurrent key seen = true :=
  isCurrent_iff.2 ⟨seen, h, rfl⟩

theorem compareAndSwap_fst (map : SnapshotMap K V) (key : K) (seen : Snapshot V) (new : V) :
    (map.compareAndSwap key seen new).1 = map.isCurrent key seen := by
  unfold compareAndSwap
  split <;> simp_all

theorem compareAndSwap_of_not_isCurrent {map : SnapshotMap K V} {key : K} {seen : Snapshot V}
    (h : map.isCurrent key seen = false) (new : V) :
    map.compareAndSwap key seen new = (false, map) := by
  simp [compareAndSwap, h]

theorem get?_compareAndSwap {map : SnapshotMap K V} {key : K} {seen : Snapshot V}
    (h : map.isCurrent key seen = true) (new : V) (other : K) :
    (map.compareAndSwap key seen new).2.get? other =
      if other = key then some ⟨map.nextStamp, new⟩ else map.get? other := by
  rw [compareAndSwap, if_pos h, get?_put]
  by_cases hk : other = key
  · subst hk
    cases hget : map.get? other with
    | none => simp [isCurrent, hget] at h
    | some current => simp
  · simp [hk]

theorem get?_compareAndSwap_self {map : SnapshotMap K V} {key : K} {seen : Snapshot V}
    (h : map.isCurrent key seen = true) (new : V) :
    (map.compareAndSwap key seen new).2.get? key = some ⟨map.nextStamp, new⟩ := by
  rw [get?_compareAndSwap h, if_pos rfl]

theorem nextStamp_compareAndSwap {map : SnapshotMap K V} {key : K} {seen : Snapshot V}
    (h : map.isCurrent key seen = true) (new : V) :
    (map.compareAndSwap key seen new).2.nextStamp = map.nextStamp + 1 := by
  rw [compareAndSwap, if_pos h]
  rfl

theorem compareAndRemove_fst (map : SnapshotMap K V) (key : K) (seen : Snapshot V) :
    (map.compareAndRemove key seen).1 = map.isCurrent key seen := by
  unfold compareAndRemove
  split <;> simp_all

theorem compareAndRemove_of_not_isCurrent {map : SnapshotMap K V} {key : K} {seen : Snapshot V}
    (h : map.isCurrent key seen = false) : map.compareAndRemove key seen = (false, map) := by
  simp [compareAndRemove, h]

theorem get?_compareAndRemove {map : SnapshotMap K V} {key : K} {seen : Snapshot V}
    (h : map.isCurrent key seen = true) (other : K) :
    (map.compareAndRemove key seen).2.get? other =
      if other = key then none else map.get? other := by
  rw [compareAndRemove, if_pos h, get?_drop]

theorem get?_compareAndRemove_self {map : SnapshotMap K V} {key : K} {seen : Snapshot V}
    (h : map.isCurrent key seen = true) : (map.compareAndRemove key seen).2.get? key = none := by
  rw [get?_compareAndRemove h, if_pos rfl]

theorem nextStamp_compareAndRemove (map : SnapshotMap K V) (key : K) (seen : Snapshot V) :
    (map.compareAndRemove key seen).2.nextStamp = map.nextStamp := by
  unfold compareAndRemove
  split <;> rfl

private theorem find?_eq_some_of_mem {entries : List (K × Snapshot V)}
    (nodup : (entries.map Prod.fst).Nodup) {entry : K × Snapshot V} (h : entry ∈ entries) :
    (entries.find? fun e => e.1 = entry.1) = some entry := by
  induction entries with
  | nil => cases h
  | cons first rest ih =>
    rw [List.map_cons, List.nodup_cons] at nodup
    rcases List.mem_cons.1 h with rfl | h
    · simp
    · have hne : first.1 ≠ entry.1 := fun e => nodup.1 (e ▸ List.mem_map_of_mem h)
      rw [List.find?_cons, ← ih nodup.2 h]
      simp [hne]

/-- The entries of a map are the keys with their current snapshots. -/
theorem mem_entries_iff (map : SnapshotMap K V) (key : K) (current : Snapshot V) :
    (key, current) ∈ map.entries ↔ map.get? key = some current := by
  constructor
  · intro h
    rw [get?, find?_eq_some_of_mem map.keys_nodup h]
    rfl
  · intro h
    simp only [get?, Option.map_eq_some_iff] at h
    obtain ⟨⟨k, s⟩, hfind, rfl⟩ := h
    have hk : k = key := by simpa using List.find?_some hfind
    exact hk ▸ List.mem_of_find?_eq_some hfind

/-- Every current snapshot came in before the next one. -/
theorem stamp_lt_of_get? {map : SnapshotMap K V} {key : K} {current : Snapshot V}
    (h : map.get? key = some current) : current.stamp < map.nextStamp := by
  simp only [get?, Option.map_eq_some_iff] at h
  obtain ⟨entry, hentry, rfl⟩ := h
  exact map.stamp_lt entry (List.mem_of_find?_eq_some hentry)

end SnapshotMap

end EventSourcing
