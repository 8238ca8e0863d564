import EventSourcing.Proofs.Repository.Batch
import EventSourcing.Proofs.Repository.Call

namespace EventSourcing.Repository

open Interleaving

variable {E : Type}

namespace Entry

/-- The log that append number `id` has its batch checked against. -/
def read? (id : Nat) : Entry E → Option (Snapshot (EventLog E))
  | ⟨number, .append _ _, .answered (.logs (.getOrInsert _ _)) (seen, _)⟩ =>
    if number = id then some seen else none
  | _ => none

/-- The window that append number `id` finds when it announces its batch, or else opens. -/
def met? (id : Nat) : Entry E → Option (Snapshot Window)
  | ⟨number, .append _ _, .answered (.windows (.getOrInsert _ _)) (met, _)⟩ =>
    if number = id then some met else none
  | _ => none

/-- Whether append number `id` tries to make its batch the end of the log. -/
def attempts (id : Nat) : Entry E → Bool
  | ⟨number, .append _ _, .answered (.logs (.compareAndSwap _ _ _)) _⟩ => number = id
  | _ => false

/-- How far a call has come when it does this. -/
def stage : Entry E → Nat
  | ⟨_, _, .answered (.windows _) _⟩ => 1
  | ⟨_, _, .answered (.logs (.compareAndSwap _ _ _)) false⟩ => 2
  | ⟨_, _, .answered (.logs (.compareAndSwap _ _ _)) true⟩ => 3
  | ⟨_, _, .answered (.indexes (.compareAndSwap _ _ _)) _⟩ => 4
  | ⟨_, _, .returned _⟩ => 5
  | _ => 0

theorem stage_le (entry : Entry E) : entry.stage ≤ 5 := by
  unfold stage
  split <;> simp

theorem of_read?_eq_some {id : Nat} {entry : Entry E} {seen : Snapshot (EventLog E)}
    (h : entry.read? id = some seen) : entry.id = id := by
  unfold read? at h
  split at h
  · split at h
    · assumption
    · cases h
  · cases h

theorem of_met?_eq_some {id : Nat} {entry : Entry E} {met : Snapshot Window}
    (h : entry.met? id = some met) : entry.id = id ∧ entry.stage = 1 := by
  unfold met? at h
  split at h
  · split at h
    · next hid => exact ⟨hid, rfl⟩
    · cases h
  · cases h

theorem of_attempts {id : Nat} {entry : Entry E} (h : entry.attempts id = true) :
    entry.id = id ∧ 2 ≤ entry.stage := by
  unfold attempts at h
  split at h
  · next reply => cases reply <;> exact ⟨of_decide_eq_true h, by simp [stage]⟩
  · cases h

theorem of_commit?_eq_some {key : AggregateKey} {entry : Entry E}
    {commit : Nat × List (RecordedEvent E)} (h : entry.commit? key = some commit) :
    entry.id = commit.1 ∧ entry.stage = 3 := by
  unfold commit? at h
  split at h
  · split at h
    · cases h
      exact ⟨rfl, rfl⟩
    · cases h
  · cases h

theorem exists_of_commit?_eq_some {key : AggregateKey} {entry : Entry E} {id : Nat}
    {batch : List (RecordedEvent E)} (h : entry.commit? key = some (id, batch)) :
    ∃ owner seen new, entry =
      ⟨id, .append key batch, .answered (.logs (.compareAndSwap owner seen new)) true⟩ := by
  unfold commit? at h
  split at h
  · split at h
    · next hkey =>
      subst hkey
      cases h
      exact ⟨_, _, _, rfl⟩
    · cases h
  · cases h

theorem of_indexing?_eq_some {key : AggregateKey} {entry : Entry E} {id : Nat}
    (h : entry.indexing? key = some id) : entry.id = id ∧ entry.stage = 4 := by
  unfold indexing? at h
  split at h
  · split at h
    · cases h
      exact ⟨rfl, rfl⟩
    · cases h
  · cases h

theorem of_return?_eq_some {key : AggregateKey} {entry : Entry E}
    {call : Nat × List (RecordedEvent E) × Result Unit} (h : entry.return? key = some call) :
    entry.id = call.1 ∧ entry.stage = 5 := by
  unfold return? at h
  split at h
  · split at h
    · cases h
      exact ⟨rfl, rfl⟩
    · cases h
  · cases h

end Entry

namespace History

/-- The log that append number `id` was checked against. -/
def read? (history : History E) (id : Nat) : Option (Snapshot (EventLog E)) :=
  history.findSome? (Entry.read? id)

/-- The window that append number `id` met. -/
def met? (history : History E) (id : Nat) : Option (Snapshot Window) :=
  history.findSome? (Entry.met? id)

/-- What happens after append number `id` has read the log and before it tries to commit. -/
def race (history : History E) (id : Nat) : History E :=
  (history.dropWhile fun entry => (entry.read? id).isNone).tail.takeWhile
    fun entry => !entry.attempts id

/-- Another append to `key` commits between the moment at which append number `id` reads the log
and the moment at which it tries to commit. -/
def Overtaken (history : History E) (key : AggregateKey) (id : Nat) : Prop :=
  commits (race history id) key ≠ []

/-- Append number `id`, with a batch from `first` to `last`, meets a window that begins behind the
first of its events and ends no later than its batch. -/
def ShutOut (history : History E) (id : Nat) (first last : SequenceId) : Prop :=
  ∃ met, met? history id = some met ∧ first < met.value.first ∧ met.value.last ≤ last

/-- Call number `id` has come no further than to a stage. -/
def Within (history : History E) (id stage : Nat) : Prop :=
  ∀ entry ∈ history, entry.id = id → entry.stage ≤ stage

section Within

variable {history : History E} {id stage : Nat}

theorem Within.mono (hwithin : Within history id stage) {later : Nat} (hle : stage ≤ later) :
    Within history id later :=
  fun entry hentry hid => Nat.le_trans (hwithin entry hentry hid) hle

theorem Within.append (hwithin : Within history id stage) {entries : History E}
    (hentries : ∀ entry ∈ entries, entry.id = id → entry.stage ≤ stage) :
    Within (history ++ entries) id stage := by
  intro entry hentry hid
  rcases List.mem_append.1 hentry with h | h
  · exact hwithin entry h hid
  · exact hentries entry h hid

/-- Nothing is known of a call number that has not been given out. -/
theorem Within.of_ne (hne : ∀ entry ∈ history, entry.id ≠ id) : Within history id stage :=
  fun entry hentry hid => absurd hid (hne entry hentry)

/-- A call that has just begun has come nowhere. -/
theorem Within.of_called {call : Call E} (hfresh : ∀ entry ∈ history, entry.id ≠ id) :
    Within (history ++ [⟨id, call, .called⟩]) id 0 := by
  refine (of_ne hfresh).append fun entry hentry _ => ?_
  obtain rfl := List.mem_singleton.1 hentry
  exact Nat.le_refl _

theorem unread_of_called {call : Call E} (hfresh : ∀ entry ∈ history, entry.id ≠ id) :
    ∀ entry ∈ history ++ [⟨id, call, .called⟩], Entry.read? id entry = none := by
  intro entry hentry
  rcases List.mem_append.1 hentry with h | h
  · cases hread : Entry.read? id entry with
    | none => rfl
    | some seen => exact absurd (Entry.of_read?_eq_some hread) (hfresh entry h)
  · obtain rfl := List.mem_singleton.1 h
    cases call <;> rfl

theorem Within.met?_eq_none (hwithin : Within history id 0) : met? history id = none := by
  refine List.findSome?_eq_none_iff.2 fun entry hentry => ?_
  cases hmet : entry.met? id with
  | none => rfl
  | some met =>
    obtain ⟨hid, hstage⟩ := Entry.of_met?_eq_some hmet
    have hle := hwithin entry hentry hid
    omega

theorem Within.attempts_eq_false (hwithin : Within history id 1) :
    ∀ entry ∈ history, entry.attempts id = false := by
  intro entry hentry
  cases hattempts : entry.attempts id with
  | false => rfl
  | true =>
    obtain ⟨hid, hstage⟩ := Entry.of_attempts hattempts
    have hle := hwithin entry hentry hid
    omega

theorem Within.commit_ne (hwithin : Within history id 2) {key : AggregateKey} :
    ∀ commit ∈ commits history key, commit.1 ≠ id := by
  intro commit hcommit hid
  obtain ⟨entry, hentry, h⟩ := List.mem_filterMap.1 hcommit
  obtain ⟨hid', hstage⟩ := Entry.of_commit?_eq_some h
  have hle := hwithin entry hentry (hid'.trans hid)
  omega

theorem Within.indexing_ne (hwithin : Within history id 3) {key : AggregateKey} :
    id ∉ history.filterMap (Entry.indexing? key) := by
  intro hmem
  obtain ⟨entry, hentry, h⟩ := List.mem_filterMap.1 hmem
  obtain ⟨hid, hstage⟩ := Entry.of_indexing?_eq_some h
  have hle := hwithin entry hentry hid
  omega

theorem Within.return_ne (hwithin : Within history id 4) {key : AggregateKey} :
    ∀ call ∈ history.filterMap (Entry.return? key), call.1 ≠ id := by
  intro call hcall hid
  obtain ⟨entry, hentry, h⟩ := List.mem_filterMap.1 hcall
  obtain ⟨hid', hstage⟩ := Entry.of_return?_eq_some h
  have hle := hwithin entry hentry (hid'.trans hid)
  omega

end Within

/-- The race of an append begins when it has read the log. -/
theorem race_append {before rest : History E} {entry : Entry E} {id : Nat}
    {seen : Snapshot (EventLog E)} (hbefore : ∀ entry ∈ before, entry.read? id = none)
    (hread : entry.read? id = some seen) :
    race (before ++ entry :: rest) id = rest.takeWhile fun entry => !entry.attempts id := by
  have hskip : ∀ entry ∈ before, (entry.read? id).isNone = true := by
    intro other hother
    rw [hbefore other hother]
    rfl
  rw [race, List.dropWhile_append_of_pos hskip, List.dropWhile_cons_of_neg (by simp [hread]),
    List.tail_cons]

theorem met?_concat {history : History E} {id : Nat} {entry : Entry E} {met : Snapshot Window}
    (hwithin : Within history id 0) (hmet : entry.met? id = some met) :
    met? (history ++ [entry]) id = some met := by
  have hnone : history.findSome? (Entry.met? id) = none := hwithin.met?_eq_none
  simp [met?, List.findSome?_append, hnone, hmet]

theorem met?_of_extends {before after : History E} {id : Nat} {met : Snapshot Window}
    (hextends : before <+: after) (hmet : met? before id = some met) :
    met? after id = some met := by
  obtain ⟨rest, rfl⟩ := hextends
  have hsome : before.findSome? (Entry.met? id) = some met := hmet
  simp [met?, List.findSome?_append, hsome]

theorem read?_of_extends {before after : History E} {id : Nat} {seen : Snapshot (EventLog E)}
    (hextends : before <+: after) (hread : read? before id = some seen) :
    read? after id = some seen := by
  obtain ⟨rest, rfl⟩ := hextends
  have hsome : before.findSome? (Entry.read? id) = some seen := hread
  simp [read?, List.findSome?_append, hsome]

end History

end EventSourcing.Repository
