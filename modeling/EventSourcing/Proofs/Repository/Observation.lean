import EventSourcing.Proofs.Repository.Transition

namespace EventSourcing.Repository

open Interleaving

variable {E : Type}

namespace History

variable (history : History E) (entry : Entry E) (key : AggregateKey)

@[simp]
theorem commits_concat : commits (history ++ [entry]) key =
    commits history key ++ (entry.commit? key).toList := by
  rw [commits, commits, List.filterMap_append]
  cases h : entry.commit? key <;> simp [h]

@[simp]
theorem watermark_concat : watermark (history ++ [entry]) key =
    max (watermark history key) (entry.acknowledged key) := by
  unfold watermark
  induction history with
  | nil => simp
  | cons first rest ih => simpa [Nat.max_assoc] using congrArg _ ih

theorem reopened_concat : Reopened (history ++ [entry]) key ↔ Reopened history key ∨
    ∃ first, entry.opened? key = some first ∧
      first ≤ ((commits history key).flatMap (·.2)).length := by
  constructor
  · -- The window was opened by the last entry or by one before it.
    rintro ⟨before, opening, after, first, hsplit, hopened, hle⟩
    rcases concat_eq_append_cons hsplit with ⟨rest, -, hbefore⟩ | ⟨-, rfl, rfl⟩
    · exact .inl ⟨before, opening, rest, first, hbefore, hopened, hle⟩
    · exact .inr ⟨first, hopened, hle⟩
  · rintro (⟨before, opening, after, first, rfl, hopened, hle⟩ | ⟨first, hopened, hle⟩)
    · exact ⟨before, opening, after ++ [entry], first, by simp, hopened, hle⟩
    · exact ⟨history, entry, [], first, rfl, hopened, hle⟩

end History

/-- An entry that says nothing about the stream of an aggregate. -/
structure Entry.IsSilent (entry : Entry E) (key : AggregateKey) : Prop where
  commit : entry.commit? key = none
  acknowledged : entry.acknowledged key = 0
  indexing : entry.indexing? key = none
  opened : entry.opened? key = none
  returned : entry.return? key = none

/-- Nothing is said about an aggregate but by appends and deliveries of its own. -/
theorem Entry.isSilent_of_ne {entry : Entry E} {key : AggregateKey}
    (happend : ∀ batch, entry.call ≠ .append key batch)
    (hdelivery : ∀ delivered, entry.call ≠ .markDelivered key delivered) :
    entry.IsSilent key := by
  constructor
  · unfold Entry.commit?
    split <;> simp_all
  · unfold Entry.acknowledged
    split <;> simp_all
  · unfold Entry.indexing?
    split <;> simp_all
  · unfold Entry.opened?
    split <;> simp_all
  · unfold Entry.return?
    split <;> simp_all

theorem Entry.isSilent_append {key other : AggregateKey} (hne : other ≠ key) (id : Nat)
    (batch : List (RecordedEvent E))
    (action : Action Request.Reply Call.Outcome (.append key batch)) :
    Entry.IsSilent ⟨id, .append key batch, action⟩ other :=
  Entry.isSilent_of_ne (by simp [hne.symm]) (by simp)

theorem Entry.isSilent_markDelivered {key other : AggregateKey} (hne : other ≠ key) (id : Nat)
    (delivered : SequenceId)
    (action : Action Request.Reply Call.Outcome (.markDelivered (E := E) key delivered)) :
    Entry.IsSilent ⟨id, .markDelivered key delivered, action⟩ other :=
  Entry.isSilent_of_ne (by simp) (by simp [hne.symm])

/-- No checkpoint says anything but the one at which a delivery comes to its end. -/
theorem Entry.isSilent_reached {checkpoint : Checkpoint}
    (hcheckpoint : checkpoint ≠ .markDeliveredEnded) (id : Nat) (call : Call E)
    (key other : AggregateKey) :
    Entry.IsSilent ⟨id, call, .answered (.reached checkpoint key) ()⟩ other := by
  refine ⟨?_, ?_, ?_, ?_, ?_⟩
  · cases call <;> rfl
  · cases call
    case markDelivered => cases checkpoint <;> first | rfl | contradiction
    all_goals rfl
  all_goals cases call <;> rfl

/-- What a world says about one aggregate. -/
def streamOf (world : World E) (key : AggregateKey) : Stream E where
  log := world.state.logs.get? key
  window := world.state.windows.get? key
  nextStamp := world.state.windows.nextStamp
  isIndexed := ∃ index, world.state.indexes.get? key.type = some index ∧ key.id ∈ index.value.ids
  commits := History.commits world.history key
  watermark := History.watermark world.history key
  indexings := world.history.filterMap (Entry.indexing? key)
  returns := world.history.filterMap (Entry.return? key)
  isReopened := History.Reopened world.history key

/-- A silent entry leaves a stream to what has become of the state. -/
theorem streamOf_silent {entry : Entry E} {key : AggregateKey} (hsilent : entry.IsSilent key)
    (state : Repository E) (history : History E) :
    streamOf ⟨state, history ++ [entry]⟩ key = streamOf ⟨state, history⟩ key := by
  simp [streamOf, hsilent.commit, hsilent.acknowledged, hsilent.indexing, hsilent.opened,
    hsilent.returned, History.reopened_concat]

/-- A silent entry that leaves the state alone leaves a stream as it was. -/
theorem streamOf_eq_of_silent {before after : World E} {entry : Entry E} {key : AggregateKey}
    (hsilent : entry.IsSilent key) (hstate : after.state = before.state)
    (hhistory : after.history = before.history ++ [entry]) :
    streamOf after key = streamOf before key := by
  change streamOf ⟨after.state, after.history⟩ key = _
  rw [hstate, hhistory]
  exact streamOf_silent hsilent _ _

/-- Between two worlds the stream of `key` becomes `t`, and of other streams stamps are used up. -/
structure Changes (before after : World E) (key : AggregateKey) (t : Stream E) : Prop where
  self : streamOf after key = t
  others : ∀ other, other ≠ key →
    streamOf after other = (streamOf before other).aged after.state.windows.nextStamp
  nextStamp_le : before.state.windows.nextStamp ≤ after.state.windows.nextStamp

section Requests

variable {state : Repository E} {history : History E} {key : AggregateKey} {id : Nat}
  {batch : List (RecordedEvent E)} {delivered : SequenceId}

theorem Changes.created {entry : Entry E} (hsilent : ∀ key, entry.IsSilent key)
    (habsent : state.logs.get? key = none) :
    Changes ⟨state, history⟩
      ⟨{ state with logs := (state.logs.getOrInsert key .empty).2 }, history ++ [entry]⟩ key
      ((streamOf ⟨state, history⟩ key).created state.logs.nextStamp) := by
  have hget := state.logs.get?_getOrInsert_self key .empty
  rw [(SnapshotMap.getOrInsert_of_absent habsent .empty).1] at hget
  refine ⟨?_, ?_, Nat.le_refl _⟩
  · rw [streamOf_silent (hsilent key)]
    simp [streamOf, Stream.created, hget]
  · intro other hne
    rw [streamOf_silent (hsilent other)]
    simp [streamOf, Stream.aged, SnapshotMap.get?_getOrInsert_of_ne _ _ hne]

theorem Changes.committed {seen : Snapshot (EventLog E)}
    (hcurrent : state.logs.isCurrent key seen = true) :
    Changes ⟨state, history⟩
      ⟨{ state with logs := (state.logs.compareAndSwap key seen (seen.value.append batch)).2 },
        history ++ [⟨id, .append key batch,
          .answered (.logs (.compareAndSwap key seen (seen.value.append batch))) true⟩]⟩ key
      ((streamOf ⟨state, history⟩ key).committed id state.logs.nextStamp seen.value batch) := by
  refine ⟨?_, ?_, Nat.le_refl _⟩
  · simp [streamOf, Stream.committed, SnapshotMap.get?_compareAndSwap hcurrent,
      History.reopened_concat, Entry.commit?, Entry.acknowledged, Entry.indexing?, Entry.return?,
      Entry.opened?]
  · intro other hne
    rw [streamOf_silent (Entry.isSilent_append hne _ _ _)]
    simp [streamOf, Stream.aged, SnapshotMap.get?_compareAndSwap hcurrent, hne]

theorem Changes.opened (hvalid : (streamOf ⟨state, history⟩ key).Valid key)
    (habsent : state.windows.get? key = none) (first last : SequenceId) :
    Changes ⟨state, history⟩
      ⟨{ state with windows := (state.windows.getOrInsert key (.opened first last)).2 },
        history ++ [⟨id, .append key batch,
          .answered (.windows (.getOrInsert key (.opened first last)))
            (⟨state.windows.nextStamp, .opened first last⟩, true)⟩]⟩ key
      ((streamOf ⟨state, history⟩ key).opened first last) := by
  have hget := state.windows.get?_getOrInsert_self key (.opened first last)
  obtain ⟨hreply, hstamp⟩ := SnapshotMap.getOrInsert_of_absent habsent (.opened first last)
  have htail : ((History.commits history key).flatMap (·.2)).length =
      (streamOf ⟨state, history⟩ key).tail := by
    rw [hvalid.tail_eq_length, hvalid.events_eq]
    rfl
  rw [hreply] at hget
  refine ⟨?_, ?_, by simp [hstamp]⟩
  · have hreopened : History.Reopened (history ++ [⟨id, .append key batch,
        .answered (.windows (.getOrInsert key (.opened first last)))
          (⟨state.windows.nextStamp, .opened first last⟩, true)⟩]) key ↔
        History.Reopened history key ∨ first ≤ (streamOf ⟨state, history⟩ key).tail := by
      rw [History.reopened_concat, htail]
      simp [Entry.opened?, Window.opened]
    simp only [streamOf, Stream.opened, hget, hstamp, History.commits_concat,
      History.watermark_concat, List.filterMap_append, hreopened]
    simp [Entry.commit?, Entry.acknowledged, Entry.indexing?, Entry.return?]
  · intro other hne
    rw [streamOf_silent (Entry.isSilent_append hne _ _ _)]
    simp [streamOf, Stream.aged, SnapshotMap.get?_getOrInsert_of_ne _ _ hne]

theorem Changes.rewindowed {entry : Entry E} (hsilent : ∀ key, entry.IsSilent key)
    {current : Snapshot Window} (hcurrent : state.windows.isCurrent key current = true)
    (new : Window) :
    Changes ⟨state, history⟩
      ⟨{ state with windows := (state.windows.compareAndSwap key current new).2 },
        history ++ [entry]⟩ key
      ((streamOf ⟨state, history⟩ key).rewindowed new) := by
  have hstamp := SnapshotMap.nextStamp_compareAndSwap hcurrent new
  refine ⟨?_, ?_, by simp [hstamp]⟩
  · rw [streamOf_silent (hsilent key)]
    simp [streamOf, Stream.rewindowed, SnapshotMap.get?_compareAndSwap hcurrent, hstamp]
  · intro other hne
    rw [streamOf_silent (hsilent other)]
    simp [streamOf, Stream.aged, SnapshotMap.get?_compareAndSwap hcurrent, hne]

theorem Changes.advanced {current : Snapshot Window}
    (hcurrent : state.windows.isCurrent key current = true) (new : Window) :
    Changes ⟨state, history⟩
      ⟨{ state with windows := (state.windows.compareAndSwap key current new).2 },
        history ++ [⟨id, .markDelivered key delivered,
          .answered (.windows (.compareAndSwap key current new)) true⟩]⟩ key
      (((streamOf ⟨state, history⟩ key).rewindowed new).acknowledged delivered) := by
  have hstamp := SnapshotMap.nextStamp_compareAndSwap hcurrent new
  refine ⟨?_, ?_, by simp [hstamp]⟩
  · simp [streamOf, Stream.rewindowed, Stream.acknowledged,
      SnapshotMap.get?_compareAndSwap hcurrent, hstamp, History.reopened_concat, Entry.commit?,
      Entry.acknowledged, Entry.indexing?, Entry.return?, Entry.opened?]
  · intro other hne
    rw [streamOf_silent (Entry.isSilent_markDelivered hne _ _ _)]
    simp [streamOf, Stream.aged, SnapshotMap.get?_compareAndSwap hcurrent, hne]

theorem Changes.removed {current : Snapshot Window}
    (hcurrent : state.windows.isCurrent key current = true) :
    Changes ⟨state, history⟩
      ⟨{ state with windows := (state.windows.compareAndRemove key current).2 },
        history ++ [⟨id, .markDelivered key delivered,
          .answered (.windows (.compareAndRemove key current)) true⟩]⟩ key
      ((streamOf ⟨state, history⟩ key).removed.acknowledged delivered) := by
  have hstamp := state.windows.nextStamp_compareAndRemove key current
  refine ⟨?_, ?_, by simp [hstamp]⟩
  · simp [streamOf, Stream.removed, Stream.acknowledged,
      SnapshotMap.get?_compareAndRemove hcurrent, hstamp, History.reopened_concat, Entry.commit?,
      Entry.acknowledged, Entry.indexing?, Entry.return?, Entry.opened?]
  · intro other hne
    rw [streamOf_silent (Entry.isSilent_markDelivered hne _ _ _)]
    simp [streamOf, Stream.aged, SnapshotMap.get?_compareAndRemove hcurrent, hne]

/-- A delivery that comes to its end counts, whether or not it has moved a window. -/
theorem Changes.acknowledged : Changes ⟨state, history⟩
    ⟨state, history ++ [⟨id, .markDelivered key delivered,
      .answered (.reached .markDeliveredEnded key) ()⟩]⟩ key
    ((streamOf ⟨state, history⟩ key).acknowledged delivered) := by
  refine ⟨?_, ?_, Nat.le_refl _⟩
  · simp [streamOf, Stream.acknowledged, History.reopened_concat, Entry.commit?,
      Entry.acknowledged, Entry.indexing?, Entry.return?, Entry.opened?]
  · intro other hne
    rw [streamOf_silent (Entry.isSilent_markDelivered hne _ _ _)]
    rfl

/-- An index without ids is as good as none. -/
theorem streamOf_getOrInsert_index (type : AggregateType) :
    streamOf ⟨{ state with indexes := (state.indexes.getOrInsert type .empty).2 }, history⟩ key =
      streamOf ⟨state, history⟩ key := by
  by_cases htype : key.type = type
  · subst htype
    cases hget : state.indexes.get? key.type with
    | some current => rw [SnapshotMap.getOrInsert_of_get? hget]
    | none =>
      have hself := state.indexes.get?_getOrInsert_self key.type .empty
      rw [(SnapshotMap.getOrInsert_of_absent hget .empty).1] at hself
      simp only [streamOf, hself, hget]
      simp [IdIndex.empty]
  · simp [streamOf, SnapshotMap.get?_getOrInsert_of_ne _ _ htype]

theorem Changes.enrolled {current : Snapshot IdIndex}
    (hget : state.indexes.get? key.type = some current) :
    Changes ⟨state, history⟩
      ⟨{ state with
          indexes := (state.indexes.compareAndSwap key.type current
            (current.value.insert key.id)).2 },
        history ++ [⟨id, .append key batch,
          .answered (.indexes (.compareAndSwap key.type current (current.value.insert key.id)))
            true⟩]⟩ key
      ((streamOf ⟨state, history⟩ key).enrolled id) := by
  have hcurrent : state.indexes.isCurrent key.type current = true :=
    SnapshotMap.isCurrent_iff.2 ⟨current, hget, rfl⟩
  refine ⟨?_, ?_, Nat.le_refl _⟩
  · simp [streamOf, Stream.enrolled, SnapshotMap.get?_compareAndSwap hcurrent, IdIndex.insert,
      IdIndex.mem_insertSorted_self, History.reopened_concat, Entry.commit?, Entry.acknowledged,
      Entry.indexing?, Entry.return?, Entry.opened?]
  · intro other hne
    rw [streamOf_silent (Entry.isSilent_append hne _ _ _)]
    by_cases htype : other.type = key.type
    · have hid : other.id ≠ key.id := fun h => hne (by cases other; cases key; simp_all)
      simp [streamOf, Stream.aged, SnapshotMap.get?_compareAndSwap hcurrent, htype, hget,
        IdIndex.insert, IdIndex.mem_insertSorted_of_ne hid]
    · simp [streamOf, Stream.aged, SnapshotMap.get?_compareAndSwap hcurrent, htype]

theorem Changes.returned {outcome : Result Unit} : Changes ⟨state, history⟩
    ⟨state, history ++ [⟨id, .append key batch, .returned outcome⟩]⟩ key
    ((streamOf ⟨state, history⟩ key).returned id batch outcome) := by
  refine ⟨?_, ?_, Nat.le_refl _⟩
  · simp [streamOf, Stream.returned, History.reopened_concat, Entry.commit?,
      Entry.acknowledged, Entry.indexing?, Entry.return?, Entry.opened?]
  · intro other hne
    rw [streamOf_silent (Entry.isSilent_append hne _ _ _)]
    rfl

end Requests

end EventSourcing.Repository
