import EventSourcing.Proofs.Repository.Conducted

namespace EventSourcing.Repository

open Interleaving

variable {E : Type} {config : RepositoryConfig}

/-- Every index counts its ids, and what an append has put into an index is still there. -/
structure Indexed (world : World E) : Prop where
  valid : ∀ type index, world.state.indexes.get? type = some index → index.value.Valid
  stays : ∀ key, (streamOf world key).indexings ≠ [] → (streamOf world key).isIndexed

section Entries

variable {before : History E} {entry : Entry E} {id : Nat} {key : AggregateKey}

/-- What leaves the indexes alone. -/
private theorem Indexed.same (hindexed : Indexed (History.world before))
    (hindexes : (History.world (before ++ [entry])).state.indexes =
      (History.world before).state.indexes) (hindexing : ∀ key, entry.indexing? key = none) :
    Indexed (History.world (before ++ [entry])) := by
  refine ⟨fun type index hget => ?_, fun key hmem => ?_⟩
  · rw [hindexes] at hget
    exact hindexed.valid type index hget
  · have hbefore : (streamOf (History.world before) key).indexings ≠ [] := by
      simpa [streamOf, List.filterMap_append, hindexing key] using hmem
    have hstays := hindexed.stays key hbefore
    simp only [streamOf] at hstays ⊢
    rwa [hindexes]

/-- An index without ids is put in the place of none. -/
private theorem Indexed.lookedUp (hindexed : Indexed (History.world before)) (type : AggregateType)
    (hworld : History.world (before ++ [entry]) =
      ⟨{ (History.world before).state with
          indexes := ((History.world before).state.indexes.getOrInsert type .empty).2 },
        before ++ [entry]⟩) (hsilent : ∀ key, entry.IsSilent key) :
    Indexed (History.world (before ++ [entry])) := by
  rw [hworld]
  refine ⟨fun other index hget => ?_, fun key hmem => ?_⟩
  · by_cases hother : other = type
    · subst hother
      rw [SnapshotMap.get?_getOrInsert_self] at hget
      cases hbefore : (History.world before).state.indexes.get? other with
      | some current =>
        rw [SnapshotMap.getOrInsert_of_get? hbefore] at hget
        cases hget
        exact hindexed.valid _ _ hbefore
      | none =>
        rw [(SnapshotMap.getOrInsert_of_absent hbefore _).1] at hget
        cases hget
        exact .empty
    · rw [SnapshotMap.get?_getOrInsert_of_ne _ _ hother] at hget
      exact hindexed.valid other index hget
  · rw [streamOf_silent (hsilent key), streamOf_getOrInsert_index] at hmem ⊢
    exact hindexed.stays key hmem

/-- An append puts an id into the index of its type that was not there. -/
private theorem Indexed.enrolled (hindexed : Indexed (History.world before))
    (batch : List (RecordedEvent E)) {current : Snapshot IdIndex}
    (hcurrent : (History.world before).state.indexes.get? key.type = some current)
    (habsent : key.id ∉ current.value.ids) :
    Indexed (History.world (before ++ [⟨id, .append key batch, .answered
      (.indexes (.compareAndSwap key.type current (current.value.insert key.id))) true⟩])) := by
  have hswap := SnapshotMap.isCurrent_iff.2 ⟨current, hcurrent, rfl⟩
  rw [History.world_answered, answer_swapIndex hswap]
  refine ⟨fun type index hget => ?_, fun other hmem => ?_⟩
  · simp only [SnapshotMap.get?_compareAndSwap hswap] at hget
    split at hget
    · cases hget
      exact (hindexed.valid _ current hcurrent).insert habsent
    · exact hindexed.valid type index hget
  · by_cases hother : other = key
    · subst hother
      rw [(Changes.enrolled hcurrent).self]
      trivial
    · rw [(Changes.enrolled hcurrent).others other hother] at hmem ⊢
      exact hindexed.stays other hmem

private theorem AppendStep.indexed {batch : List (RecordedEvent E)}
    {action : (Call.append key batch).Action}
    (hstep : AppendStep id key batch (History.world before) action)
    (hfaithful : (calls config).IsFaithful (History.world before) ⟨id, .append key batch, action⟩)
    (hindexed : Indexed (History.world before)) :
    Indexed (History.world (before ++ [⟨id, .append key batch, action⟩])) := by
  cases hstep with
  | called | readLog | meetWindow | widen | commit | reached | succeed | fail =>
    refine hindexed.same ?_ fun _ => rfl
    rw [History.state_world_concat]
    rfl
  | lookUp reply =>
    refine hindexed.lookedUp key.type ?_ fun _ => ⟨rfl, rfl, rfl, rfl, rfl⟩
    rw [History.world_answered]
    rfl
  | @enrol current reply hcurrent habsent =>
    have hswap := SnapshotMap.isCurrent_iff.2 ⟨current, hcurrent, rfl⟩
    obtain rfl : reply = true :=
      (hfaithful _ _ rfl).trans (congrArg Prod.fst (answer_swapIndex hswap _))
    exact hindexed.enrolled batch hcurrent habsent

private theorem DeliveryStep.indexed {delivered : SequenceId}
    {action : (Call.markDelivered (E := E) key delivered).Action}
    (hstep : DeliveryStep config id key delivered (History.world before) action)
    (hindexed : Indexed (History.world before)) :
    Indexed (History.world (before ++ [⟨id, .markDelivered key delivered, action⟩])) := by
  refine hindexed.same ?_ fun _ => ?_
  · rw [History.state_world_concat]
    cases hstep <;> rfl
  · rfl

end Entries

section Reachable

variable {moment : Moment E}

theorem Reachable.indexed (hreach : Reachable config moment) : Indexed moment.world := by
  refine hreach.history_induct ⟨nofun, fun _ h => absurd rfl h⟩ ?_
  intro before entry after hsplit hindexed
  have hwarranted := hreach.warranted hsplit
  have hfaithful := hreach.faithful hsplit
  obtain ⟨id, call, action⟩ := entry
  cases call with
  | append key batch => exact hwarranted.1.indexed hfaithful hindexed
  | markDelivered key delivered => exact DeliveryStep.indexed hwarranted hindexed
  | listEvents | listUndelivered | listIds =>
    exact hindexed.same (congrArg Repository.indexes (ListingStep.state_eq hwarranted))
      fun _ => rfl

/-- What has events has them from a first append. -/
private theorem exists_first {key : AggregateKey} (hsound : Sound moment.world)
    (hne : (streamOf moment.world key).events ≠ []) : ∃ number batch,
      (History.commits moment.world.history key).head? = some (number, batch) := by
  rw [(hsound key).events_eq] at hne
  change (History.commits moment.world.history key).flatMap (·.2) ≠ [] at hne
  cases hcommits : History.commits moment.world.history key with
  | nil => simp [hcommits] at hne
  | cons first rest => exact ⟨first.1, first.2, rfl⟩

/-- An index has no id of an aggregate without events. -/
theorem events_ne_nil {key : AggregateKey} (hsound : Sound moment.world)
    (hindexed : (streamOf moment.world key).isIndexed) :
    (streamOf moment.world key).events ≠ [] := by
  obtain ⟨commit, hhead, -⟩ := (hsound key).indexed hindexed
  have hcommit := List.mem_of_mem_head? hhead
  rw [(hsound key).events_eq]
  intro hnil
  exact (hsound key).batch_ne_nil commit hcommit (List.flatMap_eq_nil_iff.1 hnil commit hcommit)

/-- The append that commits first is successful when it returns, and has committed first by then. -/
private theorem first_returned (hreach : Reachable config moment) {key : AggregateKey}
    {number : Nat} {batch : List (RecordedEvent E)}
    (hfirst : (History.commits moment.world.history key).head? = some (number, batch))
    (hflight : ∀ frame ∈ moment.frames, frame.id ≠ number) : ∃ before after,
      moment.world.history = before ++ ⟨number, .append key batch, .returned (.ok ())⟩ :: after ∧
        (History.commits before key).head? = some (number, batch) := by
  have hmem := List.mem_of_mem_head? hfirst
  obtain ⟨early, late, owner, seen, new, hcommit⟩ := History.exists_of_mem_commits hmem
  have hentry : (⟨number, .append key batch,
      .answered (.logs (.compareAndSwap owner seen new)) true⟩ : Entry E) ∈
        moment.world.history := by
    rw [hcommit]
    exact List.mem_append_right _ List.mem_cons_self
  rcases System.Reaches.in_flight_or_returned hreach hentry with
    ⟨frame, hframe, hid⟩ | ⟨call, outcome, hreturned⟩
  · exact absurd hid (hflight frame hframe)
  obtain rfl : call = .append key batch := System.Reaches.call_eq hreach hreturned hentry rfl
  have hvalid := hreach.sound key
  obtain ⟨-, rfl⟩ := (hvalid.mem_commits_iff _ (mem_returns hreturned)
    (hvalid.batch_ne_nil _ hmem) batch).1 hmem
  obtain ⟨before, after, hsplit⟩ := List.append_of_mem hreturned
  refine ⟨before, after, hsplit, ?_⟩
  have hquiet := ((System.Reaches.numbered hreach).returned _ _ _ _ _ hsplit).1
  -- The commit is not behind the return, and so something was committed by then.
  have hbefore : (number, batch) ∈ History.commits before key := by
    rw [hsplit] at hentry
    rcases List.mem_append.1 hentry with h | h
    · exact List.mem_filterMap.2 ⟨_, h, by simp [Entry.commit?]⟩
    · rcases List.mem_cons.1 h with heq | h
      · cases heq
      · exact absurd rfl (hquiet _ h)
  have hhead := List.head?_eq_some_head (List.ne_nil_of_mem hbefore)
  rw [hhead, ← hfirst]
  exact (head?_commits_of_extends ⟨_, hsplit.symm⟩ hhead).symm

/-- A new aggregate is in the index of its type when its first append has returned. -/
private theorem isIndexed_of_returned (hreach : Reachable config moment) {key : AggregateKey}
    {number : Nat} {batch : List (RecordedEvent E)}
    (hfirst : (History.commits moment.world.history key).head? = some (number, batch))
    (hflight : ∀ frame ∈ moment.frames, frame.id ≠ number) :
    (streamOf moment.world key).isIndexed := by
  obtain ⟨before, after, hsplit, hhead⟩ := first_returned hreach hfirst hflight
  have hstep : AppendStep number key batch (History.world before) (.returned (.ok ())) :=
    (hreach.warranted hsplit).1
  cases hstep with
  | succeed hindexings =>
    have hindexing := hindexings hhead
    refine hreach.indexed.stays key (List.ne_nil_of_mem (a := number) ?_)
    simp only [streamOf, hsplit, List.filterMap_append]
    exact List.mem_append_left _ hindexing

/-- No call finds the id that it is to put into an index there. -/
private theorem fault?_ne_duplicateId (hreach : Reachable config moment) {entry : Entry E}
    (hentry : entry ∈ moment.world.history) (key : AggregateKey) :
    entry.fault? ≠ some (.duplicateId key) := by
  intro hfault
  obtain ⟨before, after, hsplit⟩ := List.append_of_mem hentry
  have hwarranted := hreach.warranted hsplit
  obtain ⟨id, call, action⟩ := entry
  cases call with
  | append owner batch =>
    cases action with
    | called | answered => simp [Entry.fault?] at hfault
    | returned outcome =>
      have hstep : AppendStep id owner batch (History.world before) (.returned outcome) :=
        hwarranted.1
      cases hstep with
      | succeed => simp [Entry.fault?] at hfault
      | fail hduplicate =>
        -- It would have committed by then, and what has committed does not fail.
        have hmem := mem_commits_of_extends ⟨_, hsplit.symm⟩
          (hduplicate key (Option.some.inj hfault))
        have hvalid := hreach.sound owner
        obtain ⟨-, hok⟩ := (hvalid.mem_commits_iff _ (mem_returns hentry)
          (hvalid.batch_ne_nil _ hmem) batch).1 hmem
        cases hok
  | markDelivered owner delivered =>
    cases action with
    | called | answered => simp [Entry.fault?] at hfault
    | returned outcome =>
      have hstep : DeliveryStep config id owner delivered (History.world before)
        (.returned outcome) := hwarranted
      cases hstep with
      | succeed => simp [Entry.fault?] at hfault
      | fail _ hduplicate => exact hduplicate key (Option.some.inj hfault)
  | listEvents | listUndelivered | listIds => exact hwarranted.fault key hfault

/-- At every moment of every run the index of a type has only ids of aggregates with events, and
each of them once: it contains every one whose first append is not in flight any more, and it counts
them rightly. No call ever finds the id that it is to put into the index there already. When no call
is in flight, the listing of a type has in ascending order the ids of the aggregates with events,
and not of those to which all appends have failed. -/
theorem index_matches_logs (hreach : Reachable config moment) (type : AggregateType) :
    (∀ index, moment.world.state.indexes.get? type = some index →
      index.value.inserted = index.value.ids.length ∧
        index.value.ids.Pairwise (fun a b => compare a b = .lt) ∧
        ∀ id ∈ index.value.ids, (streamOf moment.world ⟨type, id⟩).events ≠ []) ∧
    (∀ id, (streamOf moment.world ⟨type, id⟩).events ≠ [] → ∃ number batch,
      (History.commits moment.world.history ⟨type, id⟩).head? = some (number, batch) ∧
        ((∀ frame ∈ moment.frames, frame.id ≠ number) → ∃ index,
          moment.world.state.indexes.get? type = some index ∧ id ∈ index.value.ids)) ∧
    (∀ entry : Entry E, entry ∈ moment.world.history →
      ∀ key, entry.fault? ≠ some (.duplicateId key)) ∧
    (moment.frames = [] → ∃ ids,
      (runAlone (listIds type none none) moment.world.state).1 = .ok ids ∧
        ids.Pairwise (fun a b => compare a b = .lt) ∧
        ∀ id, id ∈ ids ↔ (streamOf moment.world ⟨type, id⟩).events ≠ []) := by
  have hsound := hreach.sound
  have hindex : ∀ index, moment.world.state.indexes.get? type = some index →
      index.value.Valid ∧
        ∀ id ∈ index.value.ids, (streamOf moment.world ⟨type, id⟩).events ≠ [] :=
    fun index hget => ⟨hreach.indexed.valid type index hget,
      fun id hid => events_ne_nil hsound ⟨index, hget, hid⟩⟩
  have hcontains : ∀ id, (streamOf moment.world ⟨type, id⟩).events ≠ [] → ∃ number batch,
      (History.commits moment.world.history ⟨type, id⟩).head? = some (number, batch) ∧
        ((∀ frame ∈ moment.frames, frame.id ≠ number) → ∃ index,
          moment.world.state.indexes.get? type = some index ∧ id ∈ index.value.ids) := by
    intro id hne
    obtain ⟨number, batch, hfirst⟩ := exists_first hsound hne
    exact ⟨number, batch, hfirst, isIndexed_of_returned hreach hfirst⟩
  refine ⟨fun index hget => ?_, hcontains, fun entry => fault?_ne_duplicateId hreach,
    fun hflight => ?_⟩
  · obtain ⟨hvalid, hne⟩ := hindex index hget
    exact ⟨hvalid.inserted_eq, hvalid.ascending, hne⟩
  · refine ⟨moment.world.state.view.ids type, ?_, ?_, fun id => ⟨fun hid => ?_, fun hne => ?_⟩⟩
    · simp [runAlone_listIds, limit]
    · cases hget : moment.world.state.indexes.get? type with
      | none => simp [view, hget]
      | some index => simpa [view, hget] using (hindex index hget).1.ascending
    · cases hget : moment.world.state.indexes.get? type with
      | none => simp [view, hget] at hid
      | some index => exact (hindex index hget).2 id (by simpa [view, hget] using hid)
    · obtain ⟨number, batch, -, hindexed⟩ := hcontains id hne
      obtain ⟨index, hget, hid⟩ := hindexed (by simp [hflight])
      simpa [view, hget] using hid

end Reachable

def emptyKey : AggregateKey where
  type := sampleKey.type
  id := ⟨"empty", by constructor <;> simp <;> decide, by decide, by decide⟩

/-- One aggregate gets its events. To another one of the same type an event is appended that leaves
a gap, which fails; but there is a log for it then. -/
def emptyLog : List (Move (Call Unit)) :=
  .call (.append sampleKey (sampleBatch 1 2)) :: .replicate 10 .proceed ++
    .call (.append emptyKey [⟨emptyKey, 2, (), .nil⟩]) :: .replicate 2 .proceed

/-- Only the aggregate with events is listed. -/
theorem index_matches_logs_of_emptyLog : ∃ moment, sampleRun emptyLog = some moment ∧
    moment.frames = [] ∧
    (∃ log, moment.world.state.logs.get? emptyKey = some log ∧ log.value.events = []) ∧
    ∃ ids, (runAlone (listIds sampleKey.type none none) moment.world.state).1 = .ok ids ∧
      sampleKey.id ∈ ids ∧ emptyKey.id ∉ ids := by
  have hrun : sampleRun emptyLog = some _ := rfl
  have hmatches := index_matches_logs (reachable_of_sampleRun hrun) sampleKey.type
  obtain ⟨ids, hids, -, hmem⟩ := hmatches.2.2.2 rfl
  refine ⟨_, hrun, rfl, ⟨_, rfl, rfl⟩, ids, hids, ?_, ?_⟩
  · exact (hmem sampleKey.id).2 (by decide)
  · exact fun h => (hmem emptyKey.id).1 h rfl

end EventSourcing.Repository
