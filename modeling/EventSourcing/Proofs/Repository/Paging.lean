import EventSourcing.Proofs.Repository.Indexing
import EventSourcing.Proofs.Repository.Sequential

namespace EventSourcing.Repository

open Interleaving

variable {E α : Type} {config : RepositoryConfig}

/-- What a reader has seen at a moment of a run who began at the moment `start`. How it asks for a
page depends on all that it has seen and on how many items it wants. A page shows one moment, since
listings report no checkpoint. -/
inductive Paging (config : RepositoryConfig)
    (ask : List α → (size : Nat) → Operation E (Result (List α))) (start : Moment E) :
    Moment E → List α → Prop where
  | begin (hreach : Reachable config start) : Paging config ask start start []
  | wait {moment later : Moment E} {seen : List α} (before : Paging config ask start moment seen)
      (hlater : (calls config).Reaches moment later) : Paging config ask start later seen
  | turn {moment : Moment E} {seen page : List α} {size : Nat}
      (before : Paging config ask start moment seen) (hsize : 1 ≤ size)
      (hpage : (runAlone (ask seen size) moment.world.state).1 = .ok page) :
      Paging config ask start moment (seen ++ page)

theorem Paging.reachable {ask : List α → Nat → Operation E (Result (List α))}
    {start moment : Moment E} {seen : List α} (hpaging : Paging config ask start moment seen) :
    Reachable config moment := by
  induction hpaging with
  | begin hreach => exact hreach
  | wait _ hlater ih => exact ih.trans hlater
  | turn _ _ _ ih => exact ih

section Events

variable {key : AggregateKey} {start moment : Moment E} {seen : List (RecordedEvent E)}

/-- Asks for the events behind the last one seen. -/
def nextEvents (key : AggregateKey) (seen : List (RecordedEvent E)) (size : Nat) :
    Operation E (Result (List (RecordedEvent E))) :=
  listEvents key (EventLog.tail ⟨seen⟩) (some size)

/-- The events behind a position are those that are left after as many, at any moment. -/
theorem Reachable.eventsBehind_eq (hreach : Reachable config moment) (key : AggregateKey)
    (after : SequenceId) : eventsBehind moment.world.state key after =
      (streamOf moment.world key).events.drop after := by
  have hpositions := (hreach.sound key).positions
  cases hlog : moment.world.state.logs.get? key with
  | none => simp [eventsBehind, streamOf, Stream.events, hlog]
  | some log =>
    have hevents : (streamOf moment.world key).events = log.value.events := by
      simp [streamOf, Stream.events, hlog]
    rw [hevents] at hpositions ⊢
    rw [eventsBehind, hlog]
    exact EventLog.slice_eq_drop hpositions after

/-- The last position of the beginning of a log is its length. -/
theorem tail_of_prefix {events : List (RecordedEvent E)}
    (hpositions : events.map (·.sequenceId) = List.range' 1 events.length)
    (hpast : seen <+: events) : EventLog.tail ⟨seen⟩ = seen.length := by
  obtain ⟨rest, rfl⟩ := hpast
  rw [List.map_append, List.length_append, ← List.range'_append_1] at hpositions
  have hseen : seen.map (·.sequenceId) = List.range' 1 seen.length :=
    (List.append_inj hpositions (by simp)).1
  exact EventLog.tail_eq_length hseen

/-- What comes on the next page, if the reader has seen the beginning of the log. -/
theorem Reachable.runAlone_nextEvents (hreach : Reachable config moment)
    (hpast : seen <+: (streamOf moment.world key).events) (size : Nat) :
    (runAlone (nextEvents key seen size) moment.world.state).1 =
      .ok (((streamOf moment.world key).events.drop seen.length).take size) := by
  rw [nextEvents, runAlone_listEvents_limit, hreach.eventsBehind_eq,
    tail_of_prefix (hreach.sound key).positions hpast]
  rfl

theorem Reachable.events_prefix (hreach : Reachable config moment) {later : Moment E}
    (hlater : (calls config).Reaches moment later) (key : AggregateKey) :
    (streamOf moment.world key).events <+: (streamOf later.world key).events := by
  obtain ⟨entries, hentries⟩ := hlater.history_extends
  have hreach' : Reachable config later := hreach.trans hlater
  rw [(hreach.sound key).events_eq, (hreach'.sound key).events_eq]
  refine ⟨(History.commits entries key).flatMap (·.2), ?_⟩
  rw [← List.flatMap_append]
  simp only [streamOf, ← hentries, History.commits, List.filterMap_append]

theorem Paging.seen_prefix (hpaging : Paging config (nextEvents key) start moment seen) :
    seen <+: (streamOf moment.world key).events := by
  induction hpaging with
  | begin => exact List.nil_prefix
  | wait before hlater ih => exact ih.trans (before.reachable.events_prefix hlater key)
  | turn before _ hpage ih =>
    rw [before.reachable.runAlone_nextEvents ih] at hpage
    cases hpage
    obtain ⟨rest, hrest⟩ := ih
    rw [← hrest, List.drop_left]
    exact (List.prefix_append_right_inj _).2 (List.take_prefix _ _)

end Events

/-- At every moment of every run the events up to any position stand in the log before those behind
it, and a listing behind the position has the first of the latter, as many as are asked for. So
whoever reads a log page by page has at any moment seen the beginning of it as it is then, with no
event left out and none twice, and has seen all of it when a page is shorter than asked for. -/
theorem pages_follow_log (config : RepositoryConfig) (key : AggregateKey) :
    (∀ moment : Moment E, Reachable config moment → ∀ after max, ∃ passed later,
      (streamOf moment.world key).events = passed ++ later ∧
        (∀ event ∈ passed, event.sequenceId ≤ after) ∧
        (∀ event ∈ later, after < event.sequenceId) ∧
        (runAlone (listEvents key after max) moment.world.state).1 = .ok (limit max later)) ∧
    ∀ (start moment : Moment E) seen, Paging config (nextEvents key) start moment seen →
      seen <+: (streamOf moment.world key).events ∧
        ∀ size, ∃ page, (runAlone (nextEvents key seen size) moment.world.state).1 = .ok page ∧
          (page.length < size → seen ++ page = (streamOf moment.world key).events) := by
  refine ⟨fun moment hreach after max => ?_, fun start moment seen hpaging => ?_⟩
  · have hpositions := (hreach.sound key).positions
    refine ⟨_, _, (List.take_append_drop after _).symm, fun event hevent => ?_,
      fun event hevent => ?_, ?_⟩
    · obtain ⟨i, hi, rfl⟩ := List.mem_take_iff_getElem.1 hevent
      rw [EventLog.sequenceId_getElem hpositions]
      lia
    · obtain ⟨i, hi, rfl⟩ := List.mem_drop_iff_getElem.1 hevent
      rw [EventLog.sequenceId_getElem hpositions]
      lia
    · rw [runAlone_listEvents_limit, hreach.eventsBehind_eq]
  · have hpast := hpaging.seen_prefix
    refine ⟨hpast, fun size => ⟨_, hpaging.reachable.runAlone_nextEvents hpast size, ?_⟩⟩
    intro hshort
    obtain ⟨rest, hrest⟩ := hpast
    rw [← hrest, List.drop_left] at hshort ⊢
    rw [List.take_of_length_le]
    rw [List.length_take] at hshort
    lia

/-- Two events are appended. -/
def twoEvents : List (Move (Call Unit)) :=
  .call (.append sampleKey (sampleBatch 1 2)) :: .replicate 10 .proceed

/-- A third event is appended. -/
def thirdEvent : List (Move (Call Unit)) :=
  .call (.append sampleKey (sampleBatch 3 1)) :: .replicate 9 .proceed

theorem reaches_of_sampleRun {first second : List (Move (Call Unit))} {moment later : Moment Unit}
    (hfirst : sampleRun first = some moment) (hboth : sampleRun (first ++ second) = some later) :
    (calls .standard).Reaches moment later := by
  rw [sampleRun, System.run?_append, ← sampleRun, hfirst] at hboth
  exact ⟨second, hboth⟩

/-- Whoever has read the first event before the third one came finds the other two on the next page,
which is shorter than asked for: that is all of the log. -/
theorem pages_follow_log_of_thirdEvent : ∃ start moment, sampleRun twoEvents = some start ∧
    sampleRun (twoEvents ++ thirdEvent) = some moment ∧
    (∃ passed later, (streamOf moment.world sampleKey).events = passed ++ later ∧
      (∀ event ∈ passed, event.sequenceId ≤ 2) ∧
        (runAlone (listEvents sampleKey 2 none) moment.world.state).1 = .ok later) ∧
    Paging .standard (nextEvents sampleKey) start moment (sampleBatch 1 1) ∧ ∃ page,
      (runAlone (nextEvents sampleKey (sampleBatch 1 1) 5) moment.world.state).1 = .ok page ∧
        sampleBatch 1 1 ++ page = sampleBatch 1 3 := by
  obtain ⟨start, hrun, hstart⟩ : ∃ start, sampleRun twoEvents = some start ∧
      (streamOf start.world sampleKey).events = sampleBatch 1 2 := ⟨_, rfl, rfl⟩
  obtain ⟨moment, hmore, hmoment⟩ : ∃ moment, sampleRun (twoEvents ++ thirdEvent) = some moment ∧
      (streamOf moment.world sampleKey).events = sampleBatch 1 3 := ⟨_, rfl, rfl⟩
  have hfirst : (runAlone (nextEvents sampleKey [] 1) start.world.state).1 =
      .ok (sampleBatch 1 1) := by
    rw [(reachable_of_sampleRun hrun).runAlone_nextEvents List.nil_prefix, hstart]
    rfl
  have hpaging : Paging .standard (nextEvents sampleKey) start moment (sampleBatch 1 1) :=
    .wait (.turn (.begin (reachable_of_sampleRun hrun)) (Nat.le_refl 1) hfirst)
      (reaches_of_sampleRun hrun hmore)
  obtain ⟨hlists, hpages⟩ := pages_follow_log .standard sampleKey
  refine ⟨start, moment, hrun, hmore, ?_, hpaging, ?_⟩
  · obtain ⟨passed, later, hsplit, hpassed, -, hlisted⟩ := hlists moment hpaging.reachable 2 none
    exact ⟨passed, later, hsplit, hpassed, hlisted⟩
  · obtain ⟨page, hpage, hall⟩ := (hpages start moment _ hpaging).2 5
    rw [hmoment] at hall
    refine ⟨page, hpage, hall ?_⟩
    rw [hpaging.reachable.runAlone_nextEvents hpaging.seen_prefix, hmoment] at hpage
    rw [← Except.ok.inj hpage]
    decide

section Ids

variable {type : AggregateType} {start moment : Moment E} {seen : List AggregateId}

/-- Asks for the ids behind the last one seen, or for the first ones. -/
def nextIds (type : AggregateType) (seen : List AggregateId) (size : Nat) :
    Operation E (Result (List AggregateId)) :=
  listIds type seen.getLast? (some size)

theorem mem_ids_iff {world : World E} {id : AggregateId} :
    id ∈ world.state.view.ids type ↔ (streamOf world ⟨type, id⟩).isIndexed := by
  cases hindex : world.state.indexes.get? type <;> simp [view, streamOf, hindex]

theorem Reachable.ascending_ids (hreach : Reachable config moment) (type : AggregateType) :
    (moment.world.state.view.ids type).Pairwise fun a b => compare a b = .lt := by
  cases hindex : moment.world.state.indexes.get? type with
  | none => simp [view, hindex]
  | some index => simpa [view, hindex] using (hreach.indexed.valid type index hindex).ascending

/-- An id that is listed is listed ever after. -/
theorem Reachable.mem_ids_later (hreach : Reachable config moment) {later : Moment E}
    (hlater : (calls config).Reaches moment later) {id : AggregateId}
    (hid : id ∈ moment.world.state.view.ids type) : id ∈ later.world.state.view.ids type := by
  obtain ⟨commit, -, hindexing⟩ := (hreach.sound ⟨type, id⟩).indexed (mem_ids_iff.1 hid)
  have hreach' : Reachable config later := hreach.trans hlater
  obtain ⟨entries, hentries⟩ := hlater.history_extends
  refine mem_ids_iff.2 (hreach'.indexed.stays _ (List.ne_nil_of_mem (a := commit.1) ?_))
  simp only [streamOf, ← hentries, List.filterMap_append]
  exact List.mem_append_left _ hindexing

theorem runAlone_listIds_all (repository : Repository E) (type : AggregateType) :
    (runAlone (listIds type none none) repository).1 = .ok (repository.view.ids type) := by
  simp [runAlone_listIds, limit]

/-- The ids behind the last one of some others. -/
def behind (seen ids : List AggregateId) : List AggregateId :=
  ids.filter fun id => seen.getLast?.all (compare · id == .lt)

theorem mem_behind_iff {ids : List AggregateId} {id : AggregateId} :
    id ∈ behind seen ids ↔ id ∈ ids ∧ ∀ last ∈ seen.getLast?, compare last id = .lt := by
  rw [behind, List.mem_filter]
  cases seen.getLast? <;> simp

theorem runAlone_nextIds (repository : Repository E) (type : AggregateType)
    (seen : List AggregateId) (size : Nat) :
    (runAlone (nextIds type seen size) repository).1 =
      .ok ((behind seen (repository.view.ids type)).take size) :=
  congrArg Prod.fst (runAlone_listIds repository type seen.getLast? (some size))

/-- In ascending ids, what comes behind the last one comes behind all. -/
theorem lt_of_behind_last (hascending : seen.Pairwise fun a b => compare a b = .lt)
    {id other : AggregateId} (hid : ∀ last ∈ seen.getLast?, compare last id = .lt)
    (hother : other ∈ seen) : compare other id = .lt := by
  obtain ⟨front, last, rfl⟩ :=
    (List.eq_nil_or_concat seen).resolve_left (List.ne_nil_of_mem hother)
  rw [List.concat_eq_append] at hid hother hascending
  have hlast : compare last id = .lt := hid last (by simp)
  rcases List.mem_append.1 hother with h | h
  · have hlt := (List.pairwise_append.1 hascending).2.2 other h last List.mem_cons_self
    exact Std.TransCmp.lt_trans hlt hlast
  · rwa [List.mem_singleton.1 h]

/-- What a reader has seen of the ids: they are there, in ascending order, and of those that were
there in the beginning none has been passed over. -/
structure Surveyed (first now seen : List AggregateId) : Prop where
  ascending : seen.Pairwise fun a b => compare a b = .lt
  subset : seen ⊆ now
  complete : ∀ id ∈ first, id ∈ seen ∨ ∀ last ∈ seen.getLast?, compare last id = .lt

theorem Surveyed.turn {first now : List AggregateId} (hsurveyed : Surveyed first now seen)
    (hascending : now.Pairwise fun a b => compare a b = .lt) (hfirst : first ⊆ now) (size : Nat) :
    Surveyed first now (seen ++ (behind seen now).take size) where
  ascending := by
    have hpage : ((behind seen now).take size).Pairwise fun a b => compare a b = .lt :=
      (hascending.filter _).sublist (List.take_sublist _ _)
    refine List.pairwise_append.2 ⟨hsurveyed.ascending, hpage, fun a ha b hb => ?_⟩
    exact lt_of_behind_last hsurveyed.ascending (mem_behind_iff.1 (List.mem_of_mem_take hb)).2 ha
  subset := by
    refine List.append_subset.2 ⟨hsurveyed.subset, fun id hid => ?_⟩
    exact (mem_behind_iff.1 (List.mem_of_mem_take hid)).1
  complete := by
    intro id hid
    rcases hsurveyed.complete id hid with hseen | hbehind
    · exact .inl (List.mem_append_left _ hseen)
    have hmem : id ∈ (behind seen now).take size ++ (behind seen now).drop size := by
      rw [List.take_append_drop]
      exact mem_behind_iff.2 ⟨hfirst hid, hbehind⟩
    rcases List.mem_append.1 hmem with hpage | hrest
    · exact .inl (List.mem_append_right _ hpage)
    -- It comes behind this page, and so behind the last id on it, if there is one.
    · refine .inr fun last hlast => ?_
      rw [List.getLast?_append] at hlast
      cases hpage : ((behind seen now).take size).getLast? with
      | none =>
        rw [hpage] at hlast
        exact hbehind last hlast
      | some other =>
        rw [hpage] at hlast
        obtain rfl : other = last := by simpa using hlast
        have hsorted : (behind seen now).Pairwise fun a b => compare a b = .lt :=
          hascending.filter _
        rw [← List.take_append_drop size (behind seen now)] at hsorted
        exact (List.pairwise_append.1 hsorted).2.2 other (List.mem_of_getLast? hpage) id hrest

/-- Where no id comes behind those seen, none is missing. -/
theorem Surveyed.mem_of_behind_eq_nil {first now : List AggregateId}
    (hsurveyed : Surveyed first now seen) (hfirst : first ⊆ now) (hend : behind seen now = [])
    {id : AggregateId} (hid : id ∈ first) : id ∈ seen := by
  refine (hsurveyed.complete id hid).resolve_right fun hbehind => ?_
  exact List.ne_nil_of_mem (mem_behind_iff.2 ⟨hfirst hid, hbehind⟩) hend

theorem Paging.mem_ids_now (hpaging : Paging config (nextIds type) start moment seen) :
    start.world.state.view.ids type ⊆ moment.world.state.view.ids type := by
  induction hpaging with
  | begin => exact List.Subset.refl _
  | wait before hlater ih => exact fun id hid => before.reachable.mem_ids_later hlater (ih hid)
  | turn _ _ _ ih => exact ih

theorem Paging.surveyed (hpaging : Paging config (nextIds type) start moment seen) :
    Surveyed (start.world.state.view.ids type) (moment.world.state.view.ids type) seen := by
  induction hpaging with
  | begin =>
    exact ⟨List.Pairwise.nil, List.nil_subset _, fun id _ => .inr fun last hlast => by cases hlast⟩
  | wait before hlater ih =>
    exact { ih with subset := fun id hid => before.reachable.mem_ids_later hlater (ih.subset hid) }
  | turn before hsize hpage ih =>
    rw [runAlone_nextIds] at hpage
    cases hpage
    exact ih.turn (before.reachable.ascending_ids type) before.mem_ids_now _

/-- In ascending ids, those behind a cursor come last. -/
theorem filter_append_filter {ids : List AggregateId}
    (hascending : ids.Pairwise fun a b => compare a b = .lt) (cursor : AggregateId) :
    (ids.filter fun id => compare cursor id != .lt) ++
      (ids.filter fun id => compare cursor id == .lt) = ids := by
  induction ids with
  | nil => rfl
  | cons id rest ih =>
    obtain ⟨hfirst, hrest⟩ := List.pairwise_cons.1 hascending
    by_cases hlt : compare cursor id = .lt
    · have hall : ∀ other ∈ rest, compare cursor other = .lt :=
        fun other hother => Std.TransCmp.lt_trans hlt (hfirst other hother)
      rw [List.filter_cons_of_neg (by simp [hlt]), List.filter_cons_of_pos (by simp [hlt]),
        List.filter_eq_nil_iff.2 fun other hother => by simp [hall other hother],
        List.filter_eq_self.2 fun other hother => by simp [hall other hother]]
      rfl
    · rw [List.filter_cons_of_pos (by simpa using hlt),
        List.filter_cons_of_neg (by simpa using hlt), List.cons_append, ih hrest]

theorem lt_or_eq_of_compare_ne {kind : IdentifierKind} {cursor id : Identifier kind}
    (h : compare cursor id ≠ .lt) : id.codePoints < cursor.codePoints ∨ id = cursor := by
  cases hcompare : compare cursor id with
  | lt => exact absurd hcompare h
  | eq => exact .inr (Identifier.eq_of_compare hcompare).symm
  | gt => exact .inl (Identifier.compare_eq_lt_iff.1 (Std.OrientedCmp.lt_of_gt hcompare))

end Ids

/-- Whoever collects the ids of a type page by page, while aggregates may come into being anywhere,
gets them in strictly ascending order, only those of aggregates with events, and in the end, when a
page is empty, every one that was listed in the beginning. A cursor need not name an aggregate: what
comes behind it is listed, and that is what is left when all ids up to it are left out. -/
theorem pages_survey_ids (config : RepositoryConfig) (type : AggregateType) :
    (∀ (start moment : Moment E) seen, Paging config (nextIds type) start moment seen →
      seen.Pairwise (fun a b => a.codePoints < b.codePoints) ∧
        (∀ id ∈ seen, (streamOf moment.world ⟨type, id⟩).events ≠ []) ∧
        ∀ size, 1 ≤ size → ∃ page,
          (runAlone (nextIds type seen size) moment.world.state).1 = .ok page ∧
            (page = [] → ∀ indexed,
              (runAlone (listIds type none none) start.world.state).1 = .ok indexed →
                indexed ⊆ seen)) ∧
    ∀ moment : Moment E, Reachable config moment → ∀ cursor max, ∃ before after,
      (runAlone (listIds type none none) moment.world.state).1 = .ok (before ++ after) ∧
        (∀ id ∈ before, id.codePoints < cursor.codePoints ∨ id = cursor) ∧
        (∀ id ∈ after, cursor.codePoints < id.codePoints) ∧
        (runAlone (listIds type (some cursor) max) moment.world.state).1 =
          .ok (limit max after) := by
  refine ⟨fun start moment seen hpaging => ?_, fun moment hreach cursor max => ?_⟩
  · have hsurveyed := hpaging.surveyed
    refine ⟨hsurveyed.ascending.imp Identifier.compare_eq_lt_iff.1, fun id hid => ?_,
      fun size hsize => ⟨_, runAlone_nextIds _ _ _ _, fun hend indexed hindexed => ?_⟩⟩
    · exact events_ne_nil (hpaging.reachable.sound) (mem_ids_iff.1 (hsurveyed.subset hid))
    · rw [runAlone_listIds_all] at hindexed
      cases hindexed
      have hnone : behind seen (moment.world.state.view.ids type) = [] :=
        (List.take_eq_nil_iff.1 hend).resolve_left (Nat.ne_of_gt hsize)
      exact fun id => hsurveyed.mem_of_behind_eq_nil hpaging.mem_ids_now hnone
  · have hascending := hreach.ascending_ids type
    refine ⟨(moment.world.state.view.ids type).filter fun id => compare cursor id != .lt, _, ?_,
      fun id hid => ?_, fun id hid => ?_,
      congrArg Prod.fst (runAlone_listIds moment.world.state type (some cursor) max)⟩
    · rw [runAlone_listIds_all]
      exact congrArg Except.ok (filter_append_filter hascending cursor).symm
    · exact lt_or_eq_of_compare_ne (by simpa using (List.mem_filter.1 hid).2)
    · exact Identifier.compare_eq_lt_iff.1 (by simpa using (List.mem_filter.1 hid).2)

/-- One aggregate gets an event. -/
def firstAggregate : List (Move (Call Unit)) :=
  .call (.append emptyKey [⟨emptyKey, 1, (), .nil⟩]) :: .replicate 10 .proceed

/-- Another aggregate of the same type gets its first events. -/
def secondAggregate : List (Move (Call Unit)) :=
  .call (.append sampleKey (sampleBatch 1 2)) :: .replicate 10 .proceed

/-- Whoever has seen the first aggregate before the second one came into being, which stands before
it, comes to the end without having seen the second one. -/
theorem pages_survey_ids_of_secondAggregate : ∃ start moment,
    sampleRun firstAggregate = some start ∧
    sampleRun (firstAggregate ++ secondAggregate) = some moment ∧
    Paging .standard (nextIds sampleKey.type) start moment [emptyKey.id] ∧
    moment.world.state.view.ids sampleKey.type = [sampleKey.id, emptyKey.id] ∧
    (runAlone (nextIds sampleKey.type [emptyKey.id] 1) moment.world.state).1 = .ok [] ∧
    start.world.state.view.ids sampleKey.type ⊆ [emptyKey.id] ∧
    ∃ before after, before ++ after = [sampleKey.id, emptyKey.id] ∧
      (runAlone (listIds sampleKey.type (some sampleKey.id) none) moment.world.state).1 =
        .ok after ∧ ∀ id ∈ after, sampleKey.id.codePoints < id.codePoints := by
  obtain ⟨start, hrun, hstart⟩ : ∃ start, sampleRun firstAggregate = some start ∧
      start.world.state.view.ids sampleKey.type = [emptyKey.id] := ⟨_, rfl, rfl⟩
  obtain ⟨moment, hmore, hmoment⟩ : ∃ moment,
      sampleRun (firstAggregate ++ secondAggregate) = some moment ∧
        moment.world.state.view.ids sampleKey.type = [sampleKey.id, emptyKey.id] := ⟨_, rfl, rfl⟩
  have hfirst : (runAlone (nextIds sampleKey.type [] 1) start.world.state).1 =
      .ok [emptyKey.id] := by
    rw [runAlone_nextIds, hstart]
    rfl
  have hpaging : Paging .standard (nextIds sampleKey.type) start moment [emptyKey.id] :=
    .wait (.turn (.begin (reachable_of_sampleRun hrun)) (Nat.le_refl 1) hfirst)
      (reaches_of_sampleRun hrun hmore)
  have hend : (runAlone (nextIds sampleKey.type [emptyKey.id] 1) moment.world.state).1 =
      .ok [] := by
    rw [runAlone_nextIds, hmoment]
    decide +kernel
  obtain ⟨hpages, hcursor⟩ := pages_survey_ids .standard sampleKey.type
  refine ⟨start, moment, hrun, hmore, hpaging, hmoment, hend, ?_, ?_⟩
  · obtain ⟨-, -, hcomplete⟩ := hpages start moment _ hpaging
    obtain ⟨page, hpage, hall⟩ := hcomplete 1 (Nat.le_refl 1)
    exact hall (Except.ok.inj (hpage.symm.trans hend)) _ (runAlone_listIds_all _ _)
  · obtain ⟨before, after, hlisted, -, hbehind, hafter⟩ :=
      hcursor moment hpaging.reachable sampleKey.id none
    rw [runAlone_listIds_all, hmoment] at hlisted
    exact ⟨before, after, (Except.ok.inj hlisted).symm, hafter, hbehind⟩

end EventSourcing.Repository
