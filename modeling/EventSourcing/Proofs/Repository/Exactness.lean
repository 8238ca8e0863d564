import EventSourcing.Proofs.Repository.Conducted

namespace EventSourcing.Repository

open Interleaving

variable {E : Type} {config : RepositoryConfig}

namespace Stream

/-- The watermark of the window is as far as the events have been acknowledged, unless the aggregate
was reopened. -/
def Exact (s : Stream E) : Prop :=
  ¬ s.isReopened → ∀ window, s.window = some window → window.value.delivered = s.watermark

variable {key : AggregateKey} {s : Stream E} {current : Snapshot Window}

/-- A window is opened where everything has been delivered, or else the aggregate is reopened. -/
theorem Valid.exact_opened (hvalid : s.Valid key) (habsent : s.window = none) {seen : SequenceId}
    (hseen : seen ≤ s.tail) (last : SequenceId) : (s.opened (seen + 1) last).Exact := by
  intro hreopened window hwindow
  cases hwindow
  have hbehind : ¬ seen + 1 ≤ s.tail := fun h => hreopened (.inr h)
  have htail := hvalid.tail_le_watermark habsent
  have hwatermark := hvalid.watermark_le_tail
  change seen + 1 - 1 = s.watermark
  lia

theorem Exact.rewindowed (hexact : s.Exact) (hwindow : s.window = some current) {new : Window}
    (hdelivered : new.delivered = current.value.delivered) : (s.rewindowed new).Exact := by
  intro hreopened window hnew
  cases hnew
  exact hdelivered.trans (hexact hreopened current hwindow)

theorem Exact.advanced (hexact : s.Exact) (hwindow : s.window = some current)
    (delivered : SequenceId) :
    ((s.rewindowed (s.settled current.value delivered)).acknowledged delivered).Exact := by
  intro hreopened window hnew
  cases hnew
  have hcurrent := hexact hreopened current hwindow
  change max (current.value.clamped s.tail).delivered delivered = max s.watermark delivered
  rw [Window.delivered_clamped, hcurrent]

theorem exact_removed (s : Stream E) (delivered : SequenceId) :
    (s.removed.acknowledged delivered).Exact :=
  fun _ _ h => nomatch h

end Stream

/-- Every window says what has been acknowledged, unless its aggregate was reopened. -/
def Exact (world : World E) : Prop :=
  ∀ key, (streamOf world key).Exact

section Entries

variable {before : History E} {entry : Entry E}

/-- What touches no window is exact if it acknowledges nothing new. -/
private theorem Exact.quiet (hexact : Exact (History.world before))
    (hwindows : (History.world (before ++ [entry])).state.windows =
      (History.world before).state.windows)
    (hacknowledged : ∀ key, entry.acknowledged key ≤ History.watermark before key) :
    Exact (History.world (before ++ [entry])) := by
  intro key hreopened window hwindow
  have hwatermark : History.watermark (before ++ [entry]) key = History.watermark before key := by
    rw [History.watermark_concat]
    exact Nat.max_eq_left (hacknowledged key)
  change window.value.delivered = History.watermark (before ++ [entry]) key
  rw [hwatermark]
  refine hexact key (fun h => hreopened ?_) window ?_
  · exact (History.reopened_concat before entry key).2 (.inl h)
  · change (History.world before).state.windows.get? key = some window
    rw [← hwindows]
    exact hwindow

private theorem Exact.changes (owner : AggregateKey) {t : Stream E}
    (hexact : Exact (History.world before))
    (hchanges : Changes (History.world before) (History.world (before ++ [entry])) owner t)
    (ht : t.Exact) : Exact (History.world (before ++ [entry])) := by
  intro key
  by_cases hkey : key = owner
  · subst hkey
    rw [hchanges.self]
    exact ht
  · rw [hchanges.others key hkey]
    exact hexact key

variable {id : Nat} {key : AggregateKey}

private theorem AppendStep.exact {batch : List (RecordedEvent E)}
    {action : (Call.append key batch).Action}
    (hstep : AppendStep id key batch (History.world before) action)
    (hfaithful : (calls config).IsFaithful (History.world before) ⟨id, .append key batch, action⟩)
    (hsound : Sound (History.world before)) (hexact : Exact (History.world before)) :
    Exact (History.world (before ++ [⟨id, .append key batch, action⟩])) := by
  cases hstep with
  | called | readLog | commit | lookUp | enrol | reached | succeed | fail =>
    refine hexact.quiet ?_ fun _ => Nat.zero_le _
    rw [History.state_world_concat]
    rfl
  | @meetWindow seen last reply _ hseen _ =>
    cases hwindow : (History.world before).state.windows.get? key with
    | some current =>
      refine hexact.quiet ?_ fun _ => Nat.zero_le _
      rw [History.world_answered, answer_meetWindow hwindow]
    | none =>
      obtain rfl : reply = (⟨_, .opened (seen.value.tail + 1) last⟩, true) :=
        (hfaithful _ _ rfl).trans (congrArg Prod.fst (answer_openWindow hwindow _))
      refine hexact.changes key ?_ ((hsound key).exact_opened hwindow hseen last)
      rw [History.world_answered, answer_openWindow hwindow]
      exact Changes.opened (hsound key) hwindow _ _
  | @widen current first last _ hcurrent =>
    have hswap := SnapshotMap.isCurrent_iff.2 ⟨_, hcurrent, rfl⟩
    have hkept : (current.value.widened first last).delivered = current.value.delivered := rfl
    refine hexact.changes key ?_ ((hexact key).rewindowed hcurrent hkept)
    rw [History.world_answered, answer_swapWindow hswap]
    refine Changes.rewindowed ?_ hswap _
    exact fun _ => ⟨rfl, rfl, rfl, rfl, rfl⟩

private theorem DeliveryStep.exact {delivered : SequenceId}
    {action : (Call.markDelivered (E := E) key delivered).Action}
    (hstep : DeliveryStep config id key delivered (History.world before) action)
    (hfaithful : (calls config).IsFaithful (History.world before)
      ⟨id, .markDelivered key delivered, action⟩) (hexact : Exact (History.world before)) :
    Exact (History.world (before ++ [⟨id, .markDelivered key delivered, action⟩])) := by
  rcases hstep.quiet_or_settles hfaithful with
    ⟨hstate, hacknowledged⟩ | ⟨current, hwindow, -, new, rfl, ⟨-, rfl⟩ | ⟨-, rfl⟩⟩
  · exact hexact.quiet (congrArg Repository.windows hstate) hacknowledged
  · have hcurrent := SnapshotMap.isCurrent_iff.2 ⟨current, hwindow, rfl⟩
    refine hexact.changes key ?_ ((hexact key).advanced hwindow delivered)
    rw [History.world_answered, answer_swapWindow hcurrent]
    exact Changes.advanced hcurrent _
  · have hcurrent := SnapshotMap.isCurrent_iff.2 ⟨current, hwindow, rfl⟩
    have hremoved := Stream.exact_removed (streamOf (History.world before) key) delivered
    refine hexact.changes key ?_ hremoved
    rw [History.world_answered, answer_removeWindow hcurrent]
    exact Changes.removed hcurrent

private theorem ListingStep.exact {entry : Entry E} (hlists : entry.call.Lists)
    (hstep : ListingStep (History.world before) entry) (hexact : Exact (History.world before)) :
    Exact (History.world (before ++ [entry])) := by
  refine hexact.quiet (congrArg Repository.windows hstep.state_eq) fun key => ?_
  have hsilent : entry.IsSilent key := by
    refine Entry.isSilent_of_ne (fun batch heq => ?_) fun delivered heq => ?_
    all_goals
      rw [heq] at hlists
      exact hlists.elim
  rw [hsilent.acknowledged]
  exact Nat.zero_le _

end Entries

section Reachable

variable {moment final : Moment E} {key : AggregateKey}

/-- At every moment of every run each window says what has been acknowledged, unless its aggregate
was reopened. -/
theorem Reachable.exact (hreach : Reachable config moment) : Exact moment.world := by
  refine hreach.history_induct (fun _ _ _ h => nomatch h) ?_
  intro before entry after hsplit hexact
  have hwarranted := hreach.warranted hsplit
  have hfaithful := hreach.faithful hsplit
  obtain ⟨id, call, action⟩ := entry
  cases call with
  | append key batch =>
    exact hwarranted.1.exact hfaithful (hreach.sound_before hsplit) hexact
  | markDelivered key delivered => exact DeliveryStep.exact hwarranted hfaithful hexact
  | listEvents | listUndelivered | listIds => exact ListingStep.exact trivial hwarranted hexact

/-- A log never ends before the end that it had earlier. -/
private theorem tail_le_of_extends {earlier later : World E} (hearlier : Sound earlier)
    (hlater : Sound later) (hextends : earlier.history <+: later.history) :
    (streamOf earlier key).tail ≤ (streamOf later key).tail := by
  obtain ⟨rest, hrest⟩ := hextends
  have hcommits : (streamOf later key).commits =
      (streamOf earlier key).commits ++ History.commits rest key := by
    simp only [streamOf, ← hrest, History.commits, List.filterMap_append]
  rw [(hearlier key).tail_eq_length, (hlater key).tail_eq_length, (hearlier key).events_eq,
    (hlater key).events_eq, hcommits, List.flatMap_append, List.length_append]
  exact Nat.le_add_right _ _

private theorem exists_of_opened?_eq_some {entry : Entry E} {first : SequenceId}
    (h : entry.opened? key = some first) : ∃ id batch owner window met,
      entry = ⟨id, .append key batch,
        .answered (.windows (.getOrInsert owner window)) (met, true)⟩ ∧ window.first = first := by
  unfold Entry.opened? at h
  split at h
  · split at h
    · next hkey =>
      subst hkey
      exact ⟨_, _, _, _, _, rfl, Option.some.inj h⟩
    · cases h
  · cases h

/-- At rest, an append that has opened a window has announced its batch. -/
private theorem announced_of_opened (hreach : Reachable config final) (hrest : final.AtRest)
    {before after : History E} {id : Nat} {batch : List (RecordedEvent E)} {owner : AggregateKey}
    {window : Window} {met : Snapshot Window}
    (hsplit : final.world.history = before ++ ⟨id, .append key batch,
      .answered (.windows (.getOrInsert owner window)) (met, true)⟩ :: after) :
    (id, batch) ∈ History.announcements final.world.history key := by
  obtain ⟨entry, hentry, hid⟩ := System.Reaches.goes_on hreach hrest hsplit rfl
  obtain ⟨between, late, rfl⟩ := List.append_of_mem hentry
  have hopening : (⟨id, .append key batch,
      .answered (.windows (.getOrInsert owner window)) (met, true)⟩ : Entry E) ∈
        final.world.history := by
    rw [hsplit]
    exact List.mem_append_right _ List.mem_cons_self
  have hmem : entry ∈ final.world.history := by
    rw [hsplit]
    exact List.mem_append_right _ (List.mem_cons_of_mem _ hentry)
  have hcall := System.Reaches.call_eq hreach hmem hopening hid
  rw [← List.cons_append, ← List.append_assoc] at hsplit
  have hwarranted := hreach.warranted hsplit
  obtain ⟨number, call, action⟩ := entry
  obtain rfl : number = id := hid
  obtain rfl : call = .append key batch := hcall
  rw [hsplit]
  obtain ⟨-, hannounces | hnone | hannounced⟩ := hwarranted
  · exact List.mem_filterMap.2 ⟨_, List.mem_append_right _ List.mem_cons_self, hannounces⟩
  · have hopening := hnone _ (History.mem_own.2
      ⟨List.mem_append_right _ List.mem_cons_self, rfl⟩)
    simp [Entry.opened?] at hopening
  · rw [History.announcements, List.filterMap_append]
    exact List.mem_append_left _ hannounced

/-- An append that has opened a window over events of others does not commit: its batch was checked
against a log that has gone. -/
private theorem not_mem_commits_of_stale (hreach : Reachable config final)
    {before after : History E} {id : Nat} {batch : List (RecordedEvent E)} {owner : AggregateKey}
    {window : Window} {met : Snapshot Window}
    (hsplit : final.world.history = before ++ ⟨id, .append key batch,
      .answered (.windows (.getOrInsert owner window)) (met, true)⟩ :: after)
    (hstale : window.first ≤ (streamOf (History.world before) key).tail) :
    (id, batch) ∉ History.commits final.world.history key := by
  intro hmem
  obtain ⟨early, late, owner', seen', new, hcommit⟩ := History.exists_of_mem_commits hmem
  have hopens := (hreach.warranted hsplit).1
  have hcommits := (hreach.warranted hcommit).1
  have hswapped := hreach.faithful hcommit _ _ rfl
  have hsound := hreach.sound_before hsplit
  have hsound' := hreach.sound_before hcommit
  cases hopens with
  | @meetWindow seen last _ hread _ hwithin =>
    cases hcommits with
    | commit _ hread' hlog =>
      rcases append_cons_eq_append_cons (hsplit.symm.trans hcommit) with
        ⟨-, heq⟩ | ⟨between, rfl, rfl⟩ | ⟨between, rfl, rfl⟩
      · cases heq
      · have hextends := List.prefix_append before (⟨id, .append key batch,
          .answered (.windows (.getOrInsert key (.opened (seen.value.tail + 1) last)))
            (met, true)⟩ :: between)
        have hsame := History.read?_of_extends hextends hread
        obtain rfl : seen = seen' := Option.some.inj (hsame.symm.trans hread')
        have hgrown : (streamOf (History.world before) key).tail ≤ _ :=
          tail_le_of_extends hsound hsound' hextends
        have hcurrent := hswapped.trans (SnapshotMap.compareAndSwap_fst _ _ _ _)
        rw [Stream.tail_of_log (hlog hcurrent.symm)] at hgrown
        change seen.value.tail + 1 ≤ _ at hstale
        lia
      · have hstage := hwithin _ (List.mem_append_right _ List.mem_cons_self) rfl
        exact absurd hstage (by simp [Entry.stage])

private theorem reopened_of_extends {history later : History E} (hextends : history <+: later)
    (hreopened : History.Reopened history key) : History.Reopened later key := by
  obtain ⟨before, entry, after, first, rfl, hopened, hle⟩ := hreopened
  obtain ⟨rest, rfl⟩ := hextends
  exact ⟨before, entry, after ++ rest, first, by simp, hopened, hle⟩

/-- If all appends commit that announce a batch, none of them opens a window over events of others.
-/
private theorem not_reopened (hreach : Reachable config final) (hrest : final.AtRest)
    (hcommit : ∀ call ∈ History.announcements final.world.history key,
      call ∈ History.commits final.world.history key) :
    ¬ History.Reopened final.world.history key := by
  rintro ⟨before, entry, after, first, hsplit, hopened, hle⟩
  obtain ⟨id, batch, owner, window, met, rfl, rfl⟩ := exists_of_opened?_eq_some hopened
  refine not_mem_commits_of_stale hreach hsplit ?_
    (hcommit _ (announced_of_opened hreach hrest hsplit))
  have hvalid := hreach.sound_before hsplit key
  rw [hvalid.tail_eq_length, hvalid.events_eq]
  exact hle

/-- Only a lost append can make the listing of undelivered events say too much. In a run in which
every append to an aggregate that announces its batch commits it before the run is over, however
many appends, deliveries and listings are nested in each other, the listing has at every moment
exactly the committed events of this aggregate behind the furthest position that was acknowledged
for it. -/
theorem undelivered_listing_exact (hreach : Reachable config moment)
    (hfinal : (calls config).Reaches moment final) (hrest : final.AtRest)
    (hcommit : ∀ call ∈ History.announcements final.world.history key,
      call ∈ History.commits final.world.history key) :
    ∃ listing, (runAlone (listUndelivered none) moment.world.state).1 = .ok listing ∧
      (listing.filter (·.key = key)).flatMap (·.events) =
        (streamOf moment.world key).events.filter fun event =>
          History.watermark moment.world.history key < event.sequenceId := by
  have hvalid := hreach.sound key
  have hreopened : ¬ (streamOf moment.world key).isReopened := fun h =>
    not_reopened (hreach.trans hfinal) hrest hcommit
      (reopened_of_extends hfinal.history_extends h)
  obtain ⟨listing, hlisting, hevents⟩ := runAlone_listUndelivered_of_key moment.world.state key
  refine ⟨listing, hlisting, hevents.trans ?_⟩
  cases hwindow : moment.world.state.windows.get? key with
  | none =>
    -- Without a window everything is acknowledged.
    have htail : (streamOf moment.world key).tail ≤ History.watermark moment.world.history key :=
      hvalid.tail_le_watermark hwindow
    refine (List.filter_eq_nil_iff.2 fun event hevent => ?_).symm
    have hle := hvalid.sequenceId_le_tail hevent
    simp only [decide_eq_true_eq]
    lia
  | some window =>
    have hdelivered : window.value.delivered = History.watermark moment.world.history key :=
      hreach.exact key hreopened window hwindow
    cases hlog : moment.world.state.logs.get? key with
    | none => simp [eventsBehind, streamOf, Stream.events, hlog]
    | some log =>
      have heq : (streamOf moment.world key).events = log.value.events := Stream.events_of_log hlog
      have hpositions := hvalid.positions
      rw [heq] at hpositions
      rw [heq, ← EventLog.slice_eq_filter hpositions, ← hdelivered]
      simp [eventsBehind, hlog]

end Reachable

/-- Two events are appended. A third one has been announced when the first two are delivered; then
it is committed. -/
def deliveredInAppend : List (Move (Call Unit)) :=
  .call (.append sampleKey (sampleBatch 1 2)) :: .replicate 10 .proceed ++
    .call (.append sampleKey (sampleBatch 3 1)) :: .replicate 6 .proceed ++
    .call (.markDelivered sampleKey 2) :: .replicate 7 .proceed

/-- Only the third event is listed, while the append of this event has not yet returned. -/
theorem undelivered_listing_exact_of_deliveredInAppend : ∃ moment,
    sampleRun deliveredInAppend = some moment ∧ moment.frames.length = 1 ∧
      ∃ listing, (runAlone (listUndelivered none) moment.world.state).1 = .ok listing ∧
        (listing.filter (·.key = sampleKey)).flatMap (·.events) = sampleBatch 3 1 := by
  have hrun : sampleRun deliveredInAppend = some _ := rfl
  refine ⟨_, hrun, rfl, ?_⟩
  exact undelivered_listing_exact (reachable_of_sampleRun hrun) ⟨.replicate 2 .proceed, rfl⟩
    (fun _ h => nomatch h) (fun _ h => h)

end EventSourcing.Repository
