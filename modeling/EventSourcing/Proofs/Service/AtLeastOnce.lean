import EventSourcing.Proofs.Service.Reachable

namespace EventSourcing.Service

open Interleaving

variable {State Command E : Type} {setting : Setting State Command E} {key : AggregateKey}
  {world : World State Command E}

def Call.isMarking : Call Command E → Bool
  | .direct (.markDelivered _ _) => true
  | _ => false

/-- Nothing moves a watermark but drains. -/
def History.MarksByDrain (history : History State Command E) : Prop :=
  ∀ entry ∈ history, entry.call.isMarking = false

instance (history : History State Command E) : Decidable (History.MarksByDrain history) :=
  inferInstanceAs (Decidable (∀ entry ∈ history, _))

/-- An acknowledgement by call number `id` is earned: the call has listed the events of the
aggregate from the watermark of then, or before, to the end of the log of then, which is the
position that it acknowledges, and it has published all of them before. Whoever has got an event of
the aggregate from this call, before or after, has accepted it. -/
def History.Earned (history before : History State Command E) (id : Nat) (key : AggregateKey)
    (last : SequenceId) : Prop :=
  ∃ early token found listing late undelivered,
    before = early ++ ⟨id, .drain token, .answered (.arrange found) listing⟩ :: late ∧
    undelivered ∈ listing ∧ undelivered.key = key ∧
    (∃ delivered ≤ History.watermark early key,
      undelivered.events = (History.log early key).drop delivered) ∧
    last = (History.log early key).length ∧
    (∀ event ∈ undelivered.events, History.Published before id event) ∧
    ∀ reception ∈ History.receptions history id, reception.2.1.key = key → reception.2.2 = .ok ()

theorem Lawful.positions_of_prefix (hlawful : Lawful setting world)
    {past : List (RecordedEvent E)} (hpast : past <+: History.log world.history key) :
    past.map (·.sequenceId) = List.range' 1 past.length := by
  obtain ⟨rest, hrest⟩ := hpast
  have hpositions := hlawful.positions key
  rw [← hrest, List.map_append, List.length_append, ← List.range'_append_1] at hpositions
  exact (List.append_inj hpositions (by simp)).1

/-- An event stands in a log where its position says. -/
theorem Lawful.mem_drop (hlawful : Lawful setting world) {past : List (RecordedEvent E)}
    (hpast : past <+: History.log world.history key) {event : RecordedEvent E}
    (hevent : event ∈ History.log world.history key) {after : Nat}
    (hafter : after < event.sequenceId) (hlast : event.sequenceId ≤ past.length) :
    event ∈ past.drop after := by
  obtain ⟨index, hindex, hget⟩ := List.getElem_of_mem hevent
  have hposition : event.sequenceId = index + 1 := by
    have hsame := congrArg (·[index]?) (hlawful.positions key)
    simp [hindex, hget] at hsame
    lia
  have hpastIndex : index < past.length := by lia
  have hpastGet : past[index] = event := (hpast.getElem hpastIndex).trans hget
  refine List.mem_drop_iff_getElem.2 ⟨index - after, by lia, ?_⟩
  simp only [show after + (index - after) = index by lia, hpastGet]

theorem Lawful.sequenceId_mem_range (hlawful : Lawful setting world) {past : List (RecordedEvent E)}
    (hpast : past <+: History.log world.history key) {event : RecordedEvent E}
    (hevent : event ∈ past) : 1 ≤ event.sequenceId ∧ event.sequenceId ≤ past.length := by
  have hmem : event.sequenceId ∈ past.map (·.sequenceId) := List.mem_map_of_mem hevent
  rw [hlawful.positions_of_prefix hpast, List.mem_range'_1] at hmem
  lia

/-- Whatever lies behind the watermark of its aggregate is listed. -/
theorem Lawful.exists_listed (hlawful : Lawful setting world) {event : RecordedEvent E}
    (hevent : event ∈ History.log world.history key)
    (hbehind : History.watermark world.history key < event.sequenceId) :
    ∃ listing undelivered,
      (Repository.runAlone (Repository.listUndelivered none) world.state.repository).1 =
        .ok listing ∧ undelivered ∈ listing ∧ event ∈ undelivered.events := by
  have hle := (hlawful.sequenceId_mem_range (List.prefix_refl _) hevent).2
  have hvalid := hlawful.sound key
  have htail := hvalid.tail_eq_length.trans (congrArg List.length (hlawful.logOf_eq key))
  have hwatermark : (Repository.streamOf (repositoryOf world) key).watermark =
      History.watermark world.history key := rfl
  cases hwindow : (Repository.streamOf (repositoryOf world) key).window with
  | none =>
    have hnone := hvalid.tail_le_watermark hwindow
    lia
  | some window =>
    have hdelivered := hvalid.delivered_le window hwindow
    have hpending : event ∈ world.state.repository.eventsBehind key window.value.delivered := by
      rw [hlawful.eventsBehind_eq]
      exact hlawful.mem_drop (List.prefix_refl _) hevent (by lia) hle
    obtain ⟨listing, hrun, hlisting⟩ := Repository.mem_listUndelivered world.state.repository
    refine ⟨listing, ⟨key, _⟩, congrArg Prod.fst hrun, (hlisting _).2 ⟨window, hwindow, rfl, ?_⟩,
      hpending⟩
    exact List.ne_nil_of_mem hpending

private theorem call_eq_of_acknowledged_pos {step : Repository.Entry E}
    (h : 0 < Repository.Entry.acknowledged key step) :
    ∃ last, Repository.Entry.acknowledged key step = last ∧
      step.call = .markDelivered key last := by
  unfold Repository.Entry.acknowledged at h ⊢
  split at h
  case h_4 => cases h
  all_goals
    split at h
    · next hkey => exact ⟨_, rfl, by simp [hkey]⟩
    · cases h

/-- Nothing acknowledges events of an aggregate but marking them as delivered. -/
theorem Entry.of_acknowledged_pos {entry : Entry State Command E} (h : 0 < entry.acknowledged key) :
    ∃ id call number last request reply, entry.acknowledged key = last ∧ entry = ⟨id, call,
      .answered (.repository number (.markDelivered key last) request) reply⟩ := by
  cases hoperation : entry.operation? with
  | none => simp [Entry.acknowledged, hoperation] at h
  | some step =>
    have hacknowledged : entry.acknowledged key = Repository.Entry.acknowledged key step := by
      rw [Entry.acknowledged, hoperation]
      rfl
    obtain ⟨last, hlast, hcall⟩ := call_eq_of_acknowledged_pos (hacknowledged ▸ h)
    have hentry := hacknowledged.trans hlast
    unfold Entry.operation? at hoperation
    split at hoperation
    · cases hoperation
      obtain rfl := hcall
      exact ⟨_, _, _, last, _, _, hentry, rfl⟩
    · cases hoperation

/-- What acknowledges events is a step of a drain that has them confirmed. -/
theorem Lawful.confirmed (hlawful : Lawful setting world)
    (hmarks : History.MarksByDrain world.history) {before after : History State Command E}
    {entry : Entry State Command E} (hhistory : world.history = before ++ entry :: after)
    (hpos : 0 < entry.acknowledged key) :
    entry.marking? = some key ∧
      History.Confirmed before entry.id key (entry.acknowledged key) := by
  obtain ⟨id, call, number, last, request, reply, hlast, rfl⟩ := Entry.of_acknowledged_pos hpos
  have hwarranted := hlawful.warranted before _ after hhistory
  have hcall := hmarks _ (hhistory ▸ List.mem_append_right _ List.mem_cons_self)
  rw [hlast]
  refine ⟨rfl, ?_⟩
  cases call with
  | drain token => exact hwarranted
  | direct operation =>
    obtain rfl : .markDelivered key last = operation := hwarranted
    cases hcall
  | process | aggregate | subscribe | cancel | close => exact hwarranted.elim

/-- Once a drain has marked events of an aggregate, it hands none of them to anyone any more. -/
theorem Lawful.receptions_of_marking (hlawful : Lawful setting world)
    {before after : History State Command E} {entry : Entry State Command E}
    (hhistory : world.history = before ++ entry :: after) (hmarking : entry.marking? = some key) :
    ∀ reception ∈ History.receptions (entry :: after) entry.id, reception.2.1.key ≠ key := by
  intro reception hreception hkey
  obtain ⟨other, hother, h⟩ := List.mem_filterMap.1 hreception
  obtain ⟨id, call, rfl⟩ := Entry.of_reception?_eq_some h
  obtain ⟨hmem, rfl⟩ : _ ∧ id = entry.id := History.mem_own.1 hother
  rcases List.mem_cons.1 hmem with heq | hmem
  · rw [← heq] at hmarking
    cases hmarking
  · obtain ⟨between, rest, rfl⟩ := List.append_of_mem hmem
    rw [← List.cons_append, ← List.append_assoc] at hhistory
    have hwarranted := hlawful.warranted _ _ _ hhistory
    have hunmarked : ∀ earlier ∈ History.own (before ++ entry :: between) entry.id,
        Entry.marking? earlier ≠ some reception.2.1.key := by
      cases call <;> exact hwarranted
    exact hunmarked entry (History.mem_own.2 ⟨by simp, rfl⟩)
      (hmarking.trans (congrArg some hkey.symm))

theorem Lawful.earned (hlawful : Lawful setting world)
    (hmarks : History.MarksByDrain world.history) {before after : History State Command E}
    {entry : Entry State Command E} (hhistory : world.history = before ++ entry :: after)
    (hpos : 0 < entry.acknowledged key) :
    History.Earned world.history before entry.id key (entry.acknowledged key) := by
  obtain ⟨hmarking, token, found, listing, undelivered, hlisted, hmem, hkey, hlast, hpublished,
    haccepted⟩ := hlawful.confirmed hmarks hhistory hpos
  obtain ⟨early, late, rfl⟩ := List.append_of_mem hlisted
  have hlists : History.Lists early listing := by
    rw [List.append_assoc, List.cons_append] at hhistory
    exact hlawful.warranted early ⟨_, .drain token, .answered (.arrange found) listing⟩ _ hhistory
  have hearly : early <+: world.history := by
    rw [hhistory, List.append_assoc]
    exact List.prefix_append _ _
  have hevents := hlists.events_eq undelivered hmem
  rw [hkey] at hevents
  refine ⟨early, token, found, listing, late, undelivered, rfl, hmem, hkey, hevents, ?_, hpublished,
    fun reception hreception hkey => ?_⟩
  · obtain ⟨delivered, -, hevents⟩ := hevents
    rw [UndeliveredEvents.lastSequenceId?, hevents, List.getLast?_drop] at hlast
    split at hlast
    · cases hlast
    · rw [← List.getLast?_map, hlawful.positions_of_prefix (History.log_prefix hearly key),
        List.getLast?_range'] at hlast
      split at hlast
      · cases hlast
      · have hposition := Option.some.inj hlast
        lia
  · rw [hhistory, History.receptions_append] at hreception
    rcases List.mem_append.1 hreception with h | h
    · exact haccepted reception h hkey
    · exact absurd hkey (hlawful.receptions_of_marking hhistory hmarking reception h)

theorem exists_of_le_watermark {history : History State Command E} {position : SequenceId}
    (hpos : 0 < position) (hle : position ≤ History.watermark history key) :
    ∃ entry ∈ history, position ≤ Entry.acknowledged key entry := by
  induction history with
  | nil => exact absurd hle (Nat.not_le_of_gt hpos)
  | cons entry rest ih =>
    have hwatermark : History.watermark (entry :: rest) key =
        max (Entry.acknowledged key entry) (History.watermark rest key) := by
      simp only [History.watermark, Repository.History.watermark, History.operations,
        Entry.acknowledged]
      cases h : Entry.operation? entry with
      | none => simp [h]
      | some step => simp [h]
    by_cases h : position ≤ Entry.acknowledged key entry
    · exact ⟨entry, List.mem_cons_self, h⟩
    · obtain ⟨other, hother, hle⟩ := ih (by lia)
      exact ⟨other, List.mem_cons_of_mem _ hother, hle⟩

/-- Whatever has been acknowledged has been published. The drain that has acknowledged it may not
have listed it, but then it had been acknowledged before. -/
theorem Lawful.exists_published (hlawful : Lawful setting world)
    (hmarks : History.MarksByDrain world.history) {event : RecordedEvent E}
    (hevent : event ∈ History.log world.history key) (before : History State Command E)
    (hbefore : before <+: world.history)
    (hle : event.sequenceId ≤ History.watermark before key) :
    ∃ id, History.Published world.history id event := by
  have hposition := hlawful.sequenceId_mem_range (List.prefix_refl _) hevent
  induction hlength : before.length using Nat.strongRecOn generalizing before with
  | _ length ih =>
    obtain ⟨entry, hentry, hacknowledged⟩ := exists_of_le_watermark hposition.1 hle
    obtain ⟨first, rest, rfl⟩ := List.append_of_mem hentry
    obtain ⟨after, hafter⟩ := hbefore
    have hhistory : world.history = first ++ entry :: (rest ++ after) := by simp [← hafter]
    obtain ⟨early, token, found, listing, late, undelivered, rfl, hmem, rfl,
      ⟨delivered, hdelivered, hevents⟩, hlast, hpublished, -⟩ :=
      hlawful.earned hmarks hhistory (Nat.lt_of_lt_of_le hposition.1 hacknowledged)
    have hearly : early <+: world.history := by
      rw [hhistory, List.append_assoc]
      exact List.prefix_append _ _
    by_cases hbehind : delivered < event.sequenceId
    · have hlisted : event ∈ undelivered.events := by
        rw [hevents]
        exact hlawful.mem_drop (History.log_prefix hearly _) hevent hbehind
          (hlast ▸ hacknowledged)
      exact ⟨entry.id, (hpublished event hlisted).mono (hhistory ▸ List.prefix_append _ _)⟩
    · refine ih early.length ?_ early hearly (by lia) rfl
      simp [← hlength]

/-- At every moment of every run in which only drains move watermarks, every event of a log that is
not listed as undelivered has been published by some drain: it was given to all who had subscribed
to events when that began, and all of them accepted it. Nothing is acknowledged but by a drain that
has earned it, so a drain that was cut short before some event of an aggregate, or of which somebody
has refused one, acknowledges nothing of that aggregate, and none acknowledges what was committed
behind its listing. -/
theorem delivered_at_least_once {moment : Moment State Command E}
    (hreach : Reachable setting moment)
    (hmarks : History.MarksByDrain moment.world.history) :
    (∀ key, ∀ event ∈ logOf moment.world.state key,
        (¬ ∃ listing undelivered,
          (Repository.runAlone (Repository.listUndelivered none) moment.world.state.repository).1 =
            .ok listing ∧ undelivered ∈ listing ∧ event ∈ undelivered.events) →
          ∃ id, History.Published moment.world.history id event) ∧
      ∀ before entry after key, moment.world.history = before ++ entry :: after →
        0 < Entry.acknowledged key entry →
          History.Earned moment.world.history before entry.id key
            (Entry.acknowledged key entry) := by
  have hlawful := hreach.lawful
  refine ⟨fun key event hevent hunlisted => ?_, fun before entry after key hhistory hpos => ?_⟩
  · rw [hlawful.logOf_eq] at hevent
    refine hlawful.exists_published hmarks hevent _ (List.prefix_refl _) ?_
    exact Nat.le_of_not_lt fun hbehind => hunlisted (hlawful.exists_listed hevent hbehind)
  · exact hlawful.earned hmarks hhistory hpos

/-- Somebody subscribes, a command is processed, and its events are drained. -/
def drained : List (Move (Call Nat Nat)) :=
  .call (.subscribe .events 3) :: .replicate 2 .proceed ++
    .call (.process sampleKey 5) :: .replicate 15 .proceed ++
    .call (.drain ⟨0⟩) :: .replicate 18 .proceed

theorem delivered_at_least_once_of_drained : ∃ moment, sampleRun drained = some moment ∧
    History.subscribers moment.world.history = [3] ∧
    (logOf moment.world.state sampleKey).map (·.payload) = [5, 0] ∧
    ∀ event ∈ logOf moment.world.state sampleKey,
      ∃ id, History.Published moment.world.history id event := by
  obtain ⟨moment, hrun, hreach, hmoment⟩ := exists_of_sampleRun drained
    (fun moment => decide (History.MarksByDrain moment.world.history ∧
      History.subscribers moment.world.history = [3] ∧
      (logOf moment.world.state sampleKey).map (·.payload) = [5, 0]) &&
      match (Repository.runAlone (Repository.listUndelivered none)
        moment.world.state.repository).1 with
      | .ok listing => listing.isEmpty
      | .error _ => false) (by decide +kernel)
  obtain ⟨hmoment, hempty⟩ := Bool.and_eq_true_iff.1 hmoment
  obtain ⟨hmarks, hsubscribers, hlog⟩ := of_decide_eq_true hmoment
  refine ⟨moment, hrun, hsubscribers, hlog, fun event hevent => ?_⟩
  obtain ⟨hpublished, -⟩ := delivered_at_least_once hreach hmarks
  refine hpublished sampleKey event hevent ?_
  rintro ⟨listing, undelivered, hlisting, hmem, -⟩
  rw [hlisting] at hempty
  simp [List.isEmpty_iff.1 hempty] at hmem

end EventSourcing.Service
