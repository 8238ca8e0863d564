import EventSourcing.Proofs.Repository.Stream

namespace EventSourcing.Repository

variable {E : Type}

namespace Stream

/-- The stream with another window in the place of the one it has. -/
def rewindowed (s : Stream E) (window : Window) : Stream E :=
  { s with window := some ⟨s.nextStamp, window⟩, nextStamp := s.nextStamp + 1 }

section Rewindowing

variable {key : AggregateKey} {s : Stream E} {new : Window}

theorem Valid.rewindowed (hvalid : s.Valid key) (hfirst : new.first ≤ s.tail + 1)
    (hle : new.first ≤ new.last) (hdelivered : new.delivered ≤ s.watermark)
    (hlast : ¬ s.isReopened → s.tail ≤ new.last) : (s.rewindowed new).Valid key := by
  refine { hvalid with
    stamp_lt := ?_, first_le := ?_, first_le_last := ?_, delivered_le := ?_,
    tail_le_watermark := ?_, tail_le_last := ?_ }
  · intro window hwindow
    cases hwindow
    exact Nat.lt_succ_self _
  · intro window hwindow
    cases hwindow
    exact hfirst
  · intro window hwindow
    cases hwindow
    exact hle
  · intro window hwindow
    cases hwindow
    exact hdelivered
  · intro hwindow
    cases hwindow
  · intro hreopened window hwindow
    cases hwindow
    exact hlast hreopened

theorem Later.rewindowed {current : Snapshot Window} (hwindow : s.window = some current)
    (hfirst : current.value.first ≤ new.first)
    (hannounced : current.value.first = s.tail + 1 →
      new.first = s.tail + 1 ∧ current.value.last ≤ new.last) :
    Later s (s.rewindowed new) where
  log := fun _ h => .inl h
  nextStamp_le := Nat.le_succ _
  window := fun window h => by
    cases h
    exact .inr (Nat.le_refl _)
  announced := fun _ window h hright => by
    obtain rfl : current = window := Option.some.inj (hwindow.symm.trans h)
    obtain ⟨hnew, hlast⟩ := hannounced hright
    exact ⟨_, rfl, hnew, hlast⟩
  settled := fun _ _ _ _ => rfl
  reopened := id
  first_le := fun _ later h => by
    cases h
    exact .inl ⟨current, hwindow, hfirst⟩
  overtaken := fun _ htail => absurd htail (Nat.lt_irrefl _)

end Rewindowing

/-- The window that a batch opens. If the log has grown past the beginning of the batch by then, the
aggregate is reopened: it was acknowledged to its end, and some of it is undelivered again. -/
def opened (s : Stream E) (first last : SequenceId) : Stream E :=
  { s with
    window := some ⟨s.nextStamp, .opened first last⟩
    nextStamp := s.nextStamp + 1
    isReopened := s.isReopened ∨ first ≤ s.tail }

theorem Valid.opened {key : AggregateKey} {s : Stream E} (hvalid : s.Valid key)
    (habsent : s.window = none) {first last : SequenceId} (hfirst : first ≤ s.tail + 1)
    (hle : first ≤ last) : (s.opened first last).Valid key := by
  have hwatermark := hvalid.tail_le_watermark habsent
  have hreopened : ({ s with isReopened := s.isReopened ∨ first ≤ s.tail } : Stream E).Valid key :=
    { hvalid with tail_le_last := fun h => hvalid.tail_le_last fun h' => h (.inl h') }
  refine hreopened.rewindowed hfirst hle ?_ fun hnot => ?_
  · change first - 1 ≤ s.watermark
    lia
  · have hbehind : ¬ first ≤ s.tail := fun h => hnot (.inr h)
    change s.tail ≤ last
    lia

theorem Later.opened {s : Stream E} (habsent : s.window = none) (first last : SequenceId) :
    Later s (s.opened first last) where
  log := fun _ h => .inl h
  nextStamp_le := Nat.le_succ _
  window := fun window h => by
    cases h
    exact .inr (Nat.le_refl _)
  announced := fun _ window h => by simp [habsent] at h
  settled := fun window h => by simp [habsent] at h
  reopened := .inl
  first_le := fun hreopened later h => by
    cases h
    exact .inr (Nat.lt_of_not_le fun hle => hreopened (.inr hle))
  overtaken := fun _ htail => absurd htail (Nat.lt_irrefl _)

section Widening

variable {key : AggregateKey} {s : Stream E} {current : Snapshot Window} {seen last : SequenceId}

theorem Valid.widened (hvalid : s.Valid key) (hwindow : s.window = some current)
    (hseen : seen ≤ s.tail) (hlast : seen + 1 ≤ last)
    (hkept : ¬ (last < current.value.last ∧ ¬ current.value.isSpeculative seen = true))
    (hahead : ¬ s.isReopened → seen < s.tail → seen < current.value.first) :
    (s.rewindowed (current.value.widened (seen + 1) last)).Valid key := by
  refine hvalid.rewindowed (Nat.succ_le_succ hseen) hlast (hvalid.delivered_le current hwindow)
    fun hreopened => ?_
  change s.tail ≤ last
  by_cases hstale : seen < s.tail
  · -- The log has grown since it was seen, so the window that was met reaches at least as far.
    have hle := Window.last_le_of_not_kept hkept (hahead hreopened hstale)
    have htail := hvalid.tail_le_last hreopened current hwindow
    lia
  · lia

theorem Later.widened (hwindow : s.window = some current)
    (hseen : seen ≤ s.tail) (hfirst : current.value.first ≤ seen + 1)
    (hkept : ¬ (last < current.value.last ∧ ¬ current.value.isSpeculative seen = true)) :
    Later s (s.rewindowed (current.value.widened (seen + 1) last)) := by
  refine .rewindowed hwindow hfirst fun hannounced => ?_
  have hle := Window.last_le_of_not_kept hkept (by lia)
  have heq : seen = s.tail := by lia
  exact ⟨congrArg (· + 1) heq, hle⟩

end Widening

/-- A batch becomes the end of the log. -/
def committed (s : Stream E) (id stamp : Nat) (log : EventLog E) (batch : List (RecordedEvent E)) :
    Stream E :=
  { s with log := some ⟨stamp, log.append batch⟩, commits := s.commits ++ [(id, batch)] }

section Committing

variable {key : AggregateKey} {s : Stream E} {seen : Snapshot (EventLog E)} {id stamp : Nat}
  {batch : List (RecordedEvent E)}

theorem tail_committed (id stamp : Nat) (hlog : s.log = some seen)
    (hpositions : batch.map (·.sequenceId) = List.range' (s.tail + 1) batch.length) :
    (s.committed id stamp seen.value batch).tail = s.tail + batch.length := by
  have htail : s.tail = seen.value.tail := tail_of_log hlog
  have hlast : (batch.getLast?.map (·.sequenceId)) =
      (List.range' (s.tail + 1) batch.length).getLast? := by
    rw [← hpositions, List.getLast?_map]
  change (seen.value.append batch).tail = _
  rw [EventLog.tail_append, hlast, List.getLast?_range', ← htail]
  split
  · next hempty => simp [hempty]
  · change s.tail + 1 + batch.length - 1 = s.tail + batch.length
    lia

theorem Valid.committed (hvalid : s.Valid key) (hlog : s.log = some seen) (hne : batch ≠ [])
    (hpositions : batch.map (·.sequenceId) = List.range' (s.tail + 1) batch.length)
    (hbelongs : ∀ event ∈ batch, event.key = key) (hcommits : ∀ commit ∈ s.commits, commit.1 ≠ id)
    (hreturns : ∀ call ∈ s.returns, call.1 ≠ id) {window : Snapshot Window}
    (hwindow : s.window = some window) (hlast : s.tail + batch.length ≤ window.value.last) :
    (s.committed id stamp seen.value batch).Valid key := by
  have htail := tail_committed id stamp hlog hpositions
  have hevents : (s.committed id stamp seen.value batch).events = s.events ++ batch := by
    rw [events_of_log hlog]
    rfl
  refine ⟨?_, ?_, ?_, ?_, ?_, ?_, hvalid.stamp_lt, ?_, hvalid.first_le_last, hvalid.delivered_le,
    ?_, ?_, ?_, ?_⟩
  · rw [hevents, hvalid.events_eq]
    simp [Stream.committed]
  · rw [hevents, List.map_append, hvalid.positions, hpositions, hvalid.tail_eq_length,
      List.length_append, Nat.add_comm s.events.length 1, List.range'_append_1]
  · intro event hevent
    rw [hevents] at hevent
    rcases List.mem_append.1 hevent with h | h
    · exact hvalid.belongs event h
    · exact hbelongs event h
  · intro commit hcommit
    rcases List.mem_append.1 hcommit with h | h
    · exact hvalid.batch_ne_nil commit h
    · obtain rfl := List.mem_singleton.1 h
      exact hne
  · simp only [Stream.committed, List.map_append, List.nodup_append]
    refine ⟨hvalid.commits_nodup, by simp, ?_⟩
    intro a ha b hb
    obtain ⟨commit, hcommit, rfl⟩ := List.mem_map.1 ha
    obtain rfl : b = id := by simpa using hb
    exact hcommits commit hcommit
  · intro call hcall hbatch other
    rw [← hvalid.mem_commits_iff call hcall hbatch]
    have hid := hreturns call hcall
    simp [Stream.committed, hid]
  · intro other hother
    have hle := hvalid.first_le other hother
    rw [htail]
    lia
  · intro habsent
    exact absurd (hwindow.symm.trans habsent) (by simp)
  · have hle := hvalid.watermark_le_tail
    rw [htail]
    exact Nat.le_trans hle (Nat.le_add_right _ _)
  · intro _ other hother
    obtain rfl : window = other := Option.some.inj (hwindow.symm.trans hother)
    rw [htail]
    exact hlast
  · intro hindexed
    obtain ⟨commit, hhead, hmem⟩ := hvalid.indexed hindexed
    exact ⟨commit, by simp [Stream.committed, List.head?_append, hhead], hmem⟩

theorem Later.committed (hlog : s.log = some seen)
    (hstamp : seen.stamp < stamp) (hne : batch ≠ [])
    (hpositions : batch.map (·.sequenceId) = List.range' (s.tail + 1) batch.length)
    {window : Snapshot Window} (hwindow : s.window = some window)
    (hfirst : window.value.first = s.tail + 1) :
    Later s (s.committed id stamp seen.value batch) := by
  have htail := tail_committed id stamp hlog hpositions
  have hpos : 0 < batch.length := List.length_pos_iff.2 hne
  refine ⟨?_, Nat.le_refl _, fun _ h => .inl h, ?_, ?_, fun h => h, ?_, ?_⟩
  · intro old hold
    obtain rfl : seen = old := Option.some.inj (hlog.symm.trans hold)
    refine .inr ⟨_, rfl, hstamp, ?_⟩
    rw [← tail_of_log hlog]
    change s.tail < (s.committed id stamp seen.value batch).tail
    lia
  · intro heq
    lia
  · intro other hother _ hle
    obtain rfl : window = other := Option.some.inj (hwindow.symm.trans hother)
    lia
  · intro _ later hlater
    exact .inl ⟨later, hlater, Nat.le_refl _⟩
  · intro _ _ later hlater
    obtain rfl : window = later := Option.some.inj (hwindow.symm.trans hlater)
    lia

end Committing

/-- The events up to a position are acknowledged. -/
def acknowledged (s : Stream E) (delivered : SequenceId) : Stream E :=
  { s with watermark := max s.watermark delivered }

theorem Valid.acknowledged {key : AggregateKey} {s : Stream E} (hvalid : s.Valid key)
    {delivered : SequenceId} (hle : delivered ≤ s.tail) : (s.acknowledged delivered).Valid key :=
  { hvalid with
    delivered_le := fun window h =>
      Nat.le_trans (hvalid.delivered_le window h) (Nat.le_max_left _ _)
    tail_le_watermark := fun h =>
      Nat.le_trans (hvalid.tail_le_watermark h) (Nat.le_max_left _ _)
    watermark_le_tail := Nat.max_le.2 ⟨hvalid.watermark_le_tail, hle⟩ }

theorem Later.acknowledged (s : Stream E) (delivered : SequenceId) :
    Later s (s.acknowledged delivered) :=
  .of_same rfl rfl (Nat.le_refl _) fun h => h

/-- What calls may rely on has nothing to do with acknowledgements. -/
theorem Later.acknowledge {s t : Stream E} (hlater : Later s t) (delivered : SequenceId) :
    Later s (t.acknowledged delivered) :=
  { hlater with }

/-- The window of `s` after a delivery, provided that nothing happens in between. -/
def settled (s : Stream E) (window : Window) (delivered : SequenceId) : Window :=
  (window.clamped s.tail).acknowledged delivered

section Delivery

variable {key : AggregateKey} {s : Stream E} {current : Snapshot Window} {delivered : SequenceId}

theorem Valid.advanced (hvalid : s.Valid key) (hwindow : s.window = some current)
    (hlast : s.tail ≤ current.value.last) (hle : delivered ≤ s.tail) :
    ((s.rewindowed (s.settled current.value delivered)).acknowledged delivered).Valid key := by
  refine (hvalid.acknowledged hle).rewindowed ?_ ?_ ?_ fun _ => ?_
  · change (current.value.clamped s.tail).first ≤ s.tail + 1
    rw [Window.first_clamped]
    exact hvalid.first_le current hwindow
  · simpa [settled] using Window.first_le_last_clamped (hvalid.first_le_last current hwindow) s.tail
  · have hdelivered := hvalid.delivered_le current hwindow
    change max (current.value.clamped s.tail).delivered delivered ≤ max s.watermark delivered
    rw [Window.delivered_clamped]
    lia
  · exact Window.tail_le_last_clamped hlast

/-- A window that starts behind the log is not cut back when it is settled. -/
private theorem last_settled (hannounced : current.value.first = s.tail + 1) :
    (s.settled current.value delivered).last = current.value.last := by
  rw [settled, Window.acknowledged_last, Window.clamped_of_tail_lt (by lia)]

theorem Later.advanced (hwindow : s.window = some current) :
    Later s ((s.rewindowed (s.settled current.value delivered)).acknowledged delivered) := by
  have hfirst : (s.settled current.value delivered).first = current.value.first := by
    simp [Stream.settled]
  refine (Later.rewindowed hwindow (Nat.le_of_eq hfirst.symm) fun hannounced => ?_).acknowledge _
  exact ⟨hfirst.trans hannounced, Nat.le_of_eq (last_settled hannounced).symm⟩

/-- Everything is delivered, and the window is gone. -/
def removed (s : Stream E) : Stream E :=
  { s with window := none }

theorem Valid.removed (hvalid : s.Valid key) (hwindow : s.window = some current)
    (hlast : s.tail ≤ current.value.last) (hle : delivered ≤ s.tail)
    (hdone : (s.settled current.value delivered).delivered =
      (s.settled current.value delivered).last) :
    (s.removed.acknowledged delivered).Valid key := by
  refine { hvalid with
    stamp_lt := ?_, first_le := ?_, first_le_last := ?_, delivered_le := ?_,
    tail_le_watermark := ?_, watermark_le_tail := ?_, tail_le_last := ?_ }
  · intro window h
    cases h
  · intro window h
    cases h
  · intro window h
    cases h
  · intro window h
    cases h
  · intro _
    have htail := Window.tail_le_last_clamped hlast
    have hdelivered := hvalid.delivered_le current hwindow
    simp only [settled, Window.acknowledged_delivered, Window.acknowledged_last,
      Window.delivered_clamped] at hdone
    change s.tail ≤ max s.watermark delivered
    lia
  · exact Nat.max_le.2 ⟨hvalid.watermark_le_tail, hle⟩
  · intro _ window h
    cases h

theorem Later.removed (hvalid : s.Valid key) (hwindow : s.window = some current)
    (hle : delivered ≤ s.tail)
    (hdone : (s.settled current.value delivered).delivered =
      (s.settled current.value delivered).last) :
    Later s (s.removed.acknowledged delivered) where
  log := fun _ h => .inl h
  nextStamp_le := Nat.le_refl _
  window := fun window h => by cases h
  announced := fun _ window h hannounced => by
    -- A window that announces events behind the log cannot be delivered to its end.
    obtain rfl : current = window := Option.some.inj (hwindow.symm.trans h)
    rw [last_settled hannounced, Stream.settled, Window.acknowledged_delivered,
      Window.delivered_clamped] at hdone
    have hdelivered := hvalid.delivered_le current hwindow
    have hwatermark := hvalid.watermark_le_tail
    have hfirst := hvalid.first_le_last current hwindow
    lia
  settled := fun _ _ _ _ => rfl
  reopened := fun h => h
  first_le := fun _ later h => by cases h
  overtaken := fun _ htail => absurd htail (Nat.lt_irrefl _)

end Delivery

section Quiet

variable {key : AggregateKey} {s : Stream E}

/-- The first look of an append at an aggregate gives it a log without events. -/
def created (s : Stream E) (stamp : Nat) : Stream E :=
  { s with log := some ⟨stamp, .empty⟩ }

theorem Valid.created (hvalid : s.Valid key) (habsent : s.log = none) (stamp : Nat) :
    (s.created stamp).Valid key := by
  have hevents : (s.created stamp).events = s.events := by
    simp [Stream.created, events, habsent, EventLog.empty]
  have htail : (s.created stamp).tail = s.tail := by
    simp [Stream.created, tail, habsent]
  refine { hvalid with
    events_eq := ?_, positions := ?_, belongs := ?_, first_le := ?_, tail_le_watermark := ?_,
    watermark_le_tail := ?_, tail_le_last := ?_ }
  · rw [hevents]
    exact hvalid.events_eq
  · rw [hevents]
    exact hvalid.positions
  · rw [hevents]
    exact hvalid.belongs
  · rw [htail]
    exact hvalid.first_le
  · rw [htail]
    exact hvalid.tail_le_watermark
  · rw [htail]
    exact hvalid.watermark_le_tail
  · rw [htail]
    exact hvalid.tail_le_last

theorem Later.created (habsent : s.log = none) (stamp : Nat) : Later s (s.created stamp) where
  log := fun _ h => by simp [habsent] at h
  nextStamp_le := Nat.le_refl _
  window := fun _ h => .inl h
  announced := fun _ window h hfirst => ⟨window, h, hfirst, Nat.le_refl _⟩
  settled := fun _ _ _ _ => by simp [Stream.created, tail, habsent]
  reopened := fun h => h
  first_le := fun _ later h => .inl ⟨later, h, Nat.le_refl _⟩
  overtaken := fun _ htail => by simp [Stream.created, tail, habsent] at htail

/-- The aggregate comes into the index of its type. -/
def enrolled (s : Stream E) (id : Nat) : Stream E :=
  { s with isIndexed := True, indexings := s.indexings ++ [id] }

theorem Valid.enrolled (hvalid : s.Valid key) {id : Nat}
    (hhead : ∃ commit, s.commits.head? = some commit ∧ commit.1 = id) :
    (s.enrolled id).Valid key :=
  { hvalid with
    indexed := fun _ => by
      obtain ⟨commit, hhead, rfl⟩ := hhead
      exact ⟨commit, hhead, List.mem_append_right _ List.mem_cons_self⟩ }

/-- An append to the aggregate has returned. -/
def returned (s : Stream E) (id : Nat) (batch : List (RecordedEvent E)) (outcome : Result Unit) :
    Stream E :=
  { s with returns := s.returns ++ [(id, batch, outcome)] }

theorem Valid.returned (hvalid : s.Valid key) {id : Nat} {batch : List (RecordedEvent E)}
    {outcome : Result Unit} (houtcome : batch ≠ [] → ∀ other,
      (id, other) ∈ s.commits ↔ other = batch ∧ outcome = .ok ()) :
    (s.returned id batch outcome).Valid key :=
  { hvalid with
    mem_commits_iff := fun call hcall => by
      rcases List.mem_append.1 hcall with h | h
      · exact hvalid.mem_commits_iff call h
      · obtain rfl := List.mem_singleton.1 h
        exact houtcome }

/-- Windows of other aggregates have got stamps. -/
def aged (s : Stream E) (nextStamp : Nat) : Stream E :=
  { s with nextStamp }

theorem Valid.aged (hvalid : s.Valid key) {nextStamp : Nat} (hle : s.nextStamp ≤ nextStamp) :
    (s.aged nextStamp).Valid key :=
  { hvalid with
    stamp_lt := fun window h => Nat.lt_of_lt_of_le (hvalid.stamp_lt window h) hle }

end Quiet

end Stream

end EventSourcing.Repository
