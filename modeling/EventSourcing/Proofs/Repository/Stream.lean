import EventSourcing.Proofs.Repository.Call

namespace EventSourcing.Repository

variable {E : Type}

/-- The log and the window of one aggregate, with what its history amounts to. -/
structure Stream (E : Type) where
  log : Option (Snapshot (EventLog E))
  window : Option (Snapshot Window)
  /-- The stamp that the next window of any aggregate gets. -/
  nextStamp : Nat
  isIndexed : Prop
  commits : List (Nat × List (RecordedEvent E))
  watermark : SequenceId
  indexings : List Nat
  returns : List (Nat × List (RecordedEvent E) × Result Unit)
  isReopened : Prop

namespace Stream

def events (s : Stream E) : List (RecordedEvent E) :=
  (s.log.map (·.value.events)).getD []

def tail (s : Stream E) : SequenceId :=
  (s.log.map (·.value.tail)).getD 0

/-- What is true of the stream of `key` at every moment. The watermark of a window never runs ahead
of what has been acknowledged, and an aggregate without a window is acknowledged to its end: so
nothing is lost. Only a window that was reopened over committed events may end inside the log. -/
structure Valid (key : AggregateKey) (s : Stream E) : Prop where
  events_eq : s.events = s.commits.flatMap (·.2)
  positions : s.events.map (·.sequenceId) = List.range' 1 s.events.length
  belongs : ∀ event ∈ s.events, event.key = key
  batch_ne_nil : ∀ commit ∈ s.commits, commit.2 ≠ []
  commits_nodup : (s.commits.map (·.1)).Nodup
  mem_commits_iff : ∀ call ∈ s.returns, call.2.1 ≠ [] → ∀ batch,
    (call.1, batch) ∈ s.commits ↔ batch = call.2.1 ∧ call.2.2 = .ok ()
  stamp_lt : ∀ window, s.window = some window → window.stamp < s.nextStamp
  first_le : ∀ window, s.window = some window → window.value.first ≤ s.tail + 1
  first_le_last : ∀ window, s.window = some window → window.value.first ≤ window.value.last
  delivered_le : ∀ window, s.window = some window → window.value.delivered ≤ s.watermark
  tail_le_watermark : s.window = none → s.tail ≤ s.watermark
  watermark_le_tail : s.watermark ≤ s.tail
  tail_le_last : ¬ s.isReopened → ∀ window, s.window = some window → s.tail ≤ window.value.last
  indexed : s.isIndexed → ∃ commit, s.commits.head? = some commit ∧ commit.1 ∈ s.indexings

/-- What is true of a stream and of the same stream later. A range announced right behind the log
stays announced until the log grows, and the log does not grow under a window that starts inside it
without that window becoming another. -/
structure Later (s t : Stream E) : Prop where
  log : ∀ seen, s.log = some seen → t.log = some seen ∨
    ∃ new, t.log = some new ∧ seen.stamp < new.stamp ∧ seen.value.tail < new.value.tail
  nextStamp_le : s.nextStamp ≤ t.nextStamp
  window : ∀ window, t.window = some window → s.window = some window ∨ s.nextStamp ≤ window.stamp
  announced : t.tail = s.tail → ∀ window, s.window = some window →
    window.value.first = s.tail + 1 → ∃ later, t.window = some later ∧
      later.value.first = s.tail + 1 ∧ window.value.last ≤ later.value.last
  settled : ∀ window, s.window = some window → t.window = some window →
    window.value.first ≤ s.tail → t.tail = s.tail
  reopened : s.isReopened → t.isReopened
  first_le : ¬ t.isReopened → ∀ later, t.window = some later →
    (∃ window, s.window = some window ∧ window.value.first ≤ later.value.first) ∨
      s.tail < later.value.first
  overtaken : ¬ t.isReopened → s.tail < t.tail → ∀ later, t.window = some later →
    s.tail < later.value.first

theorem tail_of_log {s : Stream E} {log : Snapshot (EventLog E)} (h : s.log = some log) :
    s.tail = log.value.tail := by
  simp [tail, h]

theorem events_of_log {s : Stream E} {log : Snapshot (EventLog E)} (h : s.log = some log) :
    s.events = log.value.events := by
  simp [events, h]

theorem Valid.tail_eq_length {key : AggregateKey} {s : Stream E} (hvalid : s.Valid key) :
    s.tail = s.events.length := by
  cases hlog : s.log with
  | none => simp [tail, events, hlog]
  | some log =>
    have hpositions := hvalid.positions
    rw [events_of_log hlog] at hpositions ⊢
    rw [tail_of_log hlog]
    exact EventLog.tail_eq_length hpositions

theorem Valid.sequenceId_le_tail {key : AggregateKey} {s : Stream E} (hvalid : s.Valid key)
    {event : RecordedEvent E} (hevent : event ∈ s.events) : event.sequenceId ≤ s.tail := by
  have hmem : event.sequenceId ∈ s.events.map (·.sequenceId) := List.mem_map_of_mem hevent
  rw [hvalid.positions, List.mem_range'_1] at hmem
  rw [hvalid.tail_eq_length]
  lia

/-- Batches without events come from no batches, because none of them is empty. -/
theorem commits_eq_nil_of_batch_ne_nil {commits : List (Nat × List (RecordedEvent E))}
    (hne : ∀ commit ∈ commits, commit.2 ≠ []) (hlength : (commits.flatMap (·.2)).length = 0) :
    commits = [] := by
  have hnil := List.flatMap_eq_nil_iff.1 (List.eq_nil_of_length_eq_zero hlength)
  exact List.eq_nil_iff_forall_not_mem.2 fun commit hcommit =>
    hne commit hcommit (hnil commit hcommit)

theorem Valid.commits_eq_nil {key : AggregateKey} {s : Stream E} (hvalid : s.Valid key)
    (htail : s.tail = 0) : s.commits = [] := by
  refine commits_eq_nil_of_batch_ne_nil hvalid.batch_ne_nil ?_
  rw [← hvalid.events_eq, ← hvalid.tail_eq_length, htail]

theorem Later.tail_le {s t : Stream E} (hlater : Later s t) : s.tail ≤ t.tail := by
  cases hlog : s.log with
  | none => simp [tail, hlog]
  | some seen =>
    rcases hlater.log seen hlog with h | ⟨new, h, _, hlt⟩
    · exact Nat.le_of_eq ((tail_of_log hlog).trans (tail_of_log h).symm)
    · rw [tail_of_log hlog, tail_of_log h]
      exact Nat.le_of_lt hlt

/-- A log that is no longer than it was is still the same snapshot. -/
theorem Later.log_of_tail_eq {s t : Stream E} (hlater : Later s t) {seen : Snapshot (EventLog E)}
    (hlog : s.log = some seen) (htail : t.tail = s.tail) : t.log = some seen := by
  rcases hlater.log seen hlog with h | ⟨new, h, _, hlt⟩
  · exact h
  · rw [tail_of_log hlog, tail_of_log h] at htail
    lia

/-- A step that leaves log and window as they are respects all that others rely on. -/
theorem Later.of_same {s t : Stream E} (hlog : t.log = s.log) (hwindow : t.window = s.window)
    (hstamp : s.nextStamp ≤ t.nextStamp) (hreopened : s.isReopened → t.isReopened) :
    Later s t where
  log := fun seen h => .inl (hlog.trans h)
  nextStamp_le := hstamp
  window := fun window h => .inl (hwindow.symm.trans h)
  announced := fun _ window h hfirst => ⟨window, hwindow.trans h, hfirst, Nat.le_refl _⟩
  settled := fun _ _ _ _ => by simp only [tail, hlog]
  reopened := hreopened
  first_le := fun _ later h => .inl ⟨later, hwindow.symm.trans h, Nat.le_refl _⟩
  overtaken := fun _ htail => by simp only [tail, hlog, Nat.lt_irrefl] at htail

theorem Later.refl (s : Stream E) : Later s s :=
  .of_same rfl rfl (Nat.le_refl _) id

/-- A window with the same stamp has never been another, and nothing is committed under one that
starts inside the log. -/
theorem Later.unchanged {key : AggregateKey} {s t : Stream E} (hlater : Later s t)
    (hvalid : s.Valid key) {current window : Snapshot Window} (hcurrent : s.window = some current)
    (hfirst : current.value.first ≤ s.tail) (hwindow : t.window = some window)
    (hstamp : window.stamp = current.stamp) : window = current ∧ t.tail = s.tail := by
  rcases hlater.window window hwindow with h | h
  · obtain rfl : current = window := Option.some.inj (hcurrent.symm.trans h)
    exact ⟨rfl, hlater.settled current hcurrent hwindow hfirst⟩
  · have hlt := hvalid.stamp_lt current hcurrent
    omega

theorem Later.trans {key : AggregateKey} {s t u : Stream E} (hvalid : s.Valid key)
    (hfirst : Later s t) (hsecond : Later t u) : Later s u := by
  have htail := hfirst.tail_le
  have htail' := hsecond.tail_le
  refine ⟨?_, Nat.le_trans hfirst.nextStamp_le hsecond.nextStamp_le, ?_, ?_, ?_,
    fun h => hsecond.reopened (hfirst.reopened h), ?_, ?_⟩
  · intro seen hlog
    rcases hfirst.log seen hlog with h | ⟨mid, h, hstamp, hlt⟩
    · exact hsecond.log seen h
    · rcases hsecond.log mid h with h' | ⟨new, h', hstamp', hlt'⟩
      · exact .inr ⟨mid, h', hstamp, hlt⟩
      · exact .inr ⟨new, h', Nat.lt_trans hstamp hstamp', Nat.lt_trans hlt hlt'⟩
  · intro window hwindow
    rcases hsecond.window window hwindow with h | h
    · exact hfirst.window window h
    · exact .inr (Nat.le_trans hfirst.nextStamp_le h)
  · intro heq window hwindow hannounced
    have hmid : t.tail = s.tail := by lia
    obtain ⟨mid, hmidWindow, hmidFirst, hle⟩ := hfirst.announced hmid window hwindow hannounced
    obtain ⟨later, hlaterWindow, hlaterFirst, hle'⟩ := hsecond.announced (by lia) mid hmidWindow
      (by lia)
    exact ⟨later, hlaterWindow, by lia, Nat.le_trans hle hle'⟩
  · intro window hs hu hwindowFirst
    -- The window cannot have been another in between: its stamp would not have come back.
    have ht : t.window = some window := by
      rcases hsecond.window window hu with h | h
      · exact h
      · have hlt := hvalid.stamp_lt window hs
        have hle := hfirst.nextStamp_le
        lia
    have heq := hfirst.settled window hs ht hwindowFirst
    rw [hsecond.settled window ht hu (by lia), heq]
  · intro hreopened later hlater
    have hreopened' : ¬ t.isReopened := fun h => hreopened (hsecond.reopened h)
    rcases hsecond.first_le hreopened later hlater with ⟨mid, hmid, hle⟩ | hlt
    · rcases hfirst.first_le hreopened' mid hmid with ⟨window, hwindow, hle'⟩ | hlt
      · exact .inl ⟨window, hwindow, Nat.le_trans hle' hle⟩
      · exact .inr (Nat.lt_of_lt_of_le hlt hle)
    · exact .inr (Nat.lt_of_le_of_lt htail hlt)
  · intro hreopened hgrown later hlater
    have hreopened' : ¬ t.isReopened := fun h => hreopened (hsecond.reopened h)
    by_cases hgrownLate : t.tail < u.tail
    · exact Nat.lt_of_le_of_lt htail (hsecond.overtaken hreopened hgrownLate later hlater)
    · rcases hsecond.first_le hreopened later hlater with ⟨mid, hmid, hle⟩ | hlt
      · exact Nat.lt_of_lt_of_le (hfirst.overtaken hreopened' (by lia) mid hmid) hle
      · exact Nat.lt_of_le_of_lt htail hlt

end Stream

end EventSourcing.Repository
