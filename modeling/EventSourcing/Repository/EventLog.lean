import EventSourcing.Event

namespace EventSourcing

/-- The committed events of one aggregate, oldest first. -/
structure EventLog (E : Type) where
  events : List (RecordedEvent E)

namespace EventLog

variable {E : Type}

protected def empty : EventLog E :=
  ⟨[]⟩

/-- The position of the last event, zero if there is none. -/
def tail (log : EventLog E) : SequenceId :=
  (log.events.getLast?.map (·.sequenceId)).getD 0

def append (log : EventLog E) (batch : List (RecordedEvent E)) : EventLog E :=
  ⟨log.events ++ batch⟩

/-- The events behind a position, at most `max` of them. -/
def slice (log : EventLog E) (after : SequenceId) (max : Option Nat) : List (RecordedEvent E) :=
  let later := log.events.dropWhile fun event => event.sequenceId ≤ after
  match max with
  | some max => later.take max
  | none => later

@[simp]
theorem tail_empty : (EventLog.empty : EventLog E).tail = 0 :=
  rfl

@[simp]
theorem events_append (log : EventLog E) (batch : List (RecordedEvent E)) :
    (log.append batch).events = log.events ++ batch :=
  rfl

theorem tail_append (log : EventLog E) (batch : List (RecordedEvent E)) :
    (log.append batch).tail = (batch.getLast?.map (·.sequenceId)).getD log.tail := by
  simp only [tail, append, List.getLast?_append]
  cases batch.getLast? <;> rfl

/-- If the positions are 1, 2, 3, … then the tail is the number of events. -/
theorem tail_eq_length {log : EventLog E}
    (h : log.events.map (·.sequenceId) = List.range' 1 log.events.length) :
    log.tail = log.events.length := by
  have hlast : log.events.getLast?.map (·.sequenceId) =
      (List.range' 1 log.events.length).getLast? := by
    rw [← h, List.getLast?_map]
  rw [tail, hlast, List.getLast?_range']
  split
  · next hempty => simp [hempty]
  · simp

/-- Whatever stands behind a position is in the slice from there on. -/
theorem mem_slice {log : EventLog E} {event : RecordedEvent E} {after : SequenceId}
    (hmem : event ∈ log.events) (hafter : after < event.sequenceId) :
    event ∈ log.slice after none := by
  rw [← List.takeWhile_append_dropWhile (p := fun event => event.sequenceId ≤ after)
    (l := log.events)] at hmem
  rcases List.mem_append.1 hmem with h | h
  · have hle := List.all_eq_true.1 List.all_takeWhile event h
    simp only [decide_eq_true_eq] at hle
    lia
  · exact h

theorem slice_eq_nil {log : EventLog E} {after : SequenceId}
    (h : ∀ event ∈ log.events, event.sequenceId ≤ after) : log.slice after none = [] := by
  change log.events.dropWhile (fun event => decide (event.sequenceId ≤ after)) = []
  rw [← List.append_nil log.events,
    List.dropWhile_append_of_pos fun event hevent => decide_eq_true (h event hevent)]
  rfl

private theorem dropWhile_eq_drop {events : List (RecordedEvent E)} {start : SequenceId}
    (h : events.map (·.sequenceId) = List.range' (start + 1) events.length) (count : Nat) :
    events.dropWhile (fun event => event.sequenceId ≤ start + count) = events.drop count := by
  induction events generalizing start count with
  | nil => simp
  | cons event rest ih =>
    rw [List.map_cons, List.length_cons, List.range'_succ] at h
    obtain ⟨hfirst, hrest⟩ := List.cons.inj h
    cases count with
    | zero => simp [hfirst]
    | succ count =>
      have hle : event.sequenceId ≤ start + (count + 1) := by lia
      have hnext := ih hrest count
      rw [Nat.add_right_comm] at hnext
      rw [List.dropWhile_cons_of_pos (by simpa using hle), List.drop_succ_cons]
      exact hnext

/-- If the positions are 1, 2, 3, … then a slice leaves out as many events as its position says. -/
theorem slice_eq_drop {log : EventLog E}
    (h : log.events.map (·.sequenceId) = List.range' 1 log.events.length) (after : SequenceId) :
    log.slice after none = log.events.drop after := by
  have hdrop := dropWhile_eq_drop h after
  rwa [Nat.zero_add] at hdrop

/-- If the positions are 1, 2, 3, … then they tell where the events stand. -/
theorem sequenceId_getElem {events : List (RecordedEvent E)}
    (h : events.map (·.sequenceId) = List.range' 1 events.length) {i : Nat}
    (hi : i < events.length) : events[i].sequenceId = i + 1 := by
  have hat := congrArg (·[i]?) h
  simp [hi] at hat
  lia

/-- If the positions are 1, 2, 3, … then the events behind a position are those that are left after
as many. -/
theorem filter_eq_drop {events : List (RecordedEvent E)}
    (h : events.map (·.sequenceId) = List.range' 1 events.length) (after : SequenceId) :
    events.filter (fun event => after < event.sequenceId) = events.drop after := by
  have hbefore : (events.take after).filter (fun event => after < event.sequenceId) = [] := by
    refine List.filter_eq_nil_iff.2 fun event hevent => ?_
    obtain ⟨i, hi, rfl⟩ := List.mem_take_iff_getElem.1 hevent
    have hle : i + 1 ≤ after := Nat.succ_le_of_lt (Nat.lt_min.1 hi).1
    rw [sequenceId_getElem h (Nat.lt_min.1 hi).2]
    exact fun hlt => Nat.not_lt_of_le hle (of_decide_eq_true hlt)
  have hbehind : (events.drop after).filter (fun event => after < event.sequenceId) =
      events.drop after := by
    refine List.filter_eq_self.2 fun event hevent => ?_
    obtain ⟨i, hi, rfl⟩ := List.mem_drop_iff_getElem.1 hevent
    rw [sequenceId_getElem h]
    exact decide_eq_true (Nat.lt_succ_of_le (Nat.le_add_right after i))
  have hsplit := List.filter_append (p := fun event => after < event.sequenceId)
    (events.take after) (events.drop after)
  rwa [List.take_append_drop, hbefore, hbehind, List.nil_append] at hsplit

theorem slice_eq_filter {log : EventLog E}
    (h : log.events.map (·.sequenceId) = List.range' 1 log.events.length) (after : SequenceId) :
    log.slice after none = log.events.filter fun event => after < event.sequenceId := by
  rw [slice_eq_drop h, filter_eq_drop h]

theorem length_slice_le (log : EventLog E) (after : SequenceId) (max : Nat) :
    (log.slice after (some max)).length ≤ max :=
  List.length_take_le _ _

end EventLog

end EventSourcing
