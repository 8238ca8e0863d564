import EventSourcing.Proofs.Repository.Batch
import EventSourcing.Repository.MarkDelivered
import Mathlib.Logic.Function.Basic

namespace EventSourcing.Repository

variable {E α : Type}

/-- What a repository holds of each aggregate and each type. -/
@[ext]
structure View (E : Type) where
  events : AggregateKey → List (RecordedEvent E)
  window : AggregateKey → Option Window
  ids : AggregateType → List AggregateId

/-- The view with another window of one aggregate. -/
def View.withWindow (view : View E) (key : AggregateKey) (window : Option Window) : View E :=
  ⟨view.events, Function.update view.window key window, view.ids⟩

@[simp]
theorem View.events_withWindow (view : View E) (key : AggregateKey) (window : Option Window) :
    (view.withWindow key window).events = view.events :=
  rfl

@[simp]
theorem View.ids_withWindow (view : View E) (key : AggregateKey) (window : Option Window) :
    (view.withWindow key window).ids = view.ids :=
  rfl

@[simp]
theorem View.withWindow_self (view : View E) (key : AggregateKey) (window : Option Window) :
    (view.withWindow key window).window key = window :=
  Function.update_self ..

@[simp]
theorem View.withWindow_of_ne (view : View E) {key other : AggregateKey} (h : other ≠ key)
    (window : Option Window) : (view.withWindow key window).window other = view.window other :=
  Function.update_of_ne h ..

def view (repository : Repository E) : View E where
  events key := ((repository.logs.get? key).map (·.value.events)).getD []
  window key := (repository.windows.get? key).map (·.value)
  ids type := ((repository.indexes.get? type).map (·.value.ids)).getD []

section Requests

variable {state : Repository E} {key : AggregateKey} {type : AggregateType}

theorem exists_of_window {window : Window} (h : state.view.window key = some window) :
    ∃ current, state.windows.get? key = some current ∧ current.value = window :=
  Option.map_eq_some_iff.1 h

theorem get?_window_eq_none (h : state.view.window key = none) :
    state.windows.get? key = none :=
  Option.map_eq_none_iff.1 h

/-- A fallback that comes in counts as much as nothing. -/
private theorem getD_getOrInsert {K V β : Type} [DecidableEq K] (map : SnapshotMap K V) (key : K)
    (fallback : V) (f : V → β) (other : K) :
    (((map.getOrInsert key fallback).2.get? other).map (f ·.value)).getD (f fallback) =
      ((map.get? other).map (f ·.value)).getD (f fallback) := by
  by_cases hother : other = key
  · subst hother
    cases hget : map.get? other with
    | some current => rw [SnapshotMap.getOrInsert_of_get? hget, hget]
    | none =>
      rw [map.get?_getOrInsert_self, (SnapshotMap.getOrInsert_of_absent hget fallback).1]
      rfl
  · rw [map.get?_getOrInsert_of_ne fallback hother]

/-- A log comes into being without events. -/
theorem answer_findLog (state : Repository E) (key : AggregateKey) : ∃ seen inserted after,
    state.answer (.logs (.getOrInsert key .empty)) = ((seen, inserted), after) ∧
      after.logs.get? key = some seen ∧ after.view = state.view := by
  refine ⟨_, _, _, rfl, state.logs.get?_getOrInsert_self key .empty, ?_⟩
  ext1
  · funext other
    exact getD_getOrInsert state.logs key .empty EventLog.events other
  · rfl
  · rfl

/-- An index comes into being without ids. -/
theorem answer_findIndex (state : Repository E) (type : AggregateType) : ∃ seen inserted after,
    state.answer (.indexes (.getOrInsert type .empty)) = ((seen, inserted), after) ∧
      after.indexes.get? type = some seen ∧ after.view = state.view := by
  refine ⟨_, _, _, rfl, state.indexes.get?_getOrInsert_self type .empty, ?_⟩
  ext1
  · rfl
  · rfl
  · funext other
    exact getD_getOrInsert state.indexes type .empty IdIndex.ids other

theorem view_swapLog {seen : Snapshot (EventLog E)}
    (hcurrent : state.logs.isCurrent key seen = true) (new : EventLog E) :
    view { state with logs := (state.logs.compareAndSwap key seen new).2 } =
      ⟨Function.update state.view.events key new.events, state.view.window, state.view.ids⟩ := by
  refine View.ext (Function.eq_update_iff.2 ⟨?_, fun other hother => ?_⟩) rfl rfl
  all_goals simp [view, SnapshotMap.get?_compareAndSwap hcurrent]
  simp [hother]

theorem view_openWindow (habsent : state.windows.get? key = none) (window : Window) :
    view { state with windows := (state.windows.getOrInsert key window).2 } =
      state.view.withWindow key (some window) := by
  refine View.ext rfl (Function.eq_update_iff.2 ⟨?_, fun other hother => ?_⟩) rfl
  · simp [view, state.windows.get?_getOrInsert_self,
      (SnapshotMap.getOrInsert_of_absent habsent window).1]
  · simp [view, SnapshotMap.get?_getOrInsert_of_ne _ _ hother]

theorem view_swapWindow {current : Snapshot Window}
    (hcurrent : state.windows.isCurrent key current = true) (new : Window) :
    view { state with windows := (state.windows.compareAndSwap key current new).2 } =
      state.view.withWindow key (some new) := by
  refine View.ext rfl (Function.eq_update_iff.2 ⟨?_, fun other hother => ?_⟩) rfl
  all_goals simp [view, SnapshotMap.get?_compareAndSwap hcurrent]
  simp [hother]

theorem view_removeWindow {current : Snapshot Window}
    (hcurrent : state.windows.isCurrent key current = true) :
    view { state with windows := (state.windows.compareAndRemove key current).2 } =
      state.view.withWindow key none := by
  refine View.ext rfl (Function.eq_update_iff.2 ⟨?_, fun other hother => ?_⟩) rfl
  all_goals simp [view, SnapshotMap.get?_compareAndRemove hcurrent]
  simp [hother]

theorem view_swapIndex {current : Snapshot IdIndex}
    (hcurrent : state.indexes.isCurrent type current = true) (new : IdIndex) :
    view { state with indexes := (state.indexes.compareAndSwap type current new).2 } =
      ⟨state.view.events, state.view.window,
        Function.update state.view.ids type new.ids⟩ := by
  refine View.ext rfl rfl (Function.eq_update_iff.2 ⟨?_, fun other hother => ?_⟩)
  all_goals simp [view, SnapshotMap.get?_compareAndSwap hcurrent]
  simp [hother]

end Requests

section Appending

variable (config : RepositoryConfig) {state : Repository E} {key : AggregateKey}
  {tail first last : SequenceId} (batch : List (RecordedEvent E))

/-- The window of an aggregate after a batch has been announced. -/
def announce (window : Option Window) (first last : SequenceId) : Window :=
  window.elim (.opened first last) (·.widened first last)

/-- A range behind the log and behind the window is announced at once. -/
theorem runAlone_markUndelivered (hfirst : tail < first) (hlast : first ≤ last)
    (hwindow : ∀ window, state.view.window key = some window →
      window.first ≤ first ∧ window.last ≤ last) :
    ∃ after, runAlone (markUndelivered config key tail first last) state = (.ok (), after) ∧
      after.logs = state.logs ∧ after.view =
        state.view.withWindow key (some (announce (state.view.window key) first last)) := by
  obtain ⟨passes, hpasses⟩ := config.liveLockLimit.exists_value_eq_succ
  have hrange : ¬ (last < first || first ≤ tail) = true := by
    simp only [Bool.or_eq_true, decide_eq_true_eq]
    lia
  rw [markUndelivered, if_neg hrange, hpasses, widenWindow, runAlone_reached, runAlone_step]
  cases hget : state.windows.get? key with
  | none =>
    have hnone : state.view.window key = none := by simp [view, hget]
    rw [answer_openWindow hget]
    exact ⟨_, rfl, rfl, hnone ▸ view_openWindow hget _⟩
  | some current =>
    have hsome : state.view.window key = some current.value := by simp [view, hget]
    obtain ⟨hle, hlast⟩ := hwindow _ hsome
    have hcurrent := SnapshotMap.isCurrent_iff.2 ⟨current, hget, rfl⟩
    rw [answer_meetWindow hget]
    dsimp only
    rw [if_neg Bool.false_ne_true, if_neg (by simp; lia), if_neg (by lia), runAlone_step,
      answer_swapWindow hcurrent]
    exact ⟨_, rfl, rfl, hsome ▸ view_swapWindow hcurrent _⟩

/-- A new id is put into the index of its type at once. -/
theorem runAlone_addToIndex (hnew : key.id ∉ state.view.ids key.type) (passes : Nat) :
    ∃ after, runAlone (addToIndex key (passes + 1)) state = (.ok (), after) ∧
      after.view = ⟨state.view.events, state.view.window,
        Function.update state.view.ids key.type
          (IdIndex.insertSorted key.id (state.view.ids key.type))⟩ := by
  obtain ⟨current, inserted, found, hanswer, hget, hview⟩ := answer_findIndex state key.type
  have hids : state.view.ids key.type = current.value.ids := by
    rw [← hview]
    simp [view, hget]
  have hcurrent := SnapshotMap.isCurrent_iff.2 ⟨current, hget, rfl⟩
  rw [addToIndex, runAlone_step, hanswer]
  dsimp only
  rw [if_neg (hids ▸ hnew), runAlone_step, answer_swapIndex hcurrent]
  refine ⟨_, rfl, ?_⟩
  rw [view_swapIndex hcurrent, hview, hids]
  rfl

/-- A batch right behind the log becomes the end of it. -/
theorem runAlone_commit {seen : Snapshot (EventLog E)} (hseen : state.logs.get? key = some seen)
    (hfirst : first = seen.value.tail + 1) (hlast : first ≤ last)
    (hwindow : ∀ window, state.view.window key = some window →
      window.first ≤ first ∧ window.last ≤ last) :
    ∃ after, runAlone (commit config key seen first last batch) state = (.ok true, after) ∧
      after.view =
        ⟨Function.update state.view.events key (state.view.events key ++ batch),
          Function.update state.view.window key
            (some (announce (state.view.window key) first last)),
          state.view.ids⟩ := by
  obtain ⟨marked, hmarked, hlogs, hview⟩ := runAlone_markUndelivered config
    (by lia : seen.value.tail < first) hlast hwindow
  have hcurrent : marked.logs.isCurrent key seen = true :=
    SnapshotMap.isCurrent_iff.2 ⟨seen, hlogs ▸ hseen, rfl⟩
  rw [commit, if_neg (by lia), runAlone_bind, hmarked]
  dsimp only
  rw [runAlone_reached, runAlone_step, answer_swapLog hcurrent]
  have hevents : state.view.events key = seen.value.events := by simp [view, hseen]
  refine ⟨_, rfl, ?_⟩
  rw [view_swapLog hcurrent, hview, hevents]
  rfl

/-- What becomes of a repository that takes a batch. -/
def View.appended (view : View E) (key : AggregateKey) (first last : SequenceId)
    (batch : List (RecordedEvent E)) : View E :=
  ⟨Function.update view.events key (view.events key ++ batch),
    Function.update view.window key (some (announce (view.window key) first last)),
    if view.events key = [] then
      Function.update view.ids key.type (IdIndex.insertSorted key.id (view.ids key.type))
    else view.ids⟩

/-- What an append finds when it reads a log. -/
private theorem exists_seen
    (hpositions : (state.view.events key).map (·.sequenceId) =
      List.range' 1 (state.view.events key).length) :
    ∃ seen inserted found, state.answer (.logs (.getOrInsert key .empty)) =
        ((seen, inserted), found) ∧ found.logs.get? key = some seen ∧
      found.view = state.view ∧ seen.value.tail = (state.view.events key).length := by
  obtain ⟨seen, inserted, found, hanswer, hseen, hview⟩ := answer_findLog state key
  have hevents : state.view.events key = seen.value.events := by
    rw [← hview]
    simp [view, hseen]
  refine ⟨seen, inserted, found, hanswer, hseen, hview, ?_⟩
  rw [hevents] at hpositions ⊢
  exact EventLog.tail_eq_length hpositions

/-- A batch that starts elsewhere than right behind the log is refused. -/
theorem runAlone_appendChecked_of_ne
    (hpositions : (state.view.events key).map (·.sequenceId) =
      List.range' 1 (state.view.events key).length)
    (hfirst : first ≠ (state.view.events key).length + 1) :
    ∃ after, runAlone (appendChecked config key first last batch) state =
        (.error (if (state.view.events key).length + 1 < first then
            .gap ((state.view.events key).length + 1) first
          else .optimisticConcurrency key), after) ∧ after.view = state.view := by
  obtain ⟨seen, inserted, found, hanswer, -, hview, htail⟩ := exists_seen hpositions
  refine ⟨found, ?_, hview⟩
  rw [appendChecked, runAlone_step, hanswer]
  dsimp only
  rw [htail]
  split
  · rfl
  · next hgap =>
    rw [runAlone_reached, runAlone_bind, commit, if_pos (by lia)]
    rfl

/-- A batch that starts right behind the log is taken. -/
theorem runAlone_appendChecked
    (hpositions : (state.view.events key).map (·.sequenceId) =
      List.range' 1 (state.view.events key).length)
    (hfirst : first = (state.view.events key).length + 1) (hlast : first ≤ last)
    (hwindow : ∀ window, state.view.window key = some window →
      window.first ≤ first ∧ window.last ≤ last)
    (hnew : state.view.events key = [] → key.id ∉ state.view.ids key.type) :
    ∃ after, runAlone (appendChecked config key first last batch) state = (.ok (), after) ∧
      after.view = state.view.appended key first last batch := by
  obtain ⟨seen, inserted, found, hanswer, hseen, hview, htail⟩ := exists_seen hpositions
  obtain ⟨committed, hcommitted, hview'⟩ := runAlone_commit config batch
    hseen (htail ▸ hfirst) hlast (hview ▸ hwindow)
  rw [hview] at hview'
  rw [appendChecked, runAlone_step, hanswer]
  dsimp only
  rw [if_neg (by lia), runAlone_reached, runAlone_bind, hcommitted]
  dsimp only
  rw [conclude, if_pos rfl, runAlone_reached, htail]
  by_cases hempty : state.view.events key = []
  · obtain ⟨passes, hpasses⟩ := config.liveLockLimit.exists_value_eq_succ
    have habsent : key.id ∉ committed.view.ids key.type := by
      rw [hview']
      exact hnew hempty
    obtain ⟨after, hafter, hlast⟩ := runAlone_addToIndex habsent passes
    rw [if_pos (by simp [hempty]), hpasses]
    refine ⟨after, hafter, ?_⟩
    rw [hlast, hview', View.appended, if_pos hempty]
  · rw [if_neg (by simpa using hempty)]
    refine ⟨committed, rfl, ?_⟩
    rw [hview', View.appended, if_neg hempty]

end Appending

/-- What is left of a window when another one is to take its place. -/
def remnant (current updated : Window) : Option Window :=
  if updated = current then some current
  else if updated.delivered = updated.last then none
  else some updated

theorem eq_of_remnant {current updated window : Window}
    (h : remnant current updated = some window) : window = updated := by
  unfold remnant at h
  split at h
  · next hsame => exact (Option.some.inj h).symm.trans hsame.symm
  split at h
  · cases h
  · exact (Option.some.inj h).symm

section Delivering

variable {config : RepositoryConfig} {state : Repository E} {key : AggregateKey}
  {tail delivered : SequenceId} {current : Snapshot Window}

theorem runAlone_reportClamping (window : Window) :
    runAlone (reportClamping key window tail) state = ((), state) := by
  unfold reportClamping
  split <;> rfl

theorem runAlone_settleWindow {updated : Window}
    (hwindow : state.windows.get? key = some current) (hle : updated.delivered ≤ updated.last) :
    ∃ settled, runAlone (settleWindow key current updated) state = (.ok true, settled) ∧
      settled.logs = state.logs ∧
      settled.view = state.view.withWindow key (remnant current.value updated) := by
  have hcurrent : state.windows.isCurrent key current = true :=
    SnapshotMap.isCurrent_iff.2 ⟨current, hwindow, rfl⟩
  unfold settleWindow remnant
  split
  · refine ⟨state, rfl, rfl, ?_⟩
    have hsame : state.view.window key = some current.value := by simp [view, hwindow]
    rw [View.withWindow, ← hsame, Function.update_eq_self]
  split
  · refine ⟨{ state with windows := (state.windows.compareAndRemove key current).2 }, ?_, rfl,
      view_removeWindow hcurrent⟩
    rw [runAlone_step, answer_removeWindow hcurrent]
    rfl
  split
  · refine ⟨{ state with windows := (state.windows.compareAndSwap key current updated).2 }, ?_, rfl,
      view_swapWindow hcurrent updated⟩
    rw [runAlone_step, answer_swapWindow hcurrent]
    rfl
  · next hne hlt => exact absurd (Nat.lt_of_le_of_ne hle hne) hlt

theorem runAlone_advanceWatermark_none (habsent : state.windows.get? key = none) :
    runAlone (advanceWatermark key tail delivered) state = (.ok true, state) := by
  rw [advanceWatermark, runAlone_step, answer_getWindow, habsent]
  rfl

theorem runAlone_advanceWatermark_below (hwindow : state.windows.get? key = some current)
    (hlast : current.value.last < tail) :
    runAlone (advanceWatermark key tail delivered) state =
      (.error (.windowBelowTail key current.value.last tail), state) := by
  rw [advanceWatermark, runAlone_step, answer_getWindow, hwindow]
  dsimp only
  rw [if_pos hlast]
  rfl

/-- The watermark of a window that reaches to the end of the log moves. -/
theorem runAlone_advanceWatermark (hwindow : state.windows.get? key = some current)
    (hlast : tail ≤ current.value.last) (hdelivered : current.value.delivered ≤ tail)
    (hle : delivered ≤ tail) :
    ∃ settled, runAlone (advanceWatermark key tail delivered) state = (.ok true, settled) ∧
      settled.logs = state.logs ∧ settled.view = state.view.withWindow key
        (remnant current.value ((current.value.clamped tail).acknowledged delivered)) := by
  have hbound : ((current.value.clamped tail).acknowledged delivered).delivered ≤
      ((current.value.clamped tail).acknowledged delivered).last := by
    have htail := Window.tail_le_last_clamped hlast
    rw [Window.acknowledged_delivered, Window.acknowledged_last, Window.delivered_clamped]
    lia
  obtain ⟨settled, hrun, hsettled⟩ := runAlone_settleWindow hwindow hbound
  refine ⟨settled, ?_, hsettled⟩
  rw [advanceWatermark, runAlone_step, answer_getWindow, hwindow]
  dsimp only
  rw [if_neg (Nat.not_lt_of_le hlast), runAlone_bind, runAlone_reportClamping]
  exact hrun

/-- Alone, the first pass of a delivery is the last one. -/
theorem runAlone_markDelivered (hpos : 1 ≤ delivered)
    (htail : ((state.logs.get? key).map fun log => log.value.tail).getD 0 = tail)
    (hle : delivered ≤ tail) {result : Result Bool} {settled : Repository E}
    (hadvance : runAlone (advanceWatermark key tail delivered) state = (result, settled))
    (hresult : result ≠ .ok false) :
    runAlone (markDelivered config key delivered) state = (result.map fun _ => (), settled) := by
  obtain ⟨passes, hpasses⟩ := config.liveLockLimit.exists_value_eq_succ
  have hzero : ¬ delivered = 0 := Nat.one_le_iff_ne_zero.1 hpos
  rw [markDelivered, if_neg hzero, hpasses, recordDelivery, runAlone_reached, runAlone_step,
    answer_getLog]
  dsimp only
  rw [htail, if_neg (Nat.not_lt_of_le hle), runAlone_bind, hadvance]
  match result with
  | .error error => rfl
  | .ok true => rfl
  | .ok false => exact absurd rfl hresult

/-- Nothing is said to be delivered that was never appended. -/
theorem runAlone_markDelivered_beyond
    (htail : ((state.logs.get? key).map fun log => log.value.tail).getD 0 = tail)
    (hlt : tail < delivered) :
    runAlone (markDelivered config key delivered) state =
      (.error (.beyondTail delivered tail), state) := by
  obtain ⟨passes, hpasses⟩ := config.liveLockLimit.exists_value_eq_succ
  have hzero : ¬ delivered = 0 := Nat.ne_of_gt (Nat.zero_lt_of_lt hlt)
  rw [markDelivered, if_neg hzero, hpasses, recordDelivery, runAlone_reached, runAlone_step,
    answer_getLog]
  dsimp only
  rw [htail, if_pos hlt]
  rfl

end Delivering

end EventSourcing.Repository
