import EventSourcing.Proofs.Repository.Alone
import EventSourcing.Proofs.Repository.Ledger

namespace EventSourcing.Repository

variable {E : Type}

namespace Account

variable {account : Account E} {key : AggregateKey}

/-- What is true of every account: events are numbered from one on, and no more of them can be
delivered than there are. -/
structure IsSound (account : Account E) (key : AggregateKey) : Prop where
  positions : account.events.map (·.sequenceId) = List.range' 1 account.events.length
  belongs : ∀ event ∈ account.events, event.key = key
  watermark_le : account.watermark ≤ account.tail

/-- The first fault of a batch is one of its own, or it starts at the wrong place. -/
theorem fault_eq (account : Account E) (key : AggregateKey) (first : RecordedEvent E)
    (rest : List (RecordedEvent E)) :
    account.fault key first rest = (batchFault? key first rest).getD
      (if account.tail + 1 < first.sequenceId then .gap (account.tail + 1) first.sequenceId
        else .optimisticConcurrency key) := by
  have hpositions : (!contiguous (first :: rest)) = true ↔
      (first :: rest).map (·.sequenceId) ≠
        List.range' first.sequenceId (first :: rest).length := by
    rw [Bool.not_eq_true', ← Bool.not_eq_true, contiguous_iff]
    rfl
  have hforeign : (!(first :: rest).all (·.belongsTo key)) = true ↔
      ∃ event ∈ first :: rest, event.key ≠ key := by
    rw [Bool.not_eq_true', ← Bool.not_eq_true, List.all_eq_true]
    simp only [RecordedEvent.belongsTo, decide_eq_true_eq, Classical.not_forall, exists_prop]
  unfold fault batchFault?
  rw [if_congr hpositions rfl (if_congr hforeign rfl rfl)]
  by_cases hzero : first.sequenceId = 0
  · rw [if_pos hzero, if_pos hzero]
    rfl
  rw [if_neg hzero, if_neg hzero]
  split
  · rfl
  split
  · rfl
  · rfl

/-- A batch is accepted that has no fault of its own and starts right behind the events. -/
theorem accepts_iff {first : RecordedEvent E} {rest : List (RecordedEvent E)} :
    account.Accepts key (first :: rest) ↔
      IsBatch key (account.tail + 1) (first :: rest) := by
  constructor
  · rintro ⟨hpositions, hbelongs⟩
    exact ⟨List.cons_ne_nil _ _, Nat.le_add_left _ _, hpositions, hbelongs⟩
  · intro hbatch
    exact ⟨hbatch.positions, hbatch.belongs⟩

/-- A batch that continues the events of an account leaves it sound. -/
theorem IsSound.append (hsound : account.IsSound key) {batch : List (RecordedEvent E)}
    (haccepts : account.Accepts key batch) :
    IsSound ⟨account.events ++ batch, account.watermark⟩ key where
  positions := by
    rw [List.map_append, hsound.positions, haccepts.1, List.length_append, tail, Nat.add_comm _ 1,
      List.range'_append_1]
  belongs event hevent := by
    rcases List.mem_append.1 hevent with h | h
    · exact hsound.belongs event h
    · exact haccepts.2 event h
  watermark_le := by
    have hle := hsound.watermark_le
    simp only [tail, List.length_append] at hle ⊢
    lia

/-- A batch that continues the events is taken. -/
theorem appendAnswer_of_accepts {batch : List (RecordedEvent E)}
    (haccepts : account.Accepts key batch) : account.appendAnswer key batch = .ok () := by
  cases batch with
  | nil => rfl
  | cons first rest => exact if_pos haccepts

theorem append_nil (account : Account E) (key : AggregateKey) :
    account.append key [] = account := by
  unfold Account.append
  split <;> simp

/-- A position that is not behind the watermark changes nothing. -/
theorem mark_of_le {delivered : SequenceId} (hle : delivered ≤ account.watermark) :
    account.mark delivered = account := by
  unfold Account.mark
  rw [Nat.max_eq_left hle]
  exact ite_self account

theorem IsSound.mark (hsound : account.IsSound key) (delivered : SequenceId) :
    (account.mark delivered).IsSound key := by
  unfold Account.mark
  split
  · exact hsound
  · next hle =>
    exact { hsound with watermark_le := Nat.max_le.2 ⟨hsound.watermark_le, Nat.le_of_not_lt hle⟩ }

/-- The events behind a position are those that are left after as many. -/
theorem IsSound.filter_eq_drop (hsound : account.IsSound key) (after : SequenceId) :
    account.events.filter (fun event => after < event.sequenceId) = account.events.drop after :=
  EventLog.filter_eq_drop hsound.positions after

/-- The window of an account: there is one exactly as long as something is left to deliver. -/
def Opens (account : Account E) : Option Window → Prop
  | none => account.watermark = account.tail
  | some window => window.delivered = account.watermark ∧ window.last = account.tail ∧
      window.first ≤ window.last ∧ account.watermark < account.tail

/-- The window of an account does not reach past its events. -/
theorem Opens.within {window : Option Window} (hopens : account.Opens window)
    {current : Window} (hcurrent : window = some current) : current.first ≤ account.tail ∧
      current.last ≤ account.tail := by
  subst hcurrent
  obtain ⟨-, hlast, hfirst, -⟩ := hopens
  exact ⟨hlast ▸ hfirst, Nat.le_of_eq hlast⟩

/-- More events, and a window that is opened for them or reaches to their end. -/
theorem Opens.announce {window : Option Window} (hopens : account.Opens window)
    (hle : account.watermark ≤ account.tail) {batch : List (RecordedEvent E)} (hne : batch ≠ []) :
    Opens ⟨account.events ++ batch, account.watermark⟩ (some (Repository.announce window
      (account.tail + 1) (account.tail + 1 + (batch.length - 1)))) := by
  have hpos := List.length_pos_iff.2 hne
  have htail : Account.tail (⟨account.events ++ batch, account.watermark⟩ : Account E) =
      account.tail + batch.length := List.length_append
  unfold Opens
  rw [htail]
  cases window with
  | none =>
    have hmark : account.watermark = account.tail := hopens
    refine ⟨?_, ?_, ?_, ?_⟩
    all_goals simp only [Repository.announce, Option.elim_none, Window.opened]
    all_goals lia
  | some current =>
    obtain ⟨hdelivered, -⟩ := hopens
    refine ⟨?_, ?_, ?_, ?_⟩
    all_goals simp only [Repository.announce, Option.elim_some, Window.widened]
    all_goals lia

/-- What is left of a window when more of its events are delivered. -/
theorem Opens.remnant {current : Window} (hopens : account.Opens (some current))
    {delivered : SequenceId} (hle : delivered ≤ account.tail) :
    (account.mark delivered).Opens
      (remnant current ((current.clamped account.tail).acknowledged delivered)) := by
  obtain ⟨hdelivered, hlast, hfirst, hlt⟩ := hopens
  have hclamped : current.clamped account.tail = current := by
    rw [Window.clamped, if_neg]
    rw [Window.isSpeculative_iff]
    lia
  have hmark : account.mark delivered = ⟨account.events, max account.watermark delivered⟩ :=
    if_neg (Nat.not_lt_of_le hle)
  rw [hclamped, hmark]
  unfold Repository.remnant
  split
  · next hsame =>
    -- The position is not behind the watermark.
    have hmax : max current.delivered delivered = current.delivered :=
      congrArg Window.delivered hsame
    rw [← hdelivered, hmax]
    exact ⟨rfl, hlast, hfirst, hdelivered ▸ hlt⟩
  split
  · next hend =>
    rw [← hdelivered]
    exact Eq.trans hend hlast
  · next hend =>
    have hne : ¬ max current.delivered delivered = current.last := hend
    exact ⟨hdelivered ▸ rfl, hlast, hfirst, by simp only [tail] at *; lia⟩

end Account

theorem Ledger.apply_append_nil (ledger : Ledger E) (key : AggregateKey) :
    ledger.apply (.append key []) = ledger := by
  rw [apply, Account.append_nil, Function.update_eq_self]

/-- A repository of which no operation is under way stands for a ledger. -/
structure Mirrors (view : View E) (ledger : Ledger E) : Prop where
  events : ∀ key, view.events key = (ledger key).events
  sound : ∀ key, (ledger key).IsSound key
  opens : ∀ key, (ledger key).Opens (view.window key)
  enumerates : ∀ type, ledger.Enumerates type (view.ids type)

theorem Mirrors.empty : Mirrors (view (.empty : Repository E)) .empty where
  events _ := rfl
  sound _ := ⟨rfl, fun _ h => absurd h List.not_mem_nil, Nat.le_refl _⟩
  opens _ := rfl
  enumerates _ := ⟨List.Pairwise.nil, fun _ => by simp [view, Repository.empty, Ledger.empty]⟩

section Steps

variable {config : RepositoryConfig} {repository : Repository E} {ledger : Ledger E}
  {key : AggregateKey}

theorem Mirrors.positions (hmirrors : Mirrors repository.view ledger) (key : AggregateKey) :
    (repository.view.events key).map (·.sequenceId) =
      List.range' 1 (repository.view.events key).length := by
  rw [hmirrors.events]
  exact (hmirrors.sound key).positions

/-- The ids stay as they are if the account had events before. -/
private theorem enumerates_of_old {type : AggregateType} {ids : List AggregateId}
    (hids : ledger.Enumerates type ids) {account : Account E} (hne : account.events ≠ [])
    (hold : ∀ id, (⟨type, id⟩ : AggregateKey) = key → (ledger key).events ≠ []) :
    Ledger.Enumerates (Function.update ledger key account) type ids := by
  refine ⟨hids.ascending, fun id => ?_⟩
  rw [hids.mem_iff]
  by_cases hkey : (⟨type, id⟩ : AggregateKey) = key
  · have h := hold id hkey
    rw [hkey, Function.update_self]
    exact iff_of_true h hne
  · rw [Function.update_of_ne hkey]

/-- The id of an account that gets its first events comes to the others. -/
private theorem enumerates_insertSorted {ids : List AggregateId}
    (hids : ledger.Enumerates key.type ids) {account : Account E} (hne : account.events ≠ []) :
    Ledger.Enumerates (Function.update ledger key account) key.type
      (IdIndex.insertSorted key.id ids) := by
  refine ⟨IdIndex.pairwise_insertSorted key.id hids.ascending, fun id => ?_⟩
  by_cases hid : id = key.id
  · subst hid
    rw [Function.update_self]
    exact iff_of_true (IdIndex.mem_insertSorted_self _ _) hne
  · have hkey : (⟨key.type, id⟩ : AggregateKey) ≠ key := fun h => hid (congrArg (·.id) h)
    rw [Function.update_of_ne hkey, IdIndex.mem_insertSorted_of_ne hid, hids.mem_iff]

/-- A batch that is accepted comes to the events of the account. -/
theorem Mirrors.appended (hmirrors : Mirrors repository.view ledger)
    {batch : List (RecordedEvent E)} (hne : batch ≠ [])
    (haccepts : (ledger key).Accepts key batch) :
    Mirrors (repository.view.appended key ((ledger key).tail + 1)
        ((ledger key).tail + 1 + (batch.length - 1)) batch)
      (Function.update ledger key ⟨(ledger key).events ++ batch, (ledger key).watermark⟩) where
  events other := by
    unfold View.appended
    dsimp only
    by_cases hother : other = key
    · rw [hother, Function.update_self, Function.update_self, hmirrors.events]
    · rw [Function.update_of_ne hother, Function.update_of_ne hother, hmirrors.events]
  sound := (Function.forall_update_iff ledger fun key account => account.IsSound key).2
    ⟨(hmirrors.sound key).append haccepts, fun other _ => hmirrors.sound other⟩
  opens other := by
    unfold View.appended
    dsimp only
    by_cases hother : other = key
    · rw [hother, Function.update_self, Function.update_self]
      exact (hmirrors.opens key).announce (hmirrors.sound key).watermark_le hne
    · rw [Function.update_of_ne hother, Function.update_of_ne hother]
      exact hmirrors.opens other
  enumerates type := by
    have hids := hmirrors.enumerates type
    have hfilled : (ledger key).events ++ batch ≠ [] := by simp [hne]
    unfold View.appended
    dsimp only
    rw [hmirrors.events]
    split
    · next hempty =>
      by_cases htype : type = key.type
      · subst htype
        rw [Function.update_self]
        exact enumerates_insertSorted hids hfilled
      · rw [Function.update_of_ne htype]
        exact enumerates_of_old hids hfilled fun id h => absurd (congrArg (·.type) h) htype
    · next hold => exact enumerates_of_old hids hfilled fun _ _ => hold

/-- Recording a delivery neither adds an event nor takes one away. -/
theorem Ledger.events_apply_markDelivered (ledger : Ledger E) (key : AggregateKey)
    (delivered : SequenceId) (other : AggregateKey) :
    (ledger.apply (.markDelivered key delivered) other).events = (ledger other).events := by
  refine (Function.forall_update_iff ledger
    fun other account => account.events = (ledger other).events).2 ⟨?_, fun _ _ => rfl⟩ other
  unfold Account.mark
  split <;> rfl

/-- What is marked as delivered is not pending any more. -/
theorem Mirrors.marked (hmirrors : Mirrors repository.view ledger) (delivered : SequenceId)
    {window : Option Window} (hopens : ((ledger key).mark delivered).Opens window) :
    Mirrors (repository.view.withWindow key window)
      (Function.update ledger key ((ledger key).mark delivered)) := by
  have hevents := ledger.events_apply_markDelivered key delivered
  refine ⟨fun other => ?_, ?_, fun other => ?_, fun type => ?_⟩
  · rw [View.events_withWindow, hmirrors.events]
    exact (hevents other).symm
  · exact (Function.forall_update_iff ledger fun key account => account.IsSound key).2
      ⟨(hmirrors.sound key).mark delivered, fun other _ => hmirrors.sound other⟩
  · by_cases hother : other = key
    · rw [hother, Function.update_self, View.withWindow_self]
      exact hopens
    · rw [Function.update_of_ne hother, View.withWindow_of_ne _ hother]
      exact hmirrors.opens other
  · have hids := hmirrors.enumerates type
    refine ⟨hids.ascending, fun id => ?_⟩
    rw [View.ids_withWindow, hids.mem_iff, ← hevents]
    rfl

end Steps

end EventSourcing.Repository
