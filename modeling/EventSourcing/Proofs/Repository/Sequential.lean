import EventSourcing.Proofs.Repository.Mirror
import EventSourcing.Proofs.Repository.Reading

namespace EventSourcing.Repository

variable {E : Type}

theorem page_eq (index : IdIndex) (after : Option AggregateId) (max : Option Nat) :
    index.page after max =
      limit max (index.ids.filter fun id => after.all (compare · id == .lt)) := by
  cases after with
  | some after => cases max <;> rfl
  | none =>
    have hall : (index.ids.filter fun id => (none : Option AggregateId).all (compare · id == .lt)) =
        index.ids := List.filter_eq_self.2 fun _ _ => rfl
    rw [hall]
    cases max <;> rfl

theorem runAlone_listIds (repository : Repository E) (type : AggregateType)
    (after : Option AggregateId) (max : Option Nat) :
    runAlone (listIds type after max) repository =
      (.ok (limit max ((repository.view.ids type).filter fun id =>
        after.all (compare · id == .lt))), repository) := by
  have hanswer : repository.answer (.indexes (.get type)) =
      (repository.indexes.get? type, repository) := rfl
  rw [listIds, runAlone_step, hanswer]
  cases hindex : repository.indexes.get? type with
  | none =>
    have hids : repository.view.ids type = [] := by simp [view, hindex]
    rw [hids]
    cases max <;> simp [limit, runAlone_done]
  | some index =>
    have hids : repository.view.ids type = index.value.ids := by simp [view, hindex]
    rw [hids, ← page_eq]
    rfl

section

variable {repository : Repository E} {ledger : Ledger E}

theorem Mirrors.tail_eq (hmirrors : Mirrors repository.view ledger) (key : AggregateKey) :
    ((repository.logs.get? key).map fun log => log.value.tail).getD 0 = (ledger key).tail := by
  have hpositions := hmirrors.positions key
  rw [Account.tail, ← hmirrors.events]
  cases hlog : repository.logs.get? key with
  | none => simp [view, hlog]
  | some log =>
    have hevents : repository.view.events key = log.value.events := by simp [view, hlog]
    rw [hevents] at hpositions ⊢
    exact EventLog.tail_eq_length hpositions

/-- A batch that does not continue the events is refused for its first fault. -/
private theorem append_refused (config : RepositoryConfig)
    (hmirrors : Mirrors repository.view ledger) {key : AggregateKey} {first : RecordedEvent E}
    {rest : List (RecordedEvent E)} (haccepts : ¬ (ledger key).Accepts key (first :: rest)) :
    ∃ after, runAlone (append config key (first :: rest)) repository =
      (.error ((ledger key).fault key first rest), after) ∧ after.view = repository.view := by
  rw [Account.fault_eq]
  cases hfault : batchFault? key first rest with
  | some fault => exact ⟨repository, by rw [append, hfault]; rfl, rfl⟩
  | none =>
    have hbatch := (batchFault?_eq_none_iff key first rest).1 hfault
    have hlength : (repository.view.events key).length = (ledger key).tail :=
      congrArg List.length (hmirrors.events key)
    have hfirst : first.sequenceId ≠ (repository.view.events key).length + 1 := by
      intro heq
      rw [hlength] at heq
      exact haccepts (Account.accepts_iff.2 (heq ▸ hbatch))
    rw [append_of_isBatch config hbatch, ← hlength]
    exact runAlone_appendChecked_of_ne config _ (hmirrors.positions key) hfirst

theorem Mirrors.append (config : RepositoryConfig) (hmirrors : Mirrors repository.view ledger)
    (key : AggregateKey) (batch : List (RecordedEvent E)) :
    ∃ after, runAlone (append config key batch) repository =
        ((ledger key).appendAnswer key batch, after) ∧
      Mirrors after.view (ledger.apply (.append key batch)) := by
  cases batch with
  | nil => exact ⟨repository, rfl, (ledger.apply_append_nil key).symm ▸ hmirrors⟩
  | cons first rest =>
    rw [Account.appendAnswer, Ledger.apply, Account.append]
    by_cases haccepts : (ledger key).Accepts key (first :: rest)
    · rw [if_pos haccepts, if_pos haccepts]
      have hlength : (repository.view.events key).length = (ledger key).tail :=
        congrArg List.length (hmirrors.events key)
      have hnew : repository.view.events key = [] → key.id ∉ repository.view.ids key.type := by
        intro hempty hmem
        refine ((hmirrors.enumerates key.type).mem_iff key.id).1 hmem ?_
        exact (hmirrors.events key).symm.trans hempty
      rw [append_of_isBatch config (Account.accepts_iff.1 haccepts)]
      have hwithin : ∀ window, repository.view.window key = some window →
          window.first ≤ (ledger key).tail + 1 ∧
            window.last ≤ (ledger key).tail + 1 + ((first :: rest).length - 1) := by
        intro window hwindow
        have hbound := (hmirrors.opens key).within hwindow
        lia
      obtain ⟨after, hrun, hview⟩ := runAlone_appendChecked config (first :: rest)
        (hmirrors.positions key) (hlength.symm ▸ rfl) (Nat.le_add_right _ _) hwithin hnew
      refine ⟨after, hrun, ?_⟩
      rw [hview]
      exact hmirrors.appended (List.cons_ne_nil _ _) haccepts
    · rw [if_neg haccepts, if_neg haccepts, Function.update_eq_self]
      obtain ⟨after, hrun, hview⟩ := append_refused config hmirrors haccepts
      exact ⟨after, hrun, hview.symm ▸ hmirrors⟩

theorem Mirrors.markDelivered (config : RepositoryConfig)
    (hmirrors : Mirrors repository.view ledger) (key : AggregateKey) (delivered : SequenceId) :
    ∃ after, runAlone (markDelivered config key delivered) repository =
        ((ledger key).markAnswer delivered, after) ∧
      Mirrors after.view (ledger.apply (.markDelivered key delivered)) := by
  have htail := hmirrors.tail_eq key
  have hopens := hmirrors.opens key
  rw [Account.markAnswer, Ledger.apply]
  by_cases hlt : (ledger key).tail < delivered
  · have hsame : (ledger key).mark delivered = ledger key := if_pos hlt
    rw [if_pos hlt, hsame, Function.update_eq_self]
    exact ⟨repository, runAlone_markDelivered_beyond htail hlt, hmirrors⟩
  have hle := Nat.le_of_not_lt hlt
  rw [if_neg hlt]
  by_cases hzero : delivered = 0
  · subst hzero
    have hsame : (ledger key).mark 0 = ledger key := Account.mark_of_le (Nat.zero_le _)
    rw [hsame, Function.update_eq_self]
    exact ⟨repository, rfl, hmirrors⟩
  have hpos := Nat.one_le_iff_ne_zero.2 hzero
  cases hwindow : repository.view.window key with
  | none =>
    have hend : (ledger key).watermark = (ledger key).tail := by
      rw [hwindow] at hopens
      exact hopens
    have hsame : (ledger key).mark delivered = ledger key :=
      Account.mark_of_le (hend ▸ hle)
    rw [hsame, Function.update_eq_self]
    exact ⟨repository, runAlone_markDelivered hpos htail hle
      (runAlone_advanceWatermark_none (get?_window_eq_none hwindow)) (by simp), hmirrors⟩
  | some window =>
    obtain ⟨current, hcurrent, rfl⟩ := exists_of_window hwindow
    rw [hwindow] at hopens
    have hremnant := Account.Opens.remnant hopens hle
    obtain ⟨hdelivered, hlast, -, hbehind⟩ := hopens
    obtain ⟨settled, hrun, -, hview⟩ := runAlone_advanceWatermark hcurrent
      (Nat.le_of_eq hlast.symm) (Nat.le_of_lt (hdelivered ▸ hbehind)) hle
    refine ⟨settled, runAlone_markDelivered hpos htail hle hrun (by simp), ?_⟩
    rw [hview]
    exact hmirrors.marked delivered hremnant

theorem Mirrors.eventsBehind_eq (hmirrors : Mirrors repository.view ledger) (key : AggregateKey)
    (after : SequenceId) :
    repository.eventsBehind key after = (ledger key).events.drop after := by
  have hpositions := hmirrors.positions key
  rw [eventsBehind, ← hmirrors.events]
  cases hlog : repository.logs.get? key with
  | none => simp [view, hlog]
  | some log =>
    have hevents : repository.view.events key = log.value.events := by simp [view, hlog]
    rw [hevents] at hpositions ⊢
    exact EventLog.slice_eq_drop hpositions after

/-- The windows tell for every account which of its events are to be delivered. -/
theorem Mirrors.lists (hmirrors : Mirrors repository.view ledger) :
    ledger.Lists (repository.windows.entries.filterMap (listed? repository)) := by
  refine ⟨nodup_key_listed repository, fun undelivered => ?_⟩
  rw [mem_listed_iff]
  have hopens := hmirrors.opens undelivered.key
  constructor
  · rintro ⟨window, hwindow, hevents, hne⟩
    have hsome : repository.view.window undelivered.key = some window.value := by
      simp [view, hwindow]
    rw [hsome] at hopens
    rw [hmirrors.eventsBehind_eq, hopens.1] at hevents
    exact ⟨hevents, hne⟩
  · rintro ⟨hevents, hne⟩
    cases hwindow : repository.view.window undelivered.key with
    | none =>
      rw [hwindow] at hopens
      refine absurd ?_ hne
      rw [hevents, Account.pending]
      exact List.drop_of_length_le (Nat.le_of_eq hopens.symm)
    | some window =>
      obtain ⟨current, hcurrent, rfl⟩ := exists_of_window hwindow
      rw [hwindow] at hopens
      refine ⟨current, hcurrent, ?_, hne⟩
      rw [hmirrors.eventsBehind_eq, hopens.1]
      exact hevents

/-- Whatever is called, the repository answers as the ledger does and stands for what becomes of
it. -/
theorem Mirrors.call (config : RepositoryConfig) (hmirrors : Mirrors repository.view ledger)
    (call : Call E) :
    ledger.Answers call (runAlone (call.program config) repository).1 ∧
      Mirrors (runAlone (call.program config) repository).2.view (ledger.apply call) := by
  cases call with
  | append key batch =>
    obtain ⟨after, hrun, hafter⟩ := hmirrors.append config key batch
    rw [Call.program, hrun]
    exact ⟨rfl, hafter⟩
  | markDelivered key delivered =>
    obtain ⟨after, hrun, hafter⟩ := hmirrors.markDelivered config key delivered
    rw [Call.program, hrun]
    exact ⟨rfl, hafter⟩
  | listEvents key after max =>
    rw [Call.program, runAlone_listEvents_limit, hmirrors.eventsBehind_eq,
      ← (hmirrors.sound key).filter_eq_drop]
    exact ⟨rfl, hmirrors⟩
  | listUndelivered max =>
    rw [Ledger.Answers]
    by_cases hzero : max = some 0
    · subst hzero
      exact ⟨rfl, hmirrors⟩
    · rw [if_neg hzero, Call.program, runAlone_listUndelivered_limit _ hzero]
      exact ⟨⟨_, hmirrors.lists, rfl⟩, hmirrors⟩
  | listIds type after max =>
    rw [Call.program, runAlone_listIds]
    exact ⟨⟨_, hmirrors.enumerates type, rfl⟩, hmirrors⟩

end

/-- What a new repository becomes when some calls are made, one after the other. -/
def after (config : RepositoryConfig) (earlier : List (Call E)) : Repository E :=
  earlier.foldl (fun repository call => (runAlone (call.program config) repository).2) .empty

theorem mirrors_after (config : RepositoryConfig) (earlier : List (Call E)) :
    Mirrors (after config earlier).view (Ledger.after earlier) := by
  suffices h : ∀ (repository : Repository E) (ledger : Ledger E),
      Mirrors repository.view ledger →
        Mirrors (earlier.foldl (fun repository call =>
          (runAlone (call.program config) repository).2) repository).view
            (earlier.foldl Ledger.apply ledger) from h .empty .empty .empty
  induction earlier with
  | nil => exact fun _ _ hmirrors => hmirrors
  | cons call later ih => exact fun _ _ hmirrors => ih _ _ (hmirrors.call config call).2

/-- Whatever calls there were before, one after the other, a new repository answers the next one as
the ledger does, whatever its configuration. -/
theorem answers_as_ledger (config : RepositoryConfig) (earlier : List (Call E)) (call : Call E) :
    (Ledger.after earlier).Answers call
      (runAlone (call.program config) (after config earlier)).1 :=
  ((mirrors_after config earlier).call config call).1

end EventSourcing.Repository
