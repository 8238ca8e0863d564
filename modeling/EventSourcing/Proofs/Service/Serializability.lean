import EventSourcing.Proofs.Service.Reachable

namespace EventSourcing.Service

open Interleaving

variable {State Command E : Type} {setting : Setting State Command E} {key : AggregateKey}

def Call.isAppend : Call Command E → Bool
  | .direct (.append _ _) => true
  | _ => false

/-- Nothing is appended to the repository but by processing commands. -/
def History.AppendsByCommand (history : History State Command E) : Prop :=
  ∀ entry ∈ history, entry.call.isAppend = false

instance (history : History State Command E) : Decidable (History.AppendsByCommand history) :=
  inferInstanceAs (Decidable (∀ entry ∈ history, _))

/-- The batch of a commit is what its command leads to after the batches before it, none of which
the command has had a part in. -/
structure IsServed (domain : Domain State Command E) (key : AggregateKey)
    (before : List (Commit Command E)) (commit : Commit Command E) (command : Command) : Prop where
  call_eq : commit.call = .process key command
  batch_ne_nil : commit.batch ≠ []
  accepts : domain.Accepts key.type command (before.flatMap (·.batch))
    (commit.batch.map (·.payload))
  sourceId_eq : ∀ event ∈ commit.batch, event.sourceId = domain.commandId command
  sourceId_ne : ∀ event ∈ before.flatMap (·.batch), event.sourceId ≠ domain.commandId command

/-- A commit stands in the history where the log holds the batches before it. -/
theorem History.exists_entry_of_commits {history : History State Command E}
    {before after : List (Commit Command E)} {commit : Commit Command E}
    (hcommits : History.commits history key = before ++ commit :: after) :
    ∃ early entry late, history = early ++ entry :: late ∧
      History.commits early key = before ∧ Entry.commit? key entry = some commit := by
  obtain ⟨first, second, rfl, hfirst, hsecond⟩ := List.filterMap_eq_append_iff.1 hcommits
  obtain ⟨skipped, entry, late, rfl, hskipped, hentry, -⟩ := List.filterMap_eq_cons_iff.1 hsecond
  refine ⟨first ++ skipped, entry, late, by simp, ?_, hentry⟩
  have hnone : skipped.filterMap (Entry.commit? key) = [] := List.filterMap_eq_nil_iff.2 hskipped
  rw [History.commits, List.filterMap_append, hfirst, hnone, List.append_nil]

/-- Every commit is served by a command on what the log was right before it. -/
theorem Lawful.exists_isServed {world : World State Command E} (hlawful : Lawful setting world)
    (happends : History.AppendsByCommand world.history) {before after : List (Commit Command E)}
    {commit : Commit Command E}
    (hcommits : History.commits world.history key = before ++ commit :: after) :
    ∃ command, IsServed setting.domain key before commit command := by
  obtain ⟨early, entry, late, hhistory, hearly, hcommit⟩ := History.exists_entry_of_commits hcommits
  obtain ⟨number, request, reply, rfl⟩ := Entry.of_commit?_eq_some hcommit
  have hwarranted := hlawful.warranted early _ late hhistory
  have hdirect := happends _ (hhistory ▸ List.mem_append_right _ List.mem_cons_self)
  obtain ⟨id, call, batch⟩ := commit
  cases call with
  | process owner command =>
    obtain ⟨rfl, past, events, hpast, haccepts, hsource, rfl⟩ := hwarranted
    have hne := hlawful.batch_ne_nil _ (hcommits ▸ List.mem_append_right _ List.mem_cons_self)
    have hwithin := hpast.trans (History.log_prefix (hhistory ▸ List.prefix_append early _) key)
    have hbefore := hlawful.flatMap_batch_eq hcommits hwithin rfl hne
    refine ⟨command, rfl, hne, ?_, fun event => Store.sourceId_of_mem_record _ _ _ _,
      hbefore ▸ hsource⟩
    rw [hbefore, Store.map_payload_record]
    exact haccepts
  | direct operation =>
    obtain rfl : .append key batch = operation := hwarranted
    cases hdirect
  | aggregate | drain | subscribe | cancel | close => exact hwarranted.elim

/-- No other commit has an event with the source of one. -/
theorem Lawful.sourceId_ne_of_mem {world : World State Command E} (hlawful : Lawful setting world)
    (happends : History.AppendsByCommand world.history) {before after : List (Commit Command E)}
    {commit other : Commit Command E}
    (hcommits : History.commits world.history key = before ++ commit :: after)
    (hother : other ∈ before ++ after) {event : RecordedEvent E} (hevent : event ∈ commit.batch) :
    ∀ event' ∈ other.batch, event'.sourceId ≠ event.sourceId := by
  intro event' hevent'
  obtain ⟨command, hserved⟩ := hlawful.exists_isServed happends hcommits
  rcases List.mem_append.1 hother with h | h
  · rw [hserved.sourceId_eq event hevent]
    exact hserved.sourceId_ne event' (List.mem_flatMap.2 ⟨other, h, hevent'⟩)
  · obtain ⟨between, rest, rfl⟩ := List.append_of_mem h
    obtain ⟨command', hserved'⟩ := hlawful.exists_isServed happends
      (hcommits.trans (by simp : _ = (before ++ commit :: between) ++ other :: rest))
    rw [hserved'.sourceId_eq event' hevent']
    exact (hserved'.sourceId_ne event
      (List.mem_flatMap.2 ⟨commit, by simp, hevent⟩)).symm

theorem Reachable.call_eq_of_id_eq {moment : Moment State Command E}
    (hreach : Reachable setting moment) {commit other : Commit Command E}
    (hcommit : commit ∈ History.commits moment.world.history key)
    (hother : other ∈ History.commits moment.world.history key) (hid : commit.id = other.id) :
    commit.call = other.call := by
  obtain ⟨entry, hentry, hcommit⟩ := List.mem_filterMap.1 hcommit
  obtain ⟨entry', hentry', hother⟩ := List.mem_filterMap.1 hother
  obtain ⟨_, _, _, rfl⟩ := Entry.of_commit?_eq_some hcommit
  obtain ⟨_, _, _, rfl⟩ := Entry.of_commit?_eq_some hother
  exact System.Reaches.call_eq hreach hentry hentry' hid

/-- At every moment of every run in which nothing is appended but by processing commands, the log of
an aggregate is made of the batches that have been committed, at most one by each call. Each batch
is what the command of its call leads to on the state that the batches before it lead to, and all of
its events carry the id of that command. No decision is based on any other state, whatever has been
committed between the reading and the appending, and however often the call has had to try. -/
theorem log_serializable {moment : Moment State Command E} (hreach : Reachable setting moment)
    (happends : History.AppendsByCommand moment.world.history) (key : AggregateKey) :
    logOf moment.world.state key =
        (History.commits moment.world.history key).flatMap (·.batch) ∧
      ((History.commits moment.world.history key).map (·.id)).Nodup ∧
      ∀ before commit after,
        History.commits moment.world.history key = before ++ commit :: after →
          ∃ command, commit.call = .process key command ∧ commit.batch ≠ [] ∧
            setting.domain.Accepts key.type command (before.flatMap (·.batch))
              (commit.batch.map (·.payload)) ∧
            ∀ event ∈ commit.batch, event.sourceId = setting.domain.commandId command := by
  have hlawful := hreach.lawful
  refine ⟨hlawful.logOf_eq key, ?_, ?_⟩
  · rw [List.Nodup, List.pairwise_map, List.pairwise_iff_forall_sublist]
    intro commit other hsublist hid
    obtain ⟨first, second, hcommits, hmem, hrest⟩ := List.cons_sublist_iff.1 hsublist
    obtain ⟨before, between, rfl⟩ := List.append_of_mem hmem
    rw [List.append_assoc, List.cons_append] at hcommits
    have hother : other ∈ between ++ second :=
      List.mem_append_right _ (List.singleton_sublist.1 hrest)
    -- Two commits of one call would carry the id of one command.
    have hcall := hreach.call_eq_of_id_eq (hcommits ▸ List.mem_append_right _ List.mem_cons_self)
      (hcommits ▸ List.mem_append_right _ (List.mem_cons_of_mem _ hother)) hid
    obtain ⟨command, hserved⟩ := hlawful.exists_isServed happends hcommits
    obtain ⟨early, late, hsplit⟩ := List.append_of_mem hother
    obtain ⟨command', hserved'⟩ := hlawful.exists_isServed happends
      (hcommits.trans (by simp [hsplit] : _ = (before ++ commit :: early) ++ other :: late))
    obtain ⟨event, hevent⟩ := List.exists_mem_of_ne_nil _ hserved.batch_ne_nil
    have hsource := hserved'.sourceId_ne event (List.mem_flatMap.2 ⟨commit, by simp, hevent⟩)
    rw [hserved.sourceId_eq event hevent] at hsource
    rw [hserved.call_eq, hserved'.call_eq] at hcall
    cases hcall
    exact hsource rfl
  · intro before commit after hcommits
    obtain ⟨command, hserved⟩ := hlawful.exists_isServed happends hcommits
    exact ⟨command, hserved.call_eq, hserved.batch_ne_nil, hserved.accepts, hserved.sourceId_eq⟩

theorem log_serializable_of_overlapping : ∃ moment, sampleRun overlapping = some moment ∧
    (logOf moment.world.state sampleKey).map (·.payload) = [7, 0, 5, 7] ∧
    (History.commits moment.world.history sampleKey).map (·.id) = [1, 0] ∧
    ∀ before commit after,
      History.commits moment.world.history sampleKey = before ++ commit :: after →
        ∃ command, commit.call = .process sampleKey command := by
  obtain ⟨moment, hrun, hreach, hmoment⟩ := exists_of_sampleRun overlapping
    (fun moment => decide (History.AppendsByCommand moment.world.history ∧
      (logOf moment.world.state sampleKey).map (·.payload) = [7, 0, 5, 7] ∧
      (History.commits moment.world.history sampleKey).map (·.id) = [1, 0])) (by decide +kernel)
  obtain ⟨happends, hlog, hids⟩ := of_decide_eq_true hmoment
  refine ⟨moment, hrun, hlog, hids, fun before commit after hcommits => ?_⟩
  obtain ⟨-, -, hserved⟩ := log_serializable hreach happends sampleKey
  obtain ⟨command, hcall, -⟩ := hserved before commit after hcommits
  exact ⟨command, hcall⟩

end EventSourcing.Service
