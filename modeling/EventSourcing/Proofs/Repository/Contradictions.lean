import EventSourcing.Proofs.Repository.Counting
import EventSourcing.Proofs.Repository.Covering
import EventSourcing.Proofs.Repository.Settling

namespace EventSourcing.Repository

open Interleaving Program

variable {E : Type} {config : RepositoryConfig} {key : AggregateKey}
  {batch : List (RecordedEvent E)}

/-- Whether an append begins a pass of widening the window. -/
def beginsWindowPass : Exchange (Request.Reply (E := E)) → Bool
  | ⟨.reached .markUndeliveredStarted _, _⟩ | ⟨.reached .markUndeliveredConflicted _, _⟩ => true
  | _ => false

/-- Whether an append begins a pass of adding the aggregate to the index. -/
def beginsIndexPass : Exchange (Request.Reply (E := E)) → Bool
  | ⟨.indexes (.getOrInsert _ _), _⟩ => true
  | _ => false

variable {transcript : Transcript E} {tail last : SequenceId} {outcome : Result Unit}

private theorem Announcing.passes (hannouncing : Announcing key tail last transcript outcome) :
    transcript.countP beginsWindowPass = 1 ∧ transcript.countP beginsIndexPass = 0 := by
  cases hannouncing <;>
    simp [meeting, widening, List.countP_cons, beginsWindowPass, beginsIndexPass]

private theorem Enrolling.passes (henrolling : Enrolling key tail transcript outcome) :
    transcript.countP beginsWindowPass = 0 ∧ transcript.countP beginsIndexPass ≤ 1 := by
  cases henrolling <;> simp [List.countP_cons, beginsWindowPass, beginsIndexPass]

namespace Straight

/-- Only an append that has committed could report a contradiction. -/
private theorem mem_of_violated {detail : String}
    (hstraight : Straight key batch transcript outcome)
    (houtcome : outcome = .error (.invariantViolation detail)) : batch ≠ [] ∧ ∃ seen,
      ⟨.logs (.compareAndSwap key seen (seen.value.append batch)), true⟩ ∈ transcript := by
  cases hstraight with
  | empty | faulty | gap | stale | lost => cases houtcome
  | shutOut _ hannouncing =>
    cases hannouncing
    cases houtcome
  | @won found _ _ _ hbatch => exact ⟨hbatch.ne_nil, found.1, by simp [raced]⟩

/-- An append begins one pass of each loop at most. -/
private theorem passes_le (hstraight : Straight key batch transcript outcome) :
    transcript.countP beginsWindowPass ≤ 1 ∧ transcript.countP beginsIndexPass ≤ 1 := by
  cases hstraight with
  | empty | faulty | gap | stale => simp [validated, beginsWindowPass, beginsIndexPass]
  | shutOut _ hannouncing =>
    obtain ⟨hwindow, hindex⟩ := hannouncing.passes
    simp [validated, hwindow, hindex, beginsWindowPass, beginsIndexPass]
  | lost _ hannouncing =>
    obtain ⟨hwindow, hindex⟩ := hannouncing.passes
    simp [validated, raced, hwindow, hindex, beginsWindowPass, beginsIndexPass]
  | won _ hannouncing henrolling =>
    obtain ⟨hwindow, hindex⟩ := hannouncing.passes
    obtain ⟨hwindow', hindex'⟩ := henrolling.passes
    simp [validated, raced, hwindow, hindex, hwindow', hindex', beginsWindowPass, beginsIndexPass]

end Straight

/-- What is true at every moment at which an append has begun, however it is interleaved with other
calls. -/
structure AppendsCleanly (config : RepositoryConfig) (id : Nat) (key : AggregateKey)
    (batch : List (RecordedEvent E)) (moment : Moment E) : Prop where
  not_violated : ∀ detail,
    ⟨id, .append key batch, .returned (.error (.invariantViolation detail))⟩ ∉ moment.world.history
  window_passes_le : (exchangesOf id moment.world.history).countP beginsWindowPass ≤ 1
  index_passes_le : (exchangesOf id moment.world.history).countP beginsIndexPass ≤ 1
  /-- The append that counts in words goes the same way, unless the log is as long as it can be. -/
  not_wrapped : (streamOf moment.world key).events.length < UInt64.size - 1 →
    (∀ event ∈ batch, event.sequenceId < UInt64.size) → ∃ rest,
      (Counting.words.append config key batch).Leads (exchangesOf id moment.world.history) rest ∧
      rest ≠ .done none ∧
      ∀ outcome, ⟨id, .append key batch, .returned outcome⟩ ∈ moment.world.history →
        rest = .done (some outcome)
  returns : ∃ later outcome, (calls config).Reaches moment later ∧
    ⟨id, .append key batch, .returned outcome⟩ ∈ later.world.history

namespace Reachable

variable {moment : Moment E} {id : Nat}

private theorem not_violated (hreach : Reachable config moment) (detail : String) :
    ⟨id, .append key batch, .returned (.error (.invariantViolation detail))⟩ ∉
      moment.world.history := by
  intro hreturned
  obtain ⟨hne, seen, hswapped⟩ := (hreach.straight hreturned).mem_of_violated rfl
  obtain ⟨call, hcommit⟩ := exists_of_mem_exchangesOf hswapped
  obtain rfl : call = .append key batch := System.Reaches.call_eq hreach hcommit hreturned rfl
  have hcommitted : (id, batch) ∈ History.commits moment.world.history key :=
    List.mem_filterMap.2 ⟨_, hcommit, by simp [Entry.commit?]⟩
  have hok := (((hreach.sound key).mem_commits_iff _ (mem_returns hreturned) hne batch).1
    hcommitted).2
  cases hok

/-- A log that can still grow could grow when it was read. -/
private theorem read_lt (hreach : Reachable config moment)
    (hlength : (streamOf moment.world key).events.length < UInt64.size - 1)
    {found : Snapshot (EventLog E) × Bool} {rest : Transcript E}
    (hread : exchangesOf id moment.world.history =
      ⟨.logs (.getOrInsert key .empty), found⟩ :: rest) : found.1.value.tail + 1 < UInt64.size := by
  have hle := hreach.tail_read_le (List.prefix_refl _) hread
  rw [← hreach.replayed, (hreach.sound key).tail_eq_length] at hle
  lia

variable (hreach : Reachable config moment)
  (hlength : (streamOf moment.world key).events.length < UInt64.size - 1)
  (hbatch : ∀ event ∈ batch, event.sequenceId < UInt64.size)

include hreach hlength hbatch

private theorem leads_of_returned {outcome : Result Unit}
    (hreturned : ⟨id, .append key batch, .returned outcome⟩ ∈ moment.world.history) :
    (Counting.words.append config key batch).Leads (exchangesOf id moment.world.history)
      (.done (some outcome)) :=
  leads_done_iff.2 (Counting.yields_append_words config key hbatch
    (fun _ _ hread => hreach.read_lt hlength hread) (System.Reaches.yields hreach hreturned))

private theorem exists_leads_words {action : (Call.append key batch).Action}
    (hbegun : ⟨id, .append key batch, action⟩ ∈ moment.world.history) : ∃ rest,
      (Counting.words.append config key batch).Leads (exchangesOf id moment.world.history) rest ∧
      rest ≠ .done none := by
  obtain ⟨later, outcome, entries, hreach', -, hreturned, hhistory, -⟩ :=
    hreach.exists_straight hbegun
  have hyields : (append config key batch).Yields _ outcome :=
    System.Reaches.yields hreach' hreturned
  rw [hhistory, exchangesOf_append] at hyields
  cases htold : exchangesOf id moment.world.history with
  | nil => exact ⟨_, .nil _, Counting.append_ne_done_none _ _ _ _⟩
  | cons exchange told =>
    -- The log that was read is known by now, whatever is appended to it later.
    have hread : ∀ found rest,
        exchange :: (told ++ exchangesOf id entries) =
          ⟨.logs (.getOrInsert key .empty), found⟩ :: rest →
        found.1.value.tail + 1 < UInt64.size := by
      intro found rest heq
      obtain ⟨rfl, -⟩ := List.cons.inj heq
      exact hreach.read_lt hlength htold
    rw [htold, List.cons_append] at hyields
    have hwords : (Counting.words.append config key batch).Yields
        ((exchange :: told) ++ exchangesOf id entries) (some outcome) :=
      Counting.yields_append_words config key hbatch hread hyields
    obtain ⟨rest, hleads, hrest⟩ := hwords.exists_leads
    refine ⟨rest, hleads, ?_⟩
    rintro rfl
    cases hrest.2

omit hlength hbatch

/-- No append ever reports that the repository contradicts itself. However it is interleaved with
other calls, and however few passes its loops may make, it goes through neither loop twice, and it
returns. If the log is not as long as a log can be, no position in it has wrapped around. -/
theorem appends_cleanly (hcalled : ⟨id, .append key batch, .called⟩ ∈ moment.world.history) :
    AppendsCleanly config id key batch moment := by
  obtain ⟨later, outcome, entries, -, hlater, hreturned, hhistory, hstraight⟩ :=
    hreach.exists_straight hcalled
  obtain ⟨hwindow, hindex⟩ := hstraight.passes_le
  rw [hhistory, exchangesOf_append, List.countP_append] at hwindow hindex
  exact {
    not_violated := hreach.not_violated
    window_passes_le := Nat.le_trans (Nat.le_add_right _ _) hwindow
    index_passes_le := Nat.le_trans (Nat.le_add_right _ _) hindex
    not_wrapped := fun hlength hbatch => by
      obtain ⟨rest, hleads, hne⟩ := hreach.exists_leads_words hlength hbatch hcalled
      exact ⟨rest, hleads, hne, fun _ hreturned =>
        hleads.unique (hreach.leads_of_returned hlength hbatch hreturned)⟩
    returns := ⟨later, outcome, hlater, hreturned⟩ }

end Reachable

/-- One pass is enough for the append that overtakes another one, and counting in words it goes the
same way. -/
theorem appends_cleanly_of_lostRace : ∃ moment : Moment Unit,
    (calls onePass).run? (.start .empty) lostRace = some moment ∧
      (exchangesOf 1 moment.world.history).countP beginsWindowPass = 1 ∧
      (exchangesOf 1 moment.world.history).countP beginsIndexPass = 1 ∧
      (Counting.words.append onePass sampleKey (sampleBatch 1 1)).Yields
        (exchangesOf 1 moment.world.history) (some (.ok ())) := by
  have hfacts : ((calls onePass).run? (.start .empty) lostRace).map (fun moment =>
      (moment.world.history[3]?, moment.world.history[13]?,
        (streamOf moment.world sampleKey).events.length,
        (exchangesOf 1 moment.world.history).countP beginsWindowPass,
        (exchangesOf 1 moment.world.history).countP beginsIndexPass)) =
      some (some ⟨1, .append sampleKey (sampleBatch 1 1), .called⟩,
        some ⟨1, .append sampleKey (sampleBatch 1 1), .returned (.ok ())⟩, 1, 1, 1) := rfl
  obtain ⟨moment, hrun, hmoment⟩ := Option.map_eq_some_iff.1 hfacts
  simp only [Prod.mk.injEq] at hmoment
  obtain ⟨hcalled, hreturned, hlength, hwindow, hindex⟩ := hmoment
  have hclean := Reachable.appends_cleanly ⟨lostRace, hrun⟩ (List.mem_of_getElem? hcalled)
  obtain ⟨rest, hleads, -, hrest⟩ := hclean.not_wrapped (by rw [hlength]; decide) (by decide)
  rw [hrest (.ok ()) (List.mem_of_getElem? hreturned)] at hleads
  exact ⟨moment, hrun, hwindow, hindex, leads_done_iff.1 hleads⟩

end EventSourcing.Repository
