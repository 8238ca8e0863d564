import EventSourcing.Proofs.Interleaving.Run
import EventSourcing.Proofs.Store.Attempts

namespace EventSourcing.Store

open Interleaving Program

variable {State Command E : Type} {domain : Domain State Command E} {delivers : Bool}
  {key : AggregateKey} {command : Command} {transcript : Transcript E}
  {attempt : Attempt State Command E}

/-- The checkpoint that an exchange reports. -/
def report? : Exchange (Request.Reply (E := E)) → Option Checkpoint
  | ⟨.reached checkpoint _, _⟩ => some checkpoint
  | _ => none

/-- The checkpoints that a store has reported, in their order. -/
def reports (transcript : Transcript E) : List Checkpoint :=
  transcript.filterMap report?

@[simp]
theorem reports_append (first second : Transcript E) :
    reports (first ++ second) = reports first ++ reports second :=
  List.filterMap_append

/-- What is reported behind an append, by the answer to it. -/
def reportsBehind : Except RepositoryError Unit → List Checkpoint
  | .ok _ => [.appended, .published]
  | .error (.optimisticConcurrency _) => [.conflicted]
  | .error _ => []

theorem reports_exhaustion (outcome : Except (StoreError State Command) (CommandResult State E)) :
    reports (exhaustion outcome) = [] := by
  unfold exhaustion
  split <;> rfl

private theorem reports_scheduleDelivery {isWanted : Bool}
    (hyields : (scheduleDelivery isWanted).Yields transcript ()) : reports transcript = [] := by
  cases isWanted with
  | false =>
    obtain ⟨rfl, -⟩ := hyields
    rfl
  | true =>
    obtain ⟨reply, rest, rfl, hrest⟩ := hyields
    cases reply with
    | ok _ =>
      obtain ⟨rfl, -⟩ := hrest
      rfl
    | error error =>
      obtain ⟨_, _, rfl, rfl, -⟩ := hrest
      rfl

/-- How an attempt goes as far as its append and its reports are concerned: it does neither, or it
appends once in between. -/
private inductive Stores (key : AggregateKey) : Transcript E → Prop
  | never {transcript : Transcript E} : (∀ exchange ∈ transcript, isAppend exchange = false) →
      reports transcript = [] → Stores key transcript
  | failed {early batch cause} : (∀ exchange ∈ early, isAppend exchange = false) →
      reports early = [.prepared] →
      Stores key (early ++ [⟨.appendEvents key batch, .error cause⟩])
  | stored {early batch late} : (∀ exchange ∈ early, isAppend exchange = false) →
      reports early = [.prepared] → (∀ exchange ∈ late, IsEpilogue exchange) →
      reports late = [.appended, .published] →
      Stores key (early ++ ⟨.appendEvents key batch, .ok ()⟩ :: late)

private theorem stores_of_storeResult {listing : Except RepositoryError (List (RecordedEvent E))}
    {result : CommandResult State E}
    {ending : Except (AttemptError State Command) (CommandResult State E)}
    (hyields : (storeResult delivers key result).Yields transcript ending) :
    Stores key (⟨.listEvents key, listing⟩ :: transcript) := by
  have hearly : ∀ exchange ∈ ([⟨.listEvents key, listing⟩, ⟨.reached .prepared key, ()⟩] :
      Transcript E), isAppend exchange = false := by
    simp [isAppend]
  obtain ⟨_, _, rfl, answer, rest, rfl, hrest⟩ := hyields
  cases answer with
  | error cause =>
    obtain ⟨rfl, rfl⟩ := hrest
    exact .failed hearly rfl
  | ok _ =>
    obtain ⟨_, late, rfl, hlate⟩ := hrest
    change (scheduleDelivery _ >>= _ : Operation E _).Yields late ending at hlate
    obtain ⟨scheduling, _, _, rfl, hscheduling, _, _, rfl, rfl, rfl⟩ := yields_bind_iff.1 hlate
    refine .stored hearly rfl (List.forall_mem_cons.2 ⟨trivial, List.forall_mem_append.2
      ⟨epilogue_of_scheduleDelivery hscheduling, List.forall_mem_singleton.2 trivial⟩⟩) ?_
    change _ :: reports (scheduling ++ _) = _
    rw [reports_append, reports_scheduleDelivery hscheduling]
    rfl

private theorem Attempt.IsMade.stores (hmade : attempt.IsMade domain delivers key command) :
    Stores key attempt.transcript := by
  obtain ⟨transcript, ending⟩ := attempt
  change (Store.attempt domain delivers key command).Yields transcript ending at hmade
  cases hfresh : domain.fresh key.type with
  | none =>
    rw [Store.attempt, replay, hfresh] at hmade
    obtain ⟨rfl, -⟩ := hmade
    exact .never (by simp) rfl
  | some fresh =>
    rw [attempt_eq domain delivers command hfresh] at hmade
    obtain ⟨listing, rest, rfl, hrest⟩ := hmade
    have hlisted : Stores key [⟨.listEvents key, listing⟩] := .never (by simp [isAppend]) rfl
    cases listing with
    | error cause =>
      obtain ⟨rfl, -⟩ := hrest
      exact hlisted
    | ok stream =>
      dsimp only at hrest
      cases hdecision : decision domain key command stream with
      | error error =>
        rw [hdecision] at hrest
        obtain ⟨rfl, -⟩ := hrest
        exact hlisted
      | ok result =>
        rw [hdecision, carryOut] at hrest
        split at hrest
        · obtain ⟨rfl, -⟩ := hrest
          exact hlisted
        · exact stores_of_storeResult hrest

private theorem conflict?_of_not_isAppend {exchange : Exchange (Request.Reply (E := E))}
    (hnot : isAppend exchange = false) : conflict? exchange = none := by
  unfold conflict?
  split
  · cases hnot
  · rfl

/-- A lost race is reported where the only append was answered with a conflict. -/
private theorem reported_eq {early late : Transcript E} {batch : List (RecordedEvent E)}
    {answer : Except RepositoryError Unit}
    (ending : Except (AttemptError State Command) (CommandResult State E))
    (hearly : ∀ exchange ∈ early, isAppend exchange = false)
    (hlate : ∀ exchange ∈ late, isAppend exchange = false) :
    Attempt.reported key ⟨early ++ ⟨.appendEvents key batch, answer⟩ :: late, ending⟩ =
      early ++ ⟨.appendEvents key batch, answer⟩ :: (late ++
        if (conflict? (E := E) ⟨.appendEvents key batch, answer⟩).isSome then
          [⟨.reached .conflicted key, ()⟩] else []) := by
  have hnone : ∀ exchanges : Transcript E, (∀ exchange ∈ exchanges, isAppend exchange = false) →
      exchanges.findSome? conflict? = none := fun exchanges hnot =>
    List.findSome?_eq_none_iff.2 fun exchange hmem => conflict?_of_not_isAppend (hnot exchange hmem)
  rw [Attempt.reported, withCheckpoint, conflictIn?, List.findSome?_append,
    hnone early hearly, Option.none_or, List.findSome?_cons, List.append_assoc, List.cons_append]
  cases conflict? (E := E) ⟨.appendEvents key batch, answer⟩ with
  | none => simp [hnone late hlate]
  | some cause => rfl

namespace Attempt.IsMade

/-- An attempt reports nothing and does not append, or it appends once, reports before that the new
events are ready, and behind it how the append was answered. -/
private theorem reported_cases (hmade : attempt.IsMade domain delivers key command) :
    ((∀ exchange ∈ attempt.reported key, isAppend exchange = false) ∧
        reports (attempt.reported key) = []) ∨
      ∃ early batch answer late,
        attempt.reported key = early ++ ⟨.appendEvents key batch, answer⟩ :: late ∧
        (∀ exchange ∈ early, isAppend exchange = false) ∧
        (∀ exchange ∈ late, isAppend exchange = false) ∧
        reports early = [.prepared] ∧ reports late = reportsBehind answer := by
  have hstores := hmade.stores
  obtain ⟨transcript, ending⟩ := attempt
  cases hstores with
  | never hnot hnothing =>
    have hnone : conflictIn? transcript = none := List.findSome?_eq_none_iff.2
      fun exchange hmem => conflict?_of_not_isAppend (hnot exchange hmem)
    rw [Attempt.reported, withCheckpoint, hnone]
    simp only [Option.isSome_none, Bool.false_eq_true, ↓reduceIte, List.append_nil]
    exact .inl ⟨hnot, hnothing⟩
  | @failed early batch cause hearly hprepared =>
    refine .inr ⟨early, batch, .error cause, _, reported_eq ending hearly (by simp), hearly, ?_,
      hprepared, ?_⟩
    · cases cause <;> simp [Store.conflict?, isAppend]
    · cases cause <;> rfl
  | @stored early batch late hearly hprepared hlate hreports =>
    have hnot : ∀ exchange ∈ late, isAppend exchange = false :=
      fun exchange hmem => isAppend_of_isEpilogue (hlate exchange hmem)
    refine .inr ⟨early, batch, .ok (), _, reported_eq ending hearly hnot, hearly, ?_, hprepared, ?_⟩
    · simpa [Store.conflict?] using hnot
    · simpa [Store.conflict?, reportsBehind] using hreports

/-- An attempt that does not get as far as appending reports nothing. -/
theorem reports_eq_nil (hmade : attempt.IsMade domain delivers key command)
    (hnever : ∀ exchange ∈ attempt.reported key, isAppend exchange = false) :
    reports (attempt.reported key) = [] := by
  rcases hmade.reported_cases with ⟨-, hnothing⟩ | ⟨early, batch, answer, late, heq, -⟩
  · exact hnothing
  · have happends := hnever ⟨.appendEvents key batch, answer⟩ (by simp [heq])
    cases happends

/-- An attempt that appends has reported that the new events are ready, and nothing else, and it
goes on to report just how the append was answered. -/
theorem reports_of_append (hmade : attempt.IsMade domain delivers key command)
    {early late : Transcript E} {owner : AggregateKey} {batch : List (RecordedEvent E)}
    {answer : Except RepositoryError Unit}
    (hsplit : attempt.reported key = early ++ ⟨.appendEvents owner batch, answer⟩ :: late) :
    owner = key ∧ reports early = [.prepared] ∧ reports late = reportsBehind answer := by
  rcases hmade.reported_cases with
    ⟨hnever, -⟩ | ⟨before, batch', answer', after, heq, hbefore, hafter, hprepared, hbehind⟩
  · have happends := hnever ⟨.appendEvents owner batch, answer⟩ (by simp [hsplit])
    cases happends
  · obtain ⟨rfl, hsame, rfl⟩ := append_cons_unique (hsplit.symm.trans heq) hbefore hafter rfl
    cases hsame
    exact ⟨rfl, hprepared, hbehind⟩

end Attempt.IsMade

end EventSourcing.Store
