import EventSourcing.Proofs.Ensures
import EventSourcing.Proofs.Store.Judging

namespace EventSourcing.Store

open Program

open Repository (Counting)

variable {State Command E : Type} {counting : Counting} {domain : Domain State Command E}
  {delivers : Bool} {key : AggregateKey} {command : Command}

/-- What a store has asked and how it was answered. -/
abbrev Transcript (E : Type) :=
  List (Exchange (Request.Reply (E := E)))

/-- What is asked in an attempt at a command, and what the attempt comes to. -/
structure Attempt (State Command E : Type) where
  transcript : Transcript E
  ending : Except (AttemptError State Command) (CommandResult State E)

/-- An attempt with some way of counting. It has no ending if it has counted too far. -/
structure Trial (State Command E : Type) where
  transcript : Transcript E
  ending : Option (Except (AttemptError State Command) (CommandResult State E))

variable {transcript : Transcript E} {attempt : Attempt State Command E}
  {trial : Trial State Command E}

def isAppend : Exchange (Request.Reply (E := E)) → Bool
  | ⟨.appendEvents _ _, _⟩ => true
  | _ => false

/-- The conflict that an append is answered with. -/
def conflict? : Exchange (Request.Reply (E := E)) → Option RepositoryError
  | ⟨.appendEvents _ _, .error (.optimisticConcurrency key)⟩ => some (.optimisticConcurrency key)
  | _ => none

/-- The checkpoint of a lost race. -/
def isConflicted : Exchange (Request.Reply (E := E)) → Bool
  | ⟨.reached .conflicted _, _⟩ => true
  | _ => false

/-- What may follow when the new events are stored. -/
def IsEpilogue : Exchange (Request.Reply (E := E)) → Prop
  | ⟨.reached .appended _, _⟩ | ⟨.reached .published _, _⟩ => True
  | ⟨.scheduleDelivery, _⟩ | ⟨.report _, _⟩ => True
  | _ => False

section Epilogue

variable {exchange : Exchange (Request.Reply (E := E))}

theorem isAppend_of_isEpilogue (h : IsEpilogue exchange) : isAppend exchange = false := by
  unfold isAppend
  split
  · cases h
  · rfl

theorem conflict?_of_isEpilogue (h : IsEpilogue exchange) : conflict? exchange = none := by
  unfold conflict?
  split
  · cases h
  · rfl

theorem isConflicted_of_isEpilogue (h : IsEpilogue exchange) : isConflicted exchange = false := by
  unfold isConflicted
  split
  · cases h
  · rfl

end Epilogue

/-- The conflict that an append has been answered with. -/
def conflictIn? (transcript : Transcript E) : Option RepositoryError :=
  transcript.findSome? conflict?

/-- The checkpoint of a lost race follows what was asked, if a race was lost. -/
def withCheckpoint (key : AggregateKey) (transcript : Transcript E) : Transcript E :=
  transcript ++ if (conflictIn? transcript).isSome then [⟨.reached .conflicted key, ()⟩] else []

namespace Attempt

/-- An attempt with its checkpoint if it has lost its race. -/
def reported (key : AggregateKey) (attempt : Attempt State Command E) : Transcript E :=
  withCheckpoint key attempt.transcript

end Attempt

namespace Trial

/-- The append was answered with a conflict. -/
def isLost (trial : Trial State Command E) : Bool :=
  (conflictIn? trial.transcript).isSome

end Trial

/-- The stream is listed, and new events are appended. -/
def appending (key : AggregateKey) (events newEvents : List (RecordedEvent E))
    (answer : Except RepositoryError Unit) : Transcript E :=
  [⟨.listEvents key, .ok events⟩, ⟨.reached .prepared key, ()⟩,
    ⟨.appendEvents key newEvents, answer⟩]

/-- How an attempt at a command may go: what is asked and answered in it, and what it comes to. -/
inductive Tried (counting : Counting) (domain : Domain State Command E) (key : AggregateKey)
    (command : Command) : Trial State Command E → Prop
  /-- There is no aggregate of this type, and nothing is asked. -/
  | unknown : domain.fresh key.type = none →
      Tried counting domain key command ⟨[], some (.error (.final (.missingAggregate key.type)))⟩
  /-- The stream cannot be listed, whatever the reason. -/
  | unlisted {fresh cause} : domain.fresh key.type = some fresh →
      Tried counting domain key command
        ⟨[⟨.listEvents key, .error cause⟩], some (.error (.final (.repository cause)))⟩
  | settled {stream outcome} : Settles domain key command stream outcome →
      Tried counting domain key command
        ⟨[⟨.listEvents key, .ok stream⟩], some (outcome.mapError .final)⟩
  /-- The positions for the new events have run out, and nothing comes of it. -/
  | overrun {stream} : Overruns counting domain key command stream →
      Tried counting domain key command ⟨[⟨.listEvents key, .ok stream⟩], none⟩
  /-- The append is answered with a conflict. -/
  | lost {stream result lost} : Accepts counting domain key command stream result →
      Tried counting domain key command
        ⟨appending key stream result.newEvents (.error (.optimisticConcurrency lost)),
          some (.error (.conflict (.optimisticConcurrency lost)))⟩
  /-- The append is answered with another error. -/
  | failed {stream result cause} : Accepts counting domain key command stream result →
      (∀ lost, cause ≠ .optimisticConcurrency lost) →
      Tried counting domain key command ⟨appending key stream result.newEvents (.error cause),
        some (.error (.final (.repository cause)))⟩
  | stored {stream result rest} : Accepts counting domain key command stream result →
      (∀ exchange ∈ rest, IsEpilogue exchange) →
      Tried counting domain key command
        ⟨appending key stream result.newEvents (.ok ()) ++ rest, some (.ok result)⟩

theorem epilogue_of_scheduleDelivery {isWanted : Bool}
    (hyields : (scheduleDelivery isWanted).Yields transcript ()) :
    ∀ exchange ∈ transcript, IsEpilogue exchange := by
  cases isWanted with
  | false =>
    obtain ⟨rfl, -⟩ := hyields
    simp
  | true =>
    obtain ⟨reply, rest, rfl, hrest⟩ := hyields
    cases reply with
    | ok _ =>
      obtain ⟨rfl, -⟩ := hrest
      simp [IsEpilogue]
    | error error =>
      obtain ⟨_, _, rfl, rfl, -⟩ := hrest
      simp [IsEpilogue]

theorem tried_of_storeResult {stream : List (RecordedEvent E)} {result : CommandResult State E}
    {ending : Option (Except (AttemptError State Command) (CommandResult State E))}
    (haccepts : Accepts counting domain key command stream result)
    (hyields : (some <$> storeResult delivers key result : Operation E _).Yields transcript
      ending) :
    Tried counting domain key command ⟨⟨.listEvents key, .ok stream⟩ :: transcript, ending⟩ := by
  obtain ⟨_, _, rfl, answer, rest, rfl, hrest⟩ := hyields
  cases answer with
  | error cause =>
    obtain ⟨rfl, rfl⟩ := hrest
    cases cause with
    | optimisticConcurrency lost => exact .lost haccepts
    | invalidArgument argument detail => exact .failed haccepts nofun
    | invariantViolation detail => exact .failed haccepts nofun
  | ok _ =>
    obtain ⟨_, late, rfl, hlate⟩ := hrest
    change (some <$> (scheduleDelivery _ >>= _) : Operation E _).Yields late ending at hlate
    rw [map_bind] at hlate
    obtain ⟨scheduling, _, _, rfl, hscheduling, _, _, rfl, rfl, rfl⟩ := yields_bind_iff.1 hlate
    have hepilogue := epilogue_of_scheduleDelivery hscheduling
    have hrest : ∀ exchange ∈ ⟨.reached .appended key, ()⟩ :: (scheduling ++
        [⟨.reached .published key, ()⟩]), IsEpilogue exchange := by
      intro exchange hmem
      simp only [List.mem_cons, List.mem_append, List.not_mem_nil, or_false] at hmem
      obtain rfl | hmem | rfl := hmem
      · trivial
      · exact hepilogue exchange hmem
      · trivial
    exact .stored haccepts hrest

theorem tried_of_judge {stream : List (RecordedEvent E)} {state : State}
    (hreplays : Replays domain key.type stream (lastPosition stream) state)
    {ending : Option (Except (AttemptError State Command) (CommandResult State E))}
    (hyields : (counting.judge domain delivers key command state stream).Yields transcript ending) :
    Tried counting domain key command ⟨⟨.listEvents key, .ok stream⟩ :: transcript, ending⟩ := by
  unfold Counting.judge at hyields
  dsimp only at hyields
  split at hyields
  · next hrepeated =>
    obtain ⟨rfl, rfl⟩ := hyields
    obtain ⟨event, hmem, hsame⟩ := List.any_eq_true.1 hrepeated
    exact .settled (.repeated hreplays hmem (of_decide_eq_true hsame))
  next hnot =>
  have hisNew : ∀ event ∈ stream, event.sourceId ≠ domain.commandId command := by
    simpa using hnot
  cases hprocessor : domain.processor key.type with
  | none =>
    rw [hprocessor] at hyields
    obtain ⟨rfl, rfl⟩ := hyields
    exact .settled (.unprocessed hreplays hisNew hprocessor)
  | some processor =>
    rw [hprocessor] at hyields
    have hanswers : ∀ answer, processor command state = answer →
        Answers domain key command stream (lastPosition stream) state answer :=
      fun answer hanswer => ⟨hreplays, hisNew, processor, hprocessor, hanswer⟩
    dsimp only [Domain.decide] at hyields
    rcases hanswer : processor command state with text | events | errors
    · rw [hanswer] at hyields
      obtain ⟨rfl, rfl⟩ := hyields
      exact .settled (.crashed (hanswers _ hanswer) rfl)
    · rw [hanswer] at hyields
      dsimp only at hyields
      split at hyields
      · next hnone =>
        obtain ⟨rfl, rfl⟩ := hyields
        exact .overrun ⟨_, _, events, hanswers _ hanswer, fun _ hlength =>
          Counting.of_record?_eq_none hnone hlength⟩
      · next newEvents hsome =>
        obtain ⟨hcounts, rfl, hbelongs⟩ := Counting.of_record?_eq_some hsome
        exact tried_of_storeResult
          (.intro (hanswers _ hanswer) rfl hbelongs hcounts (hreplays.append newEvents)) hyields
    · rw [hanswer] at hyields
      obtain ⟨rfl, rfl⟩ := hyields
      exact .settled (.refused (hanswers _ hanswer))

/-- Every attempt goes in one of these ways. -/
theorem tried_of_yields
    {ending : Option (Except (AttemptError State Command) (CommandResult State E))}
    (hyields : (counting.attempt domain delivers key command).Yields transcript ending) :
    Tried counting domain key command ⟨transcript, ending⟩ := by
  cases hfresh : domain.fresh key.type with
  | none =>
    rw [Counting.attempt, replay, hfresh] at hyields
    obtain ⟨rfl, rfl⟩ := hyields
    exact .unknown hfresh
  | some fresh =>
    rw [Counting.attempt, replay, hfresh] at hyields
    obtain ⟨listing, rest, rfl, hrest⟩ := hyields
    cases listing with
    | error cause =>
      obtain ⟨rfl, rfl⟩ := hrest
      exact .unlisted hfresh
    | ok stream => exact tried_of_judge (replays_fold hfresh stream) hrest

namespace Tried

/-- An attempt appends once at most. -/
theorem appends_le (h : Tried counting domain key command trial) :
    trial.transcript.countP isAppend ≤ 1 := by
  cases h with
  | unknown => exact Nat.zero_le 1
  | unlisted => exact Nat.zero_le 1
  | settled => exact Nat.zero_le 1
  | overrun => exact Nat.zero_le 1
  | lost => exact Nat.le_refl 1
  | failed => exact Nat.le_refl 1
  | @stored stream result rest _ hrest =>
    have hnone : rest.countP isAppend = 0 :=
      List.countP_eq_zero.2 fun exchange hmem => by
        simp [isAppend_of_isEpilogue (hrest exchange hmem)]
    simp [appending, isAppend, List.countP_cons, hnone]

/-- An attempt itself does not report its lost race. -/
theorem conflicted_eq (h : Tried counting domain key command trial) :
    trial.transcript.countP isConflicted = 0 := by
  cases h with
  | unknown => rfl
  | unlisted => rfl
  | settled => rfl
  | overrun => rfl
  | lost => rfl
  | failed => rfl
  | @stored stream result rest _ hrest =>
    have hnone : rest.countP isConflicted = 0 :=
      List.countP_eq_zero.2 fun exchange hmem => by
        simp [isConflicted_of_isEpilogue (hrest exchange hmem)]
    simp [appending, isConflicted, hnone]

/-- An attempt that has lost its race leaves open what the command comes to. Any other attempt
settles it, and never by a lost race. -/
theorem ending_cases (h : Tried counting domain key command trial) :
    (∃ cause, conflictIn? trial.transcript = some cause ∧
        trial.ending = some (.error (.conflict cause))) ∨
      conflictIn? trial.transcript = none ∧
        ∃ outcome : Option (Except (StoreError State Command) (CommandResult State E)),
          trial.ending = outcome.map (·.mapError .final) ∧
            ∀ number cause, outcome ≠ some (.error (.concurrency number cause)) := by
  cases h with
  | unknown _ => exact .inr ⟨rfl, some (.error (.missingAggregate _)), rfl, nofun⟩
  | @unlisted _ cause _ => exact .inr ⟨rfl, some (.error (.repository cause)), rfl, nofun⟩
  | @settled stream outcome hsettles =>
    refine .inr ⟨rfl, some outcome, rfl, ?_⟩
    cases hsettles <;> exact nofun
  | overrun _ => exact .inr ⟨rfl, none, rfl, nofun⟩
  | @lost _ _ lost _ => exact .inl ⟨.optimisticConcurrency lost, rfl, rfl⟩
  | @failed _ _ cause _ hcause =>
    refine .inr ⟨?_, some (.error (.repository cause)), rfl, nofun⟩
    cases cause with
    | optimisticConcurrency lost => exact absurd rfl (hcause lost)
    | invalidArgument argument detail => rfl
    | invariantViolation detail => rfl
  | @stored _ result rest _ hrest =>
    refine .inr ⟨?_, some (.ok result), rfl, nofun⟩
    exact List.findSome?_eq_none_iff.2 fun exchange hmem => by
      simp only [appending, List.cons_append, List.nil_append, List.mem_cons] at hmem
      obtain rfl | rfl | rfl | hmem := hmem
      · rfl
      · rfl
      · rfl
      · exact conflict?_of_isEpilogue (hrest exchange hmem)

end Tried

/-- An attempt that has been made, with some way of counting. -/
def Trial.IsMade (counting : Counting) (domain : Domain State Command E) (delivers : Bool)
    (key : AggregateKey) (command : Command) (trial : Trial State Command E) : Prop :=
  (counting.attempt domain delivers key command).Yields trial.transcript trial.ending

theorem Trial.IsMade.tried (hmade : trial.IsMade counting domain delivers key command) :
    Tried counting domain key command trial :=
  tried_of_yields hmade

/-- How the attempts at a command follow each other when `retries` more are allowed after this one,
which is attempt number `number`. -/
inductive Retried (counting : Counting) (domain : Domain State Command E) (delivers : Bool)
    (key : AggregateKey) (command : Command) : (retries number : Nat) →
      List (Trial State Command E) → Transcript E →
        Option (Except (StoreError State Command) (CommandResult State E)) → Prop
  | decisive {retries number trial outcome} : trial.IsMade counting domain delivers key command →
      conflictIn? trial.transcript = none → trial.ending = outcome.map (·.mapError .final) →
      (∀ number cause, outcome ≠ some (.error (.concurrency number cause))) →
      Retried counting domain delivers key command retries number [trial] trial.transcript outcome
  | exhausted {number trial cause} : trial.IsMade counting domain delivers key command →
      conflictIn? trial.transcript = some cause →
      Retried counting domain delivers key command 0 number [trial] (trial.transcript ++
        [⟨.reached .conflicted key, ()⟩, ⟨.report (.retriesExhausted number), ()⟩])
        (some (.error (.concurrency number cause)))
  | again {retries number trial later rest outcome} :
      trial.IsMade counting domain delivers key command → trial.isLost = true →
      Retried counting domain delivers key command retries (number + 1) later rest outcome →
      Retried counting domain delivers key command (retries + 1) number (trial :: later)
        (trial.transcript ++ ⟨.reached .conflicted key, ()⟩ :: rest) outcome

/-- What is reported in the end when no more attempts are allowed. -/
def exhaustion : Except (StoreError State Command) (CommandResult State E) → Transcript E
  | .error (.concurrency count _) => [⟨.report (.retriesExhausted count), ()⟩]
  | _ => []

theorem exhaustion_eq_nil
    {outcome : Option (Except (StoreError State Command) (CommandResult State E))}
    (h : ∀ count cause, outcome ≠ some (.error (.concurrency count cause))) :
    outcome.elim [] exhaustion = [] := by
  rcases outcome with _ | (_ | _ | _ | _ | _) | _
  case some.error.concurrency count cause => exact absurd rfl (h count cause)
  all_goals rfl

theorem exists_retried {retries number : Nat}
    {outcome : Option (Except (StoreError State Command) (CommandResult State E))}
    (hyields : (counting.attemptUpTo domain delivers key command retries number).Yields transcript
      outcome) :
    ∃ trials, Retried counting domain delivers key command retries number trials transcript
      outcome := by
  induction retries generalizing number transcript with
  | zero =>
    rw [Counting.attemptUpTo] at hyields
    obtain ⟨during, rest, ending, rfl, hattempt, hrest⟩ := yields_bind_iff.1 hyields
    have hmade : Trial.IsMade counting domain delivers key command ⟨during, ending⟩ := hattempt
    obtain ⟨cause, hconflict, rfl⟩ | ⟨hnone, settled, rfl, hsettled⟩ := hmade.tried.ending_cases
    · obtain ⟨_, _, rfl, _, _, rfl, rfl, rfl⟩ := hrest
      exact ⟨_, .exhausted hmade hconflict⟩
    · obtain ⟨rfl, rfl⟩ : rest = [] ∧ settled = outcome := by
        rcases settled with _ | _ | _ <;> exact hrest
      rw [List.append_nil]
      exact ⟨_, .decisive hmade hnone rfl hsettled⟩
  | succ retries ih =>
    rw [Counting.attemptUpTo] at hyields
    obtain ⟨during, rest, ending, rfl, hattempt, hrest⟩ := yields_bind_iff.1 hyields
    have hmade : Trial.IsMade counting domain delivers key command ⟨during, ending⟩ := hattempt
    obtain ⟨cause, hconflict, rfl⟩ | ⟨hnone, settled, rfl, hsettled⟩ := hmade.tried.ending_cases
    · obtain ⟨_, _, rfl, hrest⟩ := hrest
      obtain ⟨later, hlater⟩ := ih hrest
      exact ⟨_, .again hmade (by rw [Trial.isLost, hconflict]; rfl) hlater⟩
    · obtain ⟨rfl, rfl⟩ : rest = [] ∧ settled = outcome := by
        rcases settled with _ | _ | _ <;> exact hrest
      rw [List.append_nil]
      exact ⟨_, .decisive hmade hnone rfl hsettled⟩

namespace Retried

variable {retries number : Nat} {trials : List (Trial State Command E)}
  {outcome : Option (Except (StoreError State Command) (CommandResult State E))}

/-- There is a first attempt, and no more than are allowed. -/
theorem length_bounds
    (h : Retried counting domain delivers key command retries number trials transcript outcome) :
    0 < trials.length ∧ trials.length ≤ retries + 1 := by
  induction h with
  | decisive _ _ _ _ => simp
  | exhausted _ _ => simp
  | again _ _ _ ih =>
    rw [List.length_cons]
    omega

theorem made
    (h : Retried counting domain delivers key command retries number trials transcript outcome) :
    ∀ trial ∈ trials, trial.IsMade counting domain delivers key command := by
  induction h with
  | decisive hmade _ _ _ => exact List.forall_mem_singleton.2 hmade
  | exhausted hmade _ => exact List.forall_mem_singleton.2 hmade
  | again hmade _ _ ih => exact List.forall_mem_cons.2 ⟨hmade, ih⟩

/-- Another attempt follows just when one has lost its race and not all that are allowed were made
by then. -/
theorem goes_on
    (h : Retried counting domain delivers key command retries number trials transcript outcome)
    {earlier later : List (Trial State Command E)} (htrials : trials = earlier ++ trial :: later) :
    later ≠ [] ↔ trial.isLost = true ∧ earlier.length < retries := by
  induction h generalizing earlier with
  | @decisive _ _ only _ _ hnone _ _ =>
    obtain ⟨rfl, rfl, rfl⟩ : earlier = [] ∧ only = trial ∧ later = [] := by
      cases earlier <;> simp_all
    simp [Trial.isLost, hnone]
  | @exhausted _ only _ _ _ =>
    obtain ⟨rfl, rfl, rfl⟩ : earlier = [] ∧ only = trial ∧ later = [] := by
      cases earlier <;> simp_all
    simp
  | again _ hlost hlater ih =>
    cases earlier with
    | nil =>
      obtain ⟨rfl, rfl⟩ := List.cons.inj htrials
      have hnonempty := List.ne_nil_of_length_pos hlater.length_bounds.1
      exact iff_of_true hnonempty ⟨hlost, Nat.zero_lt_succ _⟩
    | cons first earlier =>
      rw [ih (List.cons.inj htrials).2, List.length_cons, Nat.succ_lt_succ_iff]

/-- Only when all attempts that are allowed have lost their races, this is what the command comes
to, with the last conflict as its cause. -/
theorem eq_concurrency_iff
    (h : Retried counting domain delivers key command retries number trials transcript outcome)
    (count : Nat) (cause : RepositoryError) :
    outcome = some (.error (.concurrency count cause)) ↔
      count = number + retries ∧ trials.length = retries + 1 ∧
        (∀ trial ∈ trials, trial.isLost = true) ∧
          (trials.getLast?.bind fun trial => conflictIn? trial.transcript) = some cause := by
  induction h with
  | decisive _ hnone _ hsettled =>
    refine iff_of_false (hsettled count cause) ?_
    rintro ⟨-, -, -, hlast⟩
    simp [hnone] at hlast
  | exhausted _ hconflict =>
    rw [Option.some.injEq, Except.error.injEq, StoreError.concurrency.injEq]
    simp [Trial.isLost, hconflict, @eq_comm _ count]
  | @again _ _ first later _ _ _ hlost hlater ih =>
    have hall : (∀ trial ∈ first :: later, trial.isLost = true) ↔
        ∀ trial ∈ later, trial.isLost = true :=
      List.forall_mem_cons.trans (and_iff_right hlost)
    obtain ⟨next, rest, rfl⟩ := List.exists_cons_of_length_pos hlater.length_bounds.1
    have hlength : (first :: next :: rest).length = (next :: rest).length + 1 := rfl
    rw [ih, hall, hlength, Nat.succ_inj, List.getLast?_cons_cons, Nat.add_assoc, Nat.add_comm 1]

/-- Otherwise the command comes to what its last attempt does. -/
theorem eq_last
    (h : Retried counting domain delivers key command retries number trials transcript outcome) :
    (∃ count cause, outcome = some (.error (.concurrency count cause))) ∨
      ∃ last, trials.getLast? = some last ∧ last.ending = outcome.map (·.mapError .final) := by
  induction h with
  | decisive _ _ hending _ => exact .inr ⟨_, rfl, hending⟩
  | exhausted _ _ => exact .inl ⟨_, _, rfl⟩
  | again _ _ _ ih =>
    refine ih.imp_right ?_
    rintro ⟨last, hlast, hending⟩
    exact ⟨last, by rw [List.getLast?_cons, hlast]; rfl, hending⟩

/-- All that is asked is asked in an attempt, but for the checkpoints of lost races and the report
that no more attempts are allowed. -/
theorem transcript_eq
    (h : Retried counting domain delivers key command retries number trials transcript outcome) :
    transcript = (trials.flatMap fun trial => withCheckpoint key trial.transcript) ++
      outcome.elim [] exhaustion := by
  induction h with
  | decisive _ hnone _ hsettled =>
    rw [exhaustion_eq_nil hsettled]
    simp [withCheckpoint, hnone]
  | exhausted _ hconflict => simp [withCheckpoint, hconflict, exhaustion]
  | again _ hlost _ ih =>
    rw [Trial.isLost] at hlost
    rw [List.flatMap_cons, withCheckpoint, hlost, if_pos rfl, ih]
    simp

/-- Each lost race has its checkpoint, once. -/
theorem countP_isConflicted
    (h : Retried counting domain delivers key command retries number trials transcript outcome) :
    transcript.countP isConflicted = trials.countP Trial.isLost := by
  induction h with
  | decisive hmade hnone _ _ =>
    rw [hmade.tried.conflicted_eq]
    simp [Trial.isLost, hnone]
  | exhausted hmade hconflict =>
    rw [List.countP_append, hmade.tried.conflicted_eq, List.countP_cons_of_pos rfl]
    simp [isConflicted, Trial.isLost, hconflict]
  | again hmade hlost _ ih =>
    rw [List.countP_append, hmade.tried.conflicted_eq, List.countP_cons_of_pos rfl, ih,
      List.countP_cons_of_pos hlost, Nat.zero_add]

end Retried

/-- An attempt that has been made. -/
def Attempt.IsMade (domain : Domain State Command E) (delivers : Bool) (key : AggregateKey)
    (command : Command) (attempt : Attempt State Command E) : Prop :=
  (Store.attempt domain delivers key command).Yields attempt.transcript attempt.ending

/-- Without bounds no attempt counts too far. -/
theorem Trial.IsMade.exists_attempt (hmade : trial.IsMade .unbounded domain delivers key command) :
    ∃ attempt : Attempt State Command E, attempt.IsMade domain delivers key command ∧
      attempt.transcript = trial.transcript := by
  rw [Trial.IsMade, Counting.attempt_unbounded, map_eq_pure_bind] at hmade
  obtain ⟨during, rest, ending, htranscript, hattempt, rfl, -⟩ := yields_bind_iff.1 hmade
  rw [htranscript, List.append_nil]
  exact ⟨⟨during, ending⟩, hattempt, rfl⟩

/-- What a store asks when it processes a command, attempt by attempt. -/
theorem exists_attempts {retries number : Nat}
    {outcome : Except (StoreError State Command) (CommandResult State E)}
    (hyields : (attemptUpTo domain delivers key command retries number).Yields transcript outcome) :
    ∃ attempts : List (Attempt State Command E),
      (∀ attempt ∈ attempts, attempt.IsMade domain delivers key command) ∧
        transcript = attempts.flatMap (Attempt.reported key) ++ exhaustion outcome := by
  have hcounted : (Counting.unbounded.attemptUpTo domain delivers key command retries
      number).Yields transcript (some outcome) := by
    rw [Counting.attemptUpTo_unbounded, map_eq_pure_bind]
    exact yields_bind_iff.2 ⟨transcript, [], outcome, (List.append_nil _).symm, hyields, rfl, rfl⟩
  obtain ⟨trials, hretried⟩ := exists_retried hcounted
  have hattempts : ∃ attempts : List (Attempt State Command E),
      (∀ attempt ∈ attempts, attempt.IsMade domain delivers key command) ∧
        attempts.map (·.transcript) = trials.map (·.transcript) := by
    have hmade := hretried.made
    clear hretried
    induction trials with
    | nil => exact ⟨[], List.forall_mem_nil _, rfl⟩
    | cons trial trials ih =>
      obtain ⟨hfirst, hothers⟩ := List.forall_mem_cons.1 hmade
      obtain ⟨attempt, hattempt, htranscript⟩ := hfirst.exists_attempt
      obtain ⟨attempts, hall, htranscripts⟩ := ih hothers
      refine ⟨attempt :: attempts, List.forall_mem_cons.2 ⟨hattempt, hall⟩, ?_⟩
      rw [List.map_cons, List.map_cons, htranscript, htranscripts]
  obtain ⟨attempts, hmade, htranscripts⟩ := hattempts
  refine ⟨attempts, hmade, ?_⟩
  have hparts := congrArg (List.flatMap (withCheckpoint key)) htranscripts
  rw [List.flatMap_map, List.flatMap_map] at hparts
  rw [hretried.transcript_eq, ← hparts]
  rfl

/-- However the requests of a command are answered, it comes to an end after as many attempts as
the configuration allows or fewer, each of which goes in one of the known ways and appends once at
most. Another one is made just when the append of the one before was answered with a conflict and
the configuration allows it. If all attempts that are allowed have met conflicts, that is what the
command comes to, with the last one as its cause; otherwise it comes to what its last attempt does,
which is nothing if the positions behind its stream have run out. Every attempt that has met a
conflict is reported by one checkpoint. -/
theorem processCommand_attempts (counting : Counting) (domain : Domain State Command E)
    (config : StoreConfig) (delivers : Bool) (key : AggregateKey) (command : Command)
    (behaviour : Transcript E → (request : Request E) → request.Reply) :
    ∃ (trials : List (Trial State Command E)) (transcript : Transcript E)
      (outcome : Option (Except (StoreError State Command) (CommandResult State E))),
      (counting.processCommand domain config delivers key command).alone
          (recording behaviour) [] = (outcome, transcript) ∧
        0 < trials.length ∧ trials.length ≤ config.maxAttempts ∧
        (∀ trial ∈ trials, Tried counting domain key command trial ∧
          trial.transcript.countP isAppend ≤ 1) ∧
        (∀ earlier trial later, trials = earlier ++ trial :: later →
          (later ≠ [] ↔ trial.isLost = true ∧ earlier.length + 1 < config.maxAttempts)) ∧
        (∀ count cause, outcome = some (.error (.concurrency count cause)) ↔
          count = config.maxAttempts ∧ trials.length = config.maxAttempts ∧
            (∀ trial ∈ trials, trial.isLost = true) ∧
              (trials.getLast?.bind fun trial => conflictIn? trial.transcript) = some cause) ∧
        ((∃ count cause, outcome = some (.error (.concurrency count cause))) ∨
          ∃ last, trials.getLast? = some last ∧
            last.ending = outcome.map (·.mapError .final)) ∧
        transcript = (trials.flatMap fun trial => withCheckpoint key trial.transcript) ++
          outcome.elim [] exhaustion ∧
        transcript.countP isConflicted = trials.countP Trial.isLost := by
  obtain ⟨transcript, outcome, hrun, hyields⟩ :=
    exists_yields behaviour (counting.processCommand domain config delivers key command) []
  obtain ⟨trials, hretried⟩ := exists_retried hyields
  obtain ⟨hfirst, hlast⟩ := hretried.length_bounds
  refine ⟨trials, transcript, outcome, hrun, hfirst, hlast, ?_, ?_, ?_, hretried.eq_last,
    hretried.transcript_eq, hretried.countP_isConflicted⟩
  · intro trial hmem
    have htried := (hretried.made trial hmem).tried
    exact ⟨htried, htried.appends_le⟩
  · intro earlier trial later htrials
    rw [hretried.goes_on htrials, StoreConfig.maxAttempts, Nat.succ_lt_succ_iff]
  · intro count cause
    rw [hretried.eq_concurrency_iff count cause, Nat.add_comm 1]
    exact Iff.rfl

/-- An aggregate that appends the digits of its events to a number. A command adds one event, the
number so far with the command's own digit. -/
def digits : Domain Nat Nat Nat where
  fresh _ := some 0
  apply state event := 10 * state + event
  processor _ := some fun command state => .ok (.success [state + command])
  commandId command := ⟨BitVec.ofNat 128 command⟩

def digitsKey : AggregateKey where
  type := ⟨"Digits", by constructor <;> simp <;> decide, by decide, by decide⟩
  id := ⟨"d1", by constructor <;> simp <;> decide, by decide, by decide⟩

/-- The events of someone else. -/
def rivals : List (RecordedEvent Nat) :=
  [⟨digitsKey, 1, 4, ⟨90⟩⟩, ⟨digitsKey, 2, 2, ⟨90⟩⟩]

/-- Someone else appends two events behind the first listing, and the first append meets a
conflict. -/
def overtaking (past : Transcript Nat) : (request : Request Nat) → request.Reply
  | .listEvents _ => .ok (if past.isEmpty then [] else rivals)
  | .appendEvents key _ => if past.length < 3 then .error (.optimisticConcurrency key) else .ok ()
  | .scheduleDelivery => .ok ()
  | .reached _ _ => ()
  | .report _ => ()

/-- What is asked then: the second decision is made on the stream with the events of someone
else. -/
def overtakenTranscript : Transcript Nat :=
  appending digitsKey [] [⟨digitsKey, 1, 5, ⟨5⟩⟩] (.error (.optimisticConcurrency digitsKey)) ++
    ⟨.reached .conflicted digitsKey, ()⟩ ::
      (appending digitsKey rivals [⟨digitsKey, 3, 47, ⟨5⟩⟩] (.ok ()) ++
        [⟨.reached .appended digitsKey, ()⟩, ⟨.scheduleDelivery, .ok ()⟩,
          ⟨.reached .published digitsKey, ()⟩])

theorem processCommand_attempts_of_overtaken :
    ∃ trials : List (Trial Nat Nat Nat),
      (Counting.words.processCommand digits .standard true digitsKey 5).alone
          (recording overtaking) [] =
        (some (.ok ⟨3, [⟨digitsKey, 3, 47, ⟨5⟩⟩], 467, false⟩), overtakenTranscript) ∧
      (∀ trial ∈ trials, Tried .words digits digitsKey 5 trial) ∧
      trials.countP Trial.isLost = 1 ∧
      ∃ last, trials.getLast? = some last ∧
        last.ending = some (.ok ⟨3, [⟨digitsKey, 3, 47, ⟨5⟩⟩], 467, false⟩) := by
  obtain ⟨trials, transcript, outcome, hrun, -, -, htried, -, -, hlast, -, hconflicted⟩ :=
    processCommand_attempts .words digits .standard true digitsKey 5 overtaking
  have hcomputed : (Counting.words.processCommand digits .standard true digitsKey 5).alone
      (recording overtaking) [] =
        (some (.ok ⟨3, [⟨digitsKey, 3, 47, ⟨5⟩⟩], 467, false⟩), overtakenTranscript) := by
    -- The first attempt loses its race, and the second one judges what is listed then.
    change (Counting.words.attemptUpTo digits true digitsKey 5 10 1).alone _ _ = _
    unfold Counting.attemptUpTo
    change (Counting.words.attemptUpTo digits true digitsKey 5 9 2).alone _ _ = _
    unfold Counting.attemptUpTo
    rfl
  obtain ⟨rfl, rfl⟩ := Prod.mk.inj (hrun.symm.trans hcomputed)
  refine ⟨trials, hcomputed, fun trial hmem => (htried trial hmem).1, hconflicted.symm, ?_⟩
  rcases hlast with ⟨count, cause, houtcome⟩ | hlast
  · cases houtcome
  · exact hlast

/-- The stream ends at the last position of 64 bits. -/
def fullUp : (request : Request Nat) → request.Reply
  | .listEvents _ => .ok [⟨digitsKey, 18446744073709551615, 4, ⟨90⟩⟩]
  | .appendEvents _ _ => .ok ()
  | .scheduleDelivery => .ok ()
  | .reached _ _ => ()
  | .report _ => ()

example : ((Counting.words.processCommand digits .standard true digitsKey 5).alone
    (recording fun _ => fullUp) []).1 = none := by
  unfold Counting.processCommand Counting.attemptUpTo
  rfl

example : ((Counting.wrapping.processCommand digits .standard true digitsKey 5).alone
    (recording fun _ => fullUp) []).1 =
      some (.ok ⟨0, [⟨digitsKey, 0, 9, ⟨5⟩⟩], 49, false⟩) := by
  unfold Counting.processCommand Counting.attemptUpTo
  rfl

end EventSourcing.Store
