import EventSourcing.Proofs.Repository.Reporting

namespace EventSourcing.Repository

open Interleaving Program

variable {E : Type} {config : RepositoryConfig} {key : AggregateKey}
  {batch : List (RecordedEvent E)} {transcript : Transcript E} {outcome : Result Unit}

/-- A swap of a window or of an index that has succeeded, or anything else. -/
def IsUncontested : Exchange (Request.Reply (E := E)) → Prop
  | ⟨.windows (.compareAndSwap _ _ _), swapped⟩ => swapped = true
  | ⟨.indexes (.compareAndSwap _ _ _), swapped⟩ => swapped = true
  | _ => True

/-- The window is met that the range up to `last` is to be announced in, or a window for that range
is opened. -/
def meeting (key : AggregateKey) (tail last : SequenceId) (found : Snapshot Window × Bool) :
    Transcript E :=
  [⟨.reached .markUndeliveredStarted key, ()⟩,
    ⟨.windows (.getOrInsert key (.opened (tail + 1) last)), found⟩]

/-- The window that was met is replaced. -/
def widening (key : AggregateKey) (current : Snapshot Window) (first last : SequenceId) :
    Exchange (Request.Reply (E := E)) :=
  ⟨.windows (.compareAndSwap key current (current.value.widened first last)), true⟩

/-- How the range from right behind `tail` to `last` is announced in one pass. -/
inductive Announcing (key : AggregateKey) (tail last : SequenceId) :
    Transcript E → Result Unit → Prop
  | opened {window} : Announcing key tail last (meeting key tail last (window, true)) (.ok ())
  /-- The window reaches further than the batch and is left as it is. -/
  | kept {current} : last < current.value.last → ¬ current.value.isSpeculative tail = true →
      Announcing key tail last (meeting key tail last (current, false) ++
        [⟨.reached .undeliveredWindowKept key, ()⟩]) (.ok ())
  | shutOut {current} : Announcing key tail last (meeting key tail last (current, false))
      (.error (.beforeWindow (tail + 1) current.value.first))
  | widened {current} :
      ¬ (last < current.value.last ∧ ¬ current.value.isSpeculative tail = true) →
      current.value.first ≤ tail + 1 →
      Announcing key tail last (meeting key tail last (current, false) ++
        [widening key current (tail + 1) last]) (.ok ())

/-- How a batch that has been committed to a log that ended at `tail` gets its aggregate into the
index of the type. -/
inductive Enrolling (key : AggregateKey) (tail : SequenceId) : Transcript E → Result Unit → Prop
  /-- The aggregate has been there before. -/
  | known : tail ≠ 0 → Enrolling key tail [] (.ok ())
  | duplicate {found} : tail = 0 →
      Enrolling key tail [⟨.indexes (.getOrInsert key.type .empty), found⟩]
        (.error (.duplicateId key))
  | enrolled {found} : tail = 0 → key.id ∉ found.1.value.ids →
      Enrolling key tail [⟨.indexes (.getOrInsert key.type .empty), found⟩,
        ⟨.indexes (.compareAndSwap key.type found.1 (found.1.value.insert key.id)), true⟩] (.ok ())

/-- How an append goes if no swap of a window or an index fails. -/
inductive Straight (key : AggregateKey) (batch : List (RecordedEvent E)) :
    Transcript E → Result Unit → Prop
  | empty : batch = [] → Straight key batch [] (.ok ())
  | faulty {argument detail} : batch ≠ [] → (∀ first, ¬ IsBatch key first batch) →
      Straight key batch [] (.error (.invalidArgument argument detail))
  | gap {found first} : IsBatch key first batch → found.1.value.tail + 1 < first →
      Straight key batch [⟨.logs (.getOrInsert key .empty), found⟩]
        (.error (.gap (found.1.value.tail + 1) first))
  | stale {found first} : IsBatch key first batch → first ≤ found.1.value.tail →
      Straight key batch (validated key found ++ [⟨.reached .appendConflicted key, ()⟩])
        (.error (.optimisticConcurrency key))
  | shutOut {found announcing error} : IsBatch key (found.1.value.tail + 1) batch →
      Announcing key found.1.value.tail (found.1.value.tail + batch.length) announcing
        (.error error) →
      Straight key batch (validated key found ++ announcing) (.error error)
  | lost {found announcing} : IsBatch key (found.1.value.tail + 1) batch →
      Announcing key found.1.value.tail (found.1.value.tail + batch.length) announcing (.ok ()) →
      Straight key batch (validated key found ++ (announcing ++ (raced key found.1 batch false ++
        [⟨.reached .appendConflicted key, ()⟩]))) (.error (.optimisticConcurrency key))
  | won {found announcing enrolling outcome} : IsBatch key (found.1.value.tail + 1) batch →
      Announcing key found.1.value.tail (found.1.value.tail + batch.length) announcing (.ok ()) →
      Enrolling key found.1.value.tail enrolling outcome →
      Straight key batch (validated key found ++ (announcing ++ (raced key found.1 batch true ++
        ⟨.reached .appendCommitted key, ()⟩ :: enrolling))) outcome

private theorem Announcing.of_widenWindow {tail last : SequenceId} {passes : Nat}
    (huncontested : ∀ exchange ∈ transcript, IsUncontested exchange)
    (hyields : (widenWindow key tail (tail + 1) last (passes + 1) .markUndeliveredStarted).Yields
      transcript outcome) : Announcing key tail last transcript outcome := by
  rw [widenWindow] at hyields
  obtain ⟨_, _, rfl, hpass⟩ := yields_request_bind_iff.1 hyields
  obtain ⟨⟨current, inserted⟩, rest, rfl, hrest⟩ := yields_request_bind_iff.1 hpass
  dsimp only at hrest
  split at hrest
  · next hinserted =>
    obtain ⟨rfl, rfl⟩ := hrest
    rw [hinserted]
    exact .opened
  next hinserted =>
  obtain rfl := Bool.eq_false_iff.2 hinserted
  split at hrest
  · next hkept =>
    simp only [Bool.and_eq_true, decide_eq_true_eq, Bool.not_eq_true'] at hkept
    obtain ⟨_, _, rfl, rfl, rfl⟩ := hrest
    exact .kept hkept.1 (by simp [hkept.2])
  next hkept =>
  simp only [Bool.and_eq_true, decide_eq_true_eq, Bool.not_eq_true', ← Bool.not_eq_true] at hkept
  split at hrest
  · obtain ⟨rfl, rfl⟩ := hrest
    exact .shutOut
  · next hfirst =>
    obtain ⟨swapped, late, rfl, hlate⟩ := yields_request_bind_iff.1 hrest
    obtain rfl : swapped = true := huncontested
      ⟨.windows (.compareAndSwap key current (current.value.widened (tail + 1) last)), swapped⟩
      (by simp)
    obtain ⟨rfl, rfl⟩ := hlate
    exact .widened hkept (Nat.le_of_not_lt hfirst)

private theorem Announcing.of_markUndelivered {tail last : SequenceId} (hle : tail + 1 ≤ last)
    (huncontested : ∀ exchange ∈ transcript, IsUncontested exchange)
    (hyields : (markUndelivered config key tail (tail + 1) last).Yields transcript outcome) :
    Announcing key tail last transcript outcome := by
  have hrange : ¬ (decide (last < tail + 1) || decide (tail + 1 ≤ tail)) = true := by
    simp only [Bool.or_eq_true, decide_eq_true_eq]
    lia
  rw [markUndelivered, if_neg hrange] at hyields
  obtain ⟨passes, hpasses⟩ := config.liveLockLimit.exists_value_eq_succ
  rw [hpasses] at hyields
  exact Announcing.of_widenWindow huncontested hyields

private theorem enrolling_of_addToIndex {passes : Nat}
    (huncontested : ∀ exchange ∈ transcript, IsUncontested exchange)
    (hyields : (addToIndex key (passes + 1)).Yields transcript outcome) :
    Enrolling key 0 transcript outcome := by
  rw [addToIndex] at hyields
  obtain ⟨⟨current, inserted⟩, rest, rfl, hrest⟩ := yields_request_bind_iff.1 hyields
  dsimp only at hrest
  split at hrest
  · obtain ⟨rfl, rfl⟩ := hrest
    exact .duplicate rfl
  · next habsent =>
    obtain ⟨swapped, late, rfl, hlate⟩ := yields_request_bind_iff.1 hrest
    obtain rfl : swapped = true := huncontested
      ⟨.indexes (.compareAndSwap key.type current (current.value.insert key.id)), swapped⟩ (by simp)
    obtain ⟨rfl, rfl⟩ := hlate
    exact .enrolled rfl habsent

private theorem enrolling_of_conclude {tail : SequenceId}
    (huncontested : ∀ exchange ∈ transcript, IsUncontested exchange)
    (hyields : (conclude config key (tail == 0) true).Yields transcript outcome) :
    ∃ enrolling, transcript = ⟨.reached .appendCommitted key, ()⟩ :: enrolling ∧
      Enrolling key tail enrolling outcome := by
  obtain ⟨_, enrolling, rfl, hindexing⟩ := hyields
  refine ⟨enrolling, rfl, ?_⟩
  change (if _ then _ else _ : Operation E (Result Unit)).Yields enrolling outcome at hindexing
  split at hindexing
  · next hnew =>
    obtain rfl : tail = 0 := by simpa using hnew
    obtain ⟨passes, hpasses⟩ := config.liveLockLimit.exists_value_eq_succ
    rw [hpasses] at hindexing
    exact enrolling_of_addToIndex (List.forall_mem_cons.1 huncontested).2 hindexing
  · next hold =>
    obtain ⟨rfl, rfl⟩ := hindexing
    exact .known (by simpa using hold)

private theorem straight_of_appendChecked {first : SequenceId} (hbatch : IsBatch key first batch)
    (huncontested : ∀ exchange ∈ transcript, IsUncontested exchange)
    (hyields : (appendChecked config key first (first + (batch.length - 1)) batch).Yields transcript
      outcome) : Straight key batch transcript outcome := by
  unfold appendChecked at hyields
  obtain ⟨⟨seen, inserted⟩, _, rfl, hread⟩ := yields_request_bind_iff.1 hyields
  dsimp only at hread
  split at hread
  · next hgap =>
    obtain ⟨rfl, rfl⟩ := hread
    exact .gap hbatch hgap
  next hgap =>
  obtain ⟨_, rest, rfl, hrest⟩ := yields_request_bind_iff.1 hread
  unfold commit at hrest
  split at hrest
  · next hstale =>
    obtain ⟨_, _, rfl, rfl, rfl⟩ := hrest
    exact .stale hbatch hstale
  next hstale =>
  obtain rfl : first = seen.value.tail + 1 := by lia
  have hlast : seen.value.tail + 1 + (batch.length - 1) = seen.value.tail + batch.length := by
    have hpos := List.length_pos_iff.2 hbatch.ne_nil
    lia
  obtain ⟨committing, concluding, committed, rfl, hcommitting, hconcluding⟩ :=
    yields_bind_iff.1 hrest
  obtain ⟨announcing, racing, announced, rfl, hannouncing, hracing⟩ :=
    yields_bind_iff.1 hcommitting
  simp only [List.forall_mem_cons, List.forall_mem_append] at huncontested
  obtain ⟨-, -, ⟨hswaps, -⟩, hlate⟩ := huncontested
  have hwindow := Announcing.of_markUndelivered (Nat.le_add_right _ _) hswaps hannouncing
  rw [hlast] at hwindow
  cases announced with
  | error error =>
    obtain ⟨rfl, rfl⟩ := hracing
    obtain ⟨rfl, rfl⟩ := hconcluding
    rw [List.append_nil, List.append_nil]
    exact .shutOut hbatch hwindow
  | ok _ =>
    obtain ⟨_, _, rfl, swapped, _, rfl, rfl, rfl⟩ := hracing
    cases swapped with
    | false =>
      obtain ⟨_, _, rfl, rfl, rfl⟩ := hconcluding
      rw [List.append_assoc]
      exact .lost hbatch hwindow
    | true =>
      obtain ⟨enrolling, rfl, henrolling⟩ := enrolling_of_conclude hlate hconcluding
      rw [List.append_assoc]
      exact .won hbatch hwindow henrolling

/-- An append whose swaps of windows and indexes all succeed makes one pass over each loop. -/
theorem straight_of_yields (config : RepositoryConfig)
    (huncontested : ∀ exchange ∈ transcript, IsUncontested exchange)
    (hyields : (append config key batch).Yields transcript outcome) :
    Straight key batch transcript outcome := by
  by_cases hne : batch = []
  · subst hne
    obtain ⟨rfl, rfl⟩ := hyields
    exact .empty rfl
  by_cases hbatch : ∃ first, IsBatch key first batch
  · obtain ⟨first, hbatch⟩ := hbatch
    rw [append_of_isBatch config hbatch] at hyields
    exact straight_of_appendChecked hbatch huncontested hyields
  · have hnot : ∀ first, ¬ IsBatch key first batch := fun first h => hbatch ⟨first, h⟩
    cases batch with
    | nil => exact absurd rfl hne
    | cons event rest =>
      cases hfault : batchFault? key event rest with
      | none => exact absurd ((batchFault?_eq_none_iff key event rest).1 hfault) (hnot _)
      | some fault =>
        simp only [append, hfault] at hyields
        obtain ⟨rfl, rfl⟩ := hyields
        obtain ⟨argument, detail, rfl⟩ := exists_of_batchFault?_eq_some hfault
        exact .faulty hne hnot

/-- A request to the windows. -/
def isOfWindows : Exchange (Request.Reply (E := E)) → Bool
  | ⟨.windows _, _⟩ => true
  | _ => false

/-- What is true of some item of a list, and of none at the beginning and the end of the list, is
true of an item in the middle. -/
private theorem exists_inside {α : Type} {p : α → Bool} {first mid last early late : List α}
    {item : α} (hsplit : first ++ (mid ++ last) = early ++ item :: late)
    (hfirst : ∀ other ∈ first, p other = false) (hlast : ∀ other ∈ last, p other = false)
    (hitem : p item = true) : ∃ before after, early = first ++ before ∧
      mid = before ++ item :: after := by
  have hnotFirst : item ∉ first := fun hmem => by simp [hfirst item hmem] at hitem
  have hnotLast : item ∉ last := fun hmem => by simp [hlast item hmem] at hitem
  rcases List.append_eq_append_iff.1 hsplit with ⟨before, rfl, hrest⟩ | ⟨between, rfl, hrest⟩
  · rcases List.append_eq_append_iff.1 hrest with ⟨between, rfl, hend⟩ | ⟨between, rfl, hend⟩
    · exact absurd (hend ▸ List.mem_append_right _ List.mem_cons_self) hnotLast
    · cases between with
      | nil =>
        obtain rfl : item :: late = last := hend
        exact absurd List.mem_cons_self hnotLast
      | cons other after =>
        obtain ⟨rfl, -⟩ := List.cons.inj hend
        exact ⟨before, after, rfl, rfl⟩
  · cases between with
    | nil =>
      cases mid with
      | nil =>
        obtain rfl : item :: late = last := hrest
        exact absurd List.mem_cons_self hnotLast
      | cons other after =>
        obtain ⟨rfl, -⟩ := List.cons.inj hrest
        exact ⟨[], after, by simp, rfl⟩
    | cons other between =>
      obtain ⟨rfl, -⟩ := List.cons.inj hrest
      exact absurd (List.mem_append_right _ List.mem_cons_self) hnotFirst

namespace Announcing

variable {tail last : SequenceId} {announcing early late : Transcript E} {result : Result Unit}
  {exchange : Exchange (Request.Reply (E := E))}

private theorem windows_of_meeting {found : Snapshot Window × Bool} {more : Transcript E}
    (hsplit : early ++ exchange :: late = meeting key tail last found ++ more)
    (hwindows : isOfWindows exchange = true) :
    (early = [⟨.reached .markUndeliveredStarted key, ()⟩] ∧
      exchange = ⟨.windows (.getOrInsert key (.opened (tail + 1) last)), found⟩) ∨
      ∃ before, early = meeting key tail last found ++ before ∧
        more = before ++ exchange :: late := by
  rcases early with - | ⟨first, - | ⟨second, early⟩⟩
  · obtain ⟨rfl, -⟩ := List.cons.inj hsplit
    cases hwindows
  · obtain ⟨rfl, hrest⟩ := List.cons.inj hsplit
    exact .inl ⟨rfl, (List.cons.inj hrest).1⟩
  · obtain ⟨rfl, hrest⟩ := List.cons.inj hsplit
    obtain ⟨rfl, hmore⟩ := List.cons.inj hrest
    exact .inr ⟨early, rfl, hmore.symm⟩

/-- A window is met, and then it may be replaced. -/
theorem windows_at (hannouncing : Announcing key tail last (early ++ exchange :: late) result)
    (hwindows : isOfWindows exchange = true) :
    (early = [⟨.reached .markUndeliveredStarted key, ()⟩] ∧ ∃ found,
        exchange = ⟨.windows (.getOrInsert key (.opened (tail + 1) last)), found⟩) ∨
      ∃ current, early = meeting key tail last (current, false) ∧
        exchange = widening key current (tail + 1) last ∧
        ¬ (last < current.value.last ∧ ¬ current.value.isSpeculative tail = true) ∧
        current.value.first ≤ tail + 1 := by
  generalize htranscript : early ++ exchange :: late = announcing at hannouncing
  cases hannouncing with
  | opened | shutOut =>
    rw [← List.append_nil (meeting key tail last _)] at htranscript
    rcases windows_of_meeting htranscript hwindows with ⟨rfl, hmet⟩ | ⟨before, -, hnil⟩
    · exact .inl ⟨rfl, _, hmet⟩
    · simp at hnil
  | kept =>
    rcases windows_of_meeting htranscript hwindows with ⟨rfl, hmet⟩ | ⟨before, -, hkept⟩
    · exact .inl ⟨rfl, _, hmet⟩
    · cases before with
      | nil =>
        obtain ⟨rfl, -⟩ := List.cons.inj hkept
        cases hwindows
      | cons _ before => simp at hkept
  | widened hkept hfirst =>
    rcases windows_of_meeting htranscript hwindows with ⟨rfl, hmet⟩ | ⟨before, rfl, hwidening⟩
    · exact .inl ⟨rfl, _, hmet⟩
    · cases before with
      | nil =>
        obtain ⟨rfl, -⟩ := List.cons.inj hwidening
        exact .inr ⟨_, List.append_nil _, rfl, hkept, hfirst⟩
      | cons _ before => simp at hwidening

theorem not_isCommit (hannouncing : Announcing key tail last announcing result) :
    ∀ exchange ∈ announcing, isCommit exchange = false := by
  cases hannouncing <;> simp [meeting, widening, isCommit]

end Announcing

namespace Straight

theorem windows_cases (hstraight : Straight key batch transcript outcome) :
    (∀ exchange ∈ transcript, isOfWindows exchange = false) ∨ ∃ found announcing result rest,
      IsBatch key (found.1.value.tail + 1) batch ∧
      Announcing key found.1.value.tail (found.1.value.tail + batch.length) announcing result ∧
      transcript = validated key found ++ (announcing ++ rest) ∧
      ∀ exchange ∈ rest, isOfWindows exchange = false := by
  cases hstraight with
  | empty | faulty => simp
  | gap => simp [isOfWindows]
  | stale => simp [validated, isOfWindows]
  | shutOut hbatch hannouncing =>
    exact .inr ⟨_, _, _, [], hbatch, hannouncing, by simp, by simp⟩
  | lost hbatch hannouncing =>
    exact .inr ⟨_, _, _, _, hbatch, hannouncing, rfl, by simp [raced, isOfWindows]⟩
  | won hbatch hannouncing henrolling =>
    refine .inr ⟨_, _, _, _, hbatch, hannouncing, rfl, ?_⟩
    cases henrolling <;> simp [raced, isOfWindows]

theorem commit_cases (hstraight : Straight key batch transcript outcome) :
    (∀ exchange ∈ transcript, isCommit exchange = false) ∨ ∃ found announcing enrolling,
      IsBatch key (found.1.value.tail + 1) batch ∧
      Announcing key found.1.value.tail (found.1.value.tail + batch.length) announcing (.ok ()) ∧
      transcript = validated key found ++ (announcing ++ (raced key found.1 batch true ++
        ⟨.reached .appendCommitted key, ()⟩ :: enrolling)) ∧
      ∀ exchange ∈ enrolling, isCommit exchange = false := by
  cases hstraight with
  | empty | faulty => simp
  | gap => simp [isCommit]
  | stale => simp [validated, isCommit]
  | shutOut hbatch hannouncing =>
    refine .inl (List.forall_mem_append.2 ⟨?_, hannouncing.not_isCommit⟩)
    simp [validated, isCommit]
  | lost hbatch hannouncing =>
    refine .inl (List.forall_mem_append.2 ⟨?_, List.forall_mem_append.2
      ⟨hannouncing.not_isCommit, ?_⟩⟩)
    · simp [validated, isCommit]
    · simp [raced, isCommit]
  | won hbatch hannouncing henrolling =>
    refine .inr ⟨_, _, _, hbatch, hannouncing, rfl, ?_⟩
    cases henrolling <;> simp [isCommit]

end Straight

section Run

variable {moment : Moment E} {id : Nat}

/-- Nobody comes in the way when an append replaces a window or an index. -/
theorem Reachable.uncontested (hreach : Reachable config moment)
    (hbegun : ∃ action, ⟨id, .append key batch, action⟩ ∈ moment.world.history) :
    ∀ exchange ∈ exchangesOf id moment.world.history, IsUncontested exchange := by
  obtain ⟨action, hbegun⟩ := hbegun
  rintro ⟨request, reply⟩ hmem
  obtain ⟨call, hentry⟩ := exists_of_mem_exchangesOf hmem
  obtain rfl : call = .append key batch := System.Reaches.call_eq hreach hentry hbegun rfl
  obtain ⟨before, after, hsplit⟩ := List.append_of_mem hentry
  have hfaithful := hreach.faithful hsplit request reply rfl
  obtain ⟨hstep, -⟩ :
      AppendStep id key batch (History.world before) (.answered request reply) ∧ _ :=
    hreach.warranted hsplit
  cases hstep with
  | readLog | meetWindow | commit | lookUp | reached => trivial
  | widen _ hcurrent =>
    have hswap := SnapshotMap.isCurrent_of_get? hcurrent
    exact hfaithful.trans (congrArg Prod.fst (answer_swapWindow hswap _))
  | enrol _ hcurrent _ =>
    have hswap := SnapshotMap.isCurrent_of_get? hcurrent
    exact hfaithful.trans (congrArg Prod.fst (answer_swapIndex hswap _))

theorem Reachable.straight (hreach : Reachable config moment)
    (hreturned : ⟨id, .append key batch, .returned outcome⟩ ∈ moment.world.history) :
    Straight key batch (exchangesOf id moment.world.history) outcome :=
  straight_of_yields config (hreach.uncontested ⟨_, hreturned⟩)
    (System.Reaches.yields hreach hreturned)

/-- An append that has begun is going straight. -/
theorem Reachable.exists_straight (hreach : Reachable config moment)
    {action : (Call.append key batch).Action}
    (hbegun : ⟨id, .append key batch, action⟩ ∈ moment.world.history) :
    ∃ later outcome rest, Reachable config later ∧ (calls config).Reaches moment later ∧
      ⟨id, .append key batch, .returned outcome⟩ ∈ later.world.history ∧
        later.world.history = moment.world.history ++ rest ∧
          Straight key batch (exchangesOf id later.world.history) outcome := by
  obtain ⟨later, outcome, hlater, hreturned⟩ := System.Reaches.exists_returned hreach hbegun
  have hreach' : Reachable config later := System.Reaches.trans hreach hlater
  obtain ⟨rest, hhistory⟩ := hlater.history_extends
  exact ⟨later, outcome, rest, hreach', hlater, hreturned, hhistory.symm,
    hreach'.straight hreturned⟩

section Split

variable {before after : History E} {request : Request E} {reply : request.Reply}
  (hreach : Reachable config moment)
  (hsplit : moment.world.history =
    before ++ ⟨id, .append key batch, .answered request reply⟩ :: after)

include hreach hsplit

private theorem Reachable.straight_at : ∃ late outcome,
    Straight key batch (exchangesOf id before ++ ⟨request, reply⟩ :: late) outcome := by
  have hentry : ⟨id, .append key batch, .answered request reply⟩ ∈ moment.world.history := by
    simp [hsplit]
  obtain ⟨later, outcome, rest, -, -, -, hhistory, hstraight⟩ := hreach.exists_straight hentry
  rw [hhistory, hsplit, List.append_assoc, List.cons_append, exchangesOf_append,
    exchangesOf_cons_answered] at hstraight
  exact ⟨_, outcome, hstraight⟩

/-- What an append has been told when it asks for something of the windows. -/
theorem Reachable.windows_step (hwindows : isOfWindows ⟨request, reply⟩ = true) :
    ∃ found, IsBatch key (found.1.value.tail + 1) batch ∧
      ((exchangesOf id before = validated key found ++
          [⟨.reached .markUndeliveredStarted key, ()⟩] ∧ ∃ met, ⟨request, reply⟩ =
        (⟨.windows (.getOrInsert key (.opened (found.1.value.tail + 1)
          (found.1.value.tail + batch.length))), met⟩ : Exchange (Request.Reply (E := E)))) ∨
      ∃ current, exchangesOf id before = validated key found ++
          meeting key found.1.value.tail (found.1.value.tail + batch.length) (current, false) ∧
        ⟨request, reply⟩ = widening key current (found.1.value.tail + 1)
          (found.1.value.tail + batch.length) ∧
        ¬ (found.1.value.tail + batch.length < current.value.last ∧
          ¬ current.value.isSpeculative found.1.value.tail = true) ∧
        current.value.first ≤ found.1.value.tail + 1) := by
  obtain ⟨late, outcome, hstraight⟩ := hreach.straight_at hsplit
  rcases hstraight.windows_cases with
    hnone | ⟨found, announcing, result, rest, hbatch, hannouncing, heq, hrest⟩
  · simp [hnone ⟨request, reply⟩ (by simp)] at hwindows
  · obtain ⟨early, between, hearly, rfl⟩ := exists_inside heq.symm
      (by simp [validated, isOfWindows]) hrest hwindows
    refine ⟨found, hbatch, ?_⟩
    rcases hannouncing.windows_at hwindows with ⟨rfl, hmet⟩ | ⟨current, rfl, hwidening⟩
    · exact .inl ⟨hearly, hmet⟩
    · exact .inr ⟨current, hearly, hwidening⟩

/-- What an append has been told when it commits. -/
theorem Reachable.commit_step (hcommit : isCommit ⟨request, reply⟩ = true) :
    ∃ found announcing, IsBatch key (found.1.value.tail + 1) batch ∧
      Announcing key found.1.value.tail (found.1.value.tail + batch.length) announcing (.ok ()) ∧
      exchangesOf id before = validated key found ++
        (announcing ++ [⟨.reached .appendMarkedUndelivered key, ()⟩]) ∧
      (⟨request, reply⟩ : Exchange (Request.Reply (E := E))) =
        ⟨.logs (.compareAndSwap key found.1 (found.1.value.append batch)), true⟩ := by
  obtain ⟨late, outcome, hstraight⟩ := hreach.straight_at hsplit
  rcases hstraight.commit_cases with
    hnone | ⟨found, announcing, enrolling, hbatch, hannouncing, heq, henrolling⟩
  · simp [hnone ⟨request, reply⟩ (by simp)] at hcommit
  · have hprior : ∀ exchange ∈ validated key found ++
        (announcing ++ [⟨.reached .appendMarkedUndelivered key, ()⟩]),
          isCommit exchange = false := by
      refine List.forall_mem_append.2 ⟨by simp [validated, isCommit], List.forall_mem_append.2
        ⟨hannouncing.not_isCommit, by simp [isCommit]⟩⟩
    have hlater : ∀ exchange ∈ ⟨.reached .appendCommitted key, ()⟩ :: enrolling,
        isCommit exchange = false :=
      List.forall_mem_cons.2 ⟨rfl, henrolling⟩
    have hcommitted : exchangesOf id before ++ ⟨request, reply⟩ :: late =
        (validated key found ++ (announcing ++ [⟨.reached .appendMarkedUndelivered key, ()⟩])) ++
          ⟨.logs (.compareAndSwap key found.1 (found.1.value.append batch)), true⟩ ::
            ⟨.reached .appendCommitted key, ()⟩ :: enrolling := by
      simp [heq, Repository.raced]
    obtain ⟨hearly, hexchange, -⟩ := append_cons_unique hcommitted hprior hlater hcommit
    exact ⟨found, announcing, hbatch, hannouncing, hearly, hexchange⟩

end Split

end Run

end EventSourcing.Repository
