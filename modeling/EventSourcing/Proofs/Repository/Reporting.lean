import EventSourcing.Proofs.Interleaving.Tracing
import EventSourcing.Proofs.Repository.Conducted
import EventSourcing.Proofs.Repository.Course

namespace EventSourcing.Repository

open Interleaving Program

variable {E : Type} {config : RepositoryConfig} {key : AggregateKey}
  {batch : List (RecordedEvent E)} {transcript : Transcript E} {outcome : Result Unit}

/-- The checkpoint that an exchange reports. -/
def report? : Exchange (Request.Reply (E := E)) → Option Checkpoint
  | ⟨.reached checkpoint _, _⟩ => some checkpoint
  | _ => none

/-- The checkpoints that an operation has reported, in their order. -/
def reports (transcript : Transcript E) : List Checkpoint :=
  transcript.filterMap report?

@[simp]
theorem reports_append (first second : Transcript E) :
    reports (first ++ second) = reports first ++ reports second :=
  List.filterMap_append

/-- A log has become another. -/
def isCommit : Exchange (Request.Reply (E := E)) → Bool
  | ⟨.logs (.compareAndSwap _ _ _), swapped⟩ => swapped
  | _ => false

private theorem isOfWindow_of_announcing {announcing : Transcript E}
    (hwindow : ∀ exchange ∈ announcing, IsAnnouncing exchange) :
    ∀ checkpoint ∈ reports announcing, checkpoint.isOfWindow = true := by
  intro checkpoint hmem
  obtain ⟨exchange, hexchange, hreport⟩ := List.mem_filterMap.1 hmem
  have hannounces := hwindow exchange hexchange
  unfold report? at hreport
  split at hreport
  · cases hreport
    exact hannounces
  · cases hreport

private theorem reports_indexing {indexing : Transcript E}
    (hindexes : ∀ exchange ∈ indexing, IsIndexing exchange) : reports indexing = [] := by
  refine List.filterMap_eq_nil_iff.2 fun exchange hmem => ?_
  have hindex := hindexes exchange hmem
  unfold report?
  split
  · cases hindex
  · rfl

/-- An exchange that neither makes a batch the end of a log nor reports this. -/
def IsQuiet (exchange : Exchange (Request.Reply (E := E))) : Prop :=
  isCommit exchange = false ∧ report? exchange ≠ some .appendCommitted

private theorem isQuiet_of_announcing {exchange : Exchange (Request.Reply (E := E))}
    (hannounces : IsAnnouncing exchange) : IsQuiet exchange := by
  unfold IsQuiet isCommit report?
  constructor
  · split
    · cases hannounces
    · rfl
  · split
    · rintro ⟨⟩
      cases hannounces
    · exact nofun

private theorem isQuiet_of_indexing {exchange : Exchange (Request.Reply (E := E))}
    (hindexes : IsIndexing exchange) : IsQuiet exchange := by
  unfold IsQuiet isCommit report?
  constructor
  · split
    · cases hindexes
    · rfl
  · split
    · cases hindexes
    · exact nofun

private theorem isQuiet_of_validated {found : Snapshot (EventLog E) × Bool} :
    ∀ exchange ∈ validated key found, IsQuiet exchange := by
  simp [validated, IsQuiet, isCommit, report?]

/-- How the reports of an append end, after those of its window, and how the append itself ends. -/
inductive Verdict (key : AggregateKey) : List Checkpoint → Result Unit → Prop
  | refused {error} : error.isTransient = false → Verdict key [] (.error error)
  | stale : Verdict key [.appendConflicted] (.error (.optimisticConcurrency key))
  | lost : Verdict key [.appendMarkedUndelivered, .appendConflicted]
      (.error (.optimisticConcurrency key))
  | won {outcome : Result Unit} : IsFinal outcome →
      Verdict key [.appendMarkedUndelivered, .appendCommitted] outcome

namespace Course

/-- An append is quiet of commits, or it commits once and reports it at once. -/
theorem commits_cases (hcourse : Course key batch transcript outcome) :
    (∀ exchange ∈ transcript, IsQuiet exchange) ∨ ∃ before seen indexing,
      transcript = before ++ ⟨.logs (.compareAndSwap key seen (seen.value.append batch)), true⟩ ::
        ⟨.reached .appendCommitted key, ()⟩ :: indexing ∧ IsFinal outcome ∧
      (∀ exchange ∈ before, IsQuiet exchange) ∧ ∀ exchange ∈ indexing, IsQuiet exchange := by
  cases hcourse with
  | empty => simp
  | faulty => simp
  | gap => simp [IsQuiet, isCommit, report?]
  | stale =>
    refine .inl (List.forall_mem_append.2 ⟨isQuiet_of_validated, ?_⟩)
    simp [IsQuiet, isCommit, report?]
  | shutOut hwindow =>
    exact .inl (List.forall_mem_append.2 ⟨isQuiet_of_validated, fun exchange hmem =>
      isQuiet_of_announcing (hwindow exchange hmem)⟩)
  | lost hwindow =>
    refine .inl (List.forall_mem_append.2 ⟨isQuiet_of_validated, List.forall_mem_append.2
      ⟨fun exchange hmem => isQuiet_of_announcing (hwindow exchange hmem), ?_⟩⟩)
    simp [raced, IsQuiet, isCommit, report?]
  | @won found announcing indexing _ hwindow hindexes hfinal =>
    refine .inr ⟨validated key found ++ (announcing ++
      [⟨.reached .appendMarkedUndelivered key, ()⟩]), found.1, indexing, by simp [raced], hfinal, ?_,
      fun exchange hmem => isQuiet_of_indexing (hindexes exchange hmem)⟩
    refine List.forall_mem_append.2 ⟨isQuiet_of_validated, List.forall_mem_append.2
      ⟨fun exchange hmem => isQuiet_of_announcing (hwindow exchange hmem), ?_⟩⟩
    simp [IsQuiet, isCommit, report?]

/-- Right before a commit is reported it has happened. -/
theorem before_committed {early late : Transcript E} {owner : AggregateKey}
    (hcourse : Course key batch (early ++ ⟨.reached .appendCommitted owner, ()⟩ :: late) outcome) :
    ∃ older seen, early = older ++
      [⟨.logs (.compareAndSwap key seen (seen.value.append batch)), true⟩] := by
  rcases hcourse.commits_cases with hquiet | ⟨before, seen, indexing, heq, -, hbefore, hindexing⟩
  · exact absurd rfl (hquiet ⟨.reached .appendCommitted owner, ()⟩ (by simp)).2
  · have hprior : ∀ exchange ∈ before ++
        [⟨.logs (.compareAndSwap key seen (seen.value.append batch)), true⟩],
          decide (report? exchange = some .appendCommitted) = false :=
      List.forall_mem_append.2 ⟨fun exchange hmem => decide_eq_false (hbefore exchange hmem).2,
        List.forall_mem_singleton.2 rfl⟩
    rw [List.append_cons before] at heq
    obtain ⟨rfl, -, -⟩ := append_cons_unique heq hprior
      (fun exchange hmem => decide_eq_false (hindexing exchange hmem).2) rfl
    exact ⟨before, seen, rfl⟩

/-- Right after a commit it is reported. -/
theorem after_commit {early late : Transcript E} {exchange : Exchange (Request.Reply (E := E))}
    (hcourse : Course key batch (early ++ exchange :: late) outcome)
    (hcommit : isCommit exchange = true) :
    ∃ rest, late = ⟨.reached .appendCommitted key, ()⟩ :: rest := by
  rcases hcourse.commits_cases with hquiet | ⟨before, seen, indexing, heq, -, hbefore, hindexing⟩
  · exact absurd hcommit (by simp [(hquiet exchange (by simp)).1])
  · have hrest : ∀ other ∈ ⟨.reached .appendCommitted key, ()⟩ :: indexing,
        isCommit other = false :=
      List.forall_mem_cons.2 ⟨rfl, fun other hmem => (hindexing other hmem).1⟩
    obtain ⟨-, -, rfl⟩ :=
      append_cons_unique heq (fun other hmem => (hbefore other hmem).1) hrest hcommit
    exact ⟨indexing, rfl⟩

/-- An append reports nothing, or that it has checked the batch, how it has announced the range and
how it has ended. -/
theorem reports_cases (hcourse : Course key batch transcript outcome) (hne : batch ≠ []) :
    (reports transcript = [] ∧ ∃ error, outcome = .error error ∧ error.isTransient = false) ∨
      ∃ window ending, reports transcript = .appendValidated :: (window ++ ending) ∧
        (∀ checkpoint ∈ window, checkpoint.isOfWindow = true) ∧ Verdict key ending outcome := by
  cases hcourse with
  | empty hempty => exact absurd hempty hne
  | faulty hfinal => exact .inl ⟨rfl, _, rfl, hfinal⟩
  | gap hfinal => exact .inl ⟨rfl, _, rfl, hfinal⟩
  | stale => exact .inr ⟨[], _, rfl, by simp, .stale⟩
  | shutOut hwindow hfinal =>
    refine .inr ⟨_, [], ?_, isOfWindow_of_announcing hwindow, .refused hfinal⟩
    rw [reports_append, List.append_nil]
    rfl
  | lost hwindow =>
    refine .inr ⟨_, _, ?_, isOfWindow_of_announcing hwindow, .lost⟩
    simp only [reports_append]
    rfl
  | won hwindow hindexes hfinal =>
    refine .inr ⟨_, _, ?_, isOfWindow_of_announcing hwindow, .won hfinal⟩
    have hcommitted : reports (⟨.reached .appendCommitted key, ()⟩ :: _) = [.appendCommitted] :=
      congrArg (_ :: ·) (reports_indexing hindexes)
    simp only [reports_append, hcommitted]
    rfl

private theorem notMem_window {window : List Checkpoint} {checkpoint : Checkpoint}
    (hwindow : ∀ other ∈ window, other.isOfWindow = true)
    (hnot : checkpoint.isOfWindow = false) : checkpoint ∉ window := fun hmem =>
  Bool.false_ne_true (hnot.symm.trans (hwindow checkpoint hmem))

variable (hcourse : Course key batch transcript outcome) (hne : batch ≠ [])

include hcourse hne

/-- Whatever is reported, the first report is that the batch has been checked. -/
theorem eq_of_head : ∀ first ∈ (reports transcript).head?, first = .appendValidated := by
  rcases hcourse.reports_cases hne with ⟨hnil, -⟩ | ⟨window, ending, heq, -, -⟩
  · simp [hnil]
  · simp [heq]

theorem conflicted_iff : .appendConflicted ∈ reports transcript ↔
    ∃ lost, outcome = .error (.optimisticConcurrency lost) := by
  rcases hcourse.reports_cases hne with
    ⟨hnil, error, rfl, hfinal⟩ | ⟨window, ending, heq, hwindow, hverdict⟩
  · rw [hnil]
    refine iff_of_false List.not_mem_nil ?_
    rintro ⟨lost, heq⟩
    cases heq
    cases hfinal
  · have hnot : .appendConflicted ∉ window := notMem_window hwindow rfl
    have hmem : .appendConflicted ∈ reports transcript ↔ .appendConflicted ∈ ending := by
      simp [heq, hnot]
    rw [hmem]
    cases hverdict with
    | refused hfinal =>
      refine iff_of_false List.not_mem_nil ?_
      rintro ⟨lost, heq⟩
      cases heq
      cases hfinal
    | stale => exact iff_of_true (by decide) ⟨_, rfl⟩
    | lost => exact iff_of_true (by decide) ⟨_, rfl⟩
    | won hfinal =>
      refine iff_of_false (by decide) ?_
      rintro ⟨lost, rfl⟩
      cases hfinal

/-- Whoever reports the commit has announced the range before, and reports no lost race. -/
theorem of_committed (hcommitted : .appendCommitted ∈ reports transcript) :
    ∃ earlier, reports transcript = earlier ++ [.appendCommitted] ∧
      .appendMarkedUndelivered ∈ earlier ∧ .appendCommitted ∉ earlier ∧
        .appendConflicted ∉ earlier := by
  rcases hcourse.reports_cases hne with ⟨hnil, -⟩ | ⟨window, ending, heq, hwindow, hverdict⟩
  · simp [hnil] at hcommitted
  · have hnot : .appendCommitted ∉ window := notMem_window hwindow rfl
    have hnot' : .appendConflicted ∉ window := notMem_window hwindow rfl
    cases hverdict with
    | refused | stale | lost => simp [heq, hnot] at hcommitted
    | won hfinal =>
      refine ⟨.appendValidated :: (window ++ [.appendMarkedUndelivered]), by simp [heq], ?_⟩
      simp [hnot, hnot']

theorem announced_of_split {before after : List Checkpoint}
    (hsplit : reports transcript = before ++ .appendCommitted :: after) :
    .appendMarkedUndelivered ∈ before := by
  obtain ⟨earlier, heq, hannounced, hnot, -⟩ := hcourse.of_committed hne (by simp [hsplit])
  have hearlier : ∀ checkpoint ∈ earlier, decide (checkpoint = .appendCommitted) = false :=
    fun checkpoint hmem => decide_eq_false fun hsame => hnot (hsame ▸ hmem)
  obtain ⟨rfl, -⟩ := append_cons_unique (hsplit.symm.trans heq) hearlier (by simp) rfl
  exact hannounced

theorem count_committed_le : (reports transcript).count .appendCommitted ≤ 1 := by
  by_cases hcommitted : .appendCommitted ∈ reports transcript
  · obtain ⟨earlier, heq, -, hnot, -⟩ := hcourse.of_committed hne hcommitted
    rw [heq, List.count_append, List.count_eq_zero.2 hnot]
    exact Nat.le_refl 1
  · rw [List.count_eq_zero.2 hcommitted]
    exact Nat.zero_le 1

theorem committed_of_ok (hok : outcome = .ok ()) : .appendCommitted ∈ reports transcript := by
  rcases hcourse.reports_cases hne with
    ⟨-, error, rfl, -⟩ | ⟨window, ending, heq, -, hverdict⟩
  · cases hok
  · cases hverdict with
    | refused | stale | lost => cases hok
    | won hfinal => simp [heq]

end Course

/-- What call number `id` has reported. -/
def reportsOf (id : Nat) (history : History E) : List Checkpoint :=
  reports (exchangesOf id history)

/-- What append number `id` reports is what has become of its batch. -/
structure ReportsTruly (config : RepositoryConfig) (id : Nat) (key : AggregateKey)
    (batch : List (RecordedEvent E)) (moment : Moment E) : Prop where
  validated_first : ∀ first ∈ (reportsOf id moment.world.history).head?, first = .appendValidated
  committed_once : (reportsOf id moment.world.history).count .appendCommitted ≤ 1
  announced : ∀ before after,
    reportsOf id moment.world.history = before ++ .appendCommitted :: after →
      .appendMarkedUndelivered ∈ before
  not_both : .appendCommitted ∈ reportsOf id moment.world.history →
    .appendConflicted ∉ reportsOf id moment.world.history
  /-- The last thing that has happened before the report is that the batch has become the end of the
  log. -/
  just_committed : ∀ before after owner, moment.world.history = before ++
    ⟨id, .append key batch, .answered (.reached .appendCommitted owner) ()⟩ :: after →
      ∃ older entry, before = older ++ [entry] ∧ Entry.commit? key entry = some (id, batch) ∧
        (streamOf (History.world before) key).events =
          (streamOf (History.world older) key).events ++ batch
  /-- The first thing that happens after a commit is the report. -/
  reported : ∀ before entry after other, moment.world.history = before ++ entry :: after →
    Entry.commit? key entry = some (id, other) → ∀ next ∈ after.head?,
      next = ⟨id, .append key batch, .answered (.reached .appendCommitted key) ()⟩
  ok_iff : ∀ outcome, ⟨id, .append key batch, .returned outcome⟩ ∈ moment.world.history →
    (outcome = .ok () ↔ .appendCommitted ∈ reportsOf id moment.world.history)
  conflict_iff : ∀ outcome, ⟨id, .append key batch, .returned outcome⟩ ∈ moment.world.history →
    ((∃ lost, outcome = .error (.optimisticConcurrency lost)) ↔
      .appendConflicted ∈ reportsOf id moment.world.history)
  /-- Where a lost race is reported, nothing has been committed. -/
  uncommitted : .appendConflicted ∈ reportsOf id moment.world.history →
    ∀ other, (id, other) ∉ History.commits moment.world.history key
  returns : ∃ later outcome, (calls config).Reaches moment later ∧
    ⟨id, .append key batch, .returned outcome⟩ ∈ later.world.history

section Run

variable {moment : Moment E} {id : Nat}

/-- An append that has returned has gone in one of the known ways. -/
theorem Reachable.course (hreach : Reachable config moment)
    (hreturned : ⟨id, .append key batch, .returned outcome⟩ ∈ moment.world.history) :
    Course key batch (exchangesOf id moment.world.history) outcome :=
  course_of_yields config (System.Reaches.yields hreach hreturned)

section Called

variable (hreach : Reachable config moment)
  (hcalled : ⟨id, .append key batch, .called⟩ ∈ moment.world.history)

include hreach hcalled

/-- An append that has begun is on one of the known ways. -/
private theorem Reachable.exists_course : ∃ later outcome rest, Reachable config later ∧
    (calls config).Reaches moment later ∧
      ⟨id, .append key batch, .returned outcome⟩ ∈ later.world.history ∧
        later.world.history = moment.world.history ++ rest ∧
          Course key batch (exchangesOf id later.world.history) outcome := by
  obtain ⟨later, outcome, hlater, hreturned⟩ := System.Reaches.exists_returned hreach hcalled
  have hreach' : Reachable config later := System.Reaches.trans hreach hlater
  obtain ⟨rest, hhistory⟩ := hlater.history_extends
  exact ⟨later, outcome, rest, hreach', hlater, hreturned, hhistory.symm, hreach'.course hreturned⟩

/-- Whoever reports a commit has committed. -/
private theorem Reachable.mem_commits_of_reported
    (hcourse : Course key batch (exchangesOf id moment.world.history) outcome)
    (hcommitted : .appendCommitted ∈ reportsOf id moment.world.history) :
    (id, batch) ∈ History.commits moment.world.history key := by
  rcases hcourse.commits_cases with hquiet | ⟨before, seen, indexing, heq, -⟩
  · obtain ⟨exchange, hmem, hreport⟩ := List.mem_filterMap.1 hcommitted
    exact absurd hreport (hquiet exchange hmem).2
  · have hswap : ⟨.logs (.compareAndSwap key seen (seen.value.append batch)), true⟩ ∈
        exchangesOf id moment.world.history := by
      simp [heq]
    obtain ⟨call, hentry⟩ := exists_of_mem_exchangesOf hswap
    obtain rfl : call = .append key batch := System.Reaches.call_eq hreach hentry hcalled rfl
    exact List.mem_filterMap.2 ⟨_, hentry, if_pos rfl⟩

/-- Before a commit is reported, the batch has become the end of the log. -/
private theorem Reachable.just_committed {before after : History E} {owner : AggregateKey}
    (hsplit : moment.world.history = before ++
      ⟨id, .append key batch, .answered (.reached .appendCommitted owner) ()⟩ :: after) :
    ∃ older entry, before = older ++ [entry] ∧ Entry.commit? key entry = some (id, batch) ∧
      (streamOf (History.world before) key).events =
        (streamOf (History.world older) key).events ++ batch := by
  obtain ⟨later, outcome, rest, -, -, -, hhistory, hcourse⟩ := hreach.exists_course hcalled
  rw [hhistory, hsplit, List.append_assoc, List.cons_append, exchangesOf_append,
    exchangesOf_cons_answered] at hcourse
  obtain ⟨early, seen, htold⟩ := hcourse.before_committed
  obtain ⟨older, rfl⟩ := System.Reaches.told_before hreach hsplit htold rfl
  refine ⟨older, _, rfl, if_pos rfl, ?_⟩
  have hafter := hreach.sound_before hsplit key
  have hbefore := hreach.sound_before (hsplit.trans (List.append_assoc ..)) key
  rw [hafter.events_eq, hbefore.events_eq]
  simp [streamOf, History.commits, Entry.commit?]

/-- After a commit it is reported. -/
private theorem Reachable.reported {before after : History E} {entry next : Entry E}
    {other : List (RecordedEvent E)}
    (hsplit : moment.world.history = before ++ entry :: next :: after)
    (hcommit : Entry.commit? key entry = some (id, other)) :
    next = ⟨id, .append key batch, .answered (.reached .appendCommitted key) ()⟩ := by
  obtain ⟨owner, seen, new, rfl⟩ := Entry.exists_of_commit?_eq_some hcommit
  have hentry : ⟨id, .append key other,
      .answered (.logs (.compareAndSwap owner seen new)) true⟩ ∈ moment.world.history := by
    simp [hsplit]
  obtain rfl : other = batch :=
    (Call.append.inj (System.Reaches.call_eq hreach hentry hcalled rfl)).2
  -- A swap is no checkpoint, so the call has gone straight on: to its report, or to its end.
  obtain ⟨request, reply, rfl⟩ | ⟨⟨result, rfl⟩, hall⟩ :=
    System.Reaches.told_next hreach hsplit rfl
  · obtain ⟨later, outcome, rest, -, -, -, hhistory, hcourse⟩ := hreach.exists_course hcalled
    rw [hhistory, hsplit, List.append_assoc, List.cons_append, List.cons_append, exchangesOf_append,
      exchangesOf_cons_answered, exchangesOf_cons_answered] at hcourse
    obtain ⟨late, hlate⟩ := hcourse.after_commit rfl
    cases (List.cons.inj hlate).1
    rfl
  · have hreturned : ⟨id, .append key other, .returned result⟩ ∈ moment.world.history := by
      simp [hsplit]
    have hcourse := hreach.course hreturned
    rw [hall, exchangesOf_concat_answered] at hcourse
    obtain ⟨late, hlate⟩ := hcourse.after_commit rfl
    cases hlate

/-- At every moment of every run, an append with a batch that is not empty reports what has become
of this batch. -/
theorem Reachable.reportsTruly (hne : batch ≠ []) : ReportsTruly config id key batch moment := by
  obtain ⟨later, outcome, rest, hreach', hlater, hreturned, hhistory, hcourse⟩ :=
    hreach.exists_course hcalled
  -- What has been reported so far is the beginning of what will have been when the call returns.
  have hreports : reports (exchangesOf id later.world.history) =
      reportsOf id moment.world.history ++ reportsOf id rest := by
    rw [hhistory, exchangesOf_append, reports_append]
    rfl
  have hmem : ∀ checkpoint ∈ reportsOf id moment.world.history,
      checkpoint ∈ reports (exchangesOf id later.world.history) := by
    intro checkpoint hmem
    rw [hreports]
    exact List.mem_append_left _ hmem
  exact {
    validated_first := by
      intro first hfirst
      refine hcourse.eq_of_head hne first ?_
      rw [hreports, List.head?_append]
      exact Option.or_eq_some_iff.2 (.inl hfirst)
    committed_once := by
      refine Nat.le_trans ?_ (hcourse.count_committed_le hne)
      rw [hreports, List.count_append]
      exact Nat.le_add_right _ _
    announced := by
      intro before after hsplit
      rw [hsplit, List.append_assoc, List.cons_append] at hreports
      exact hcourse.announced_of_split hne hreports
    not_both := by
      intro hcommitted hconflicted
      obtain ⟨earlier, heq, -, -, hnot⟩ := hcourse.of_committed hne (hmem _ hcommitted)
      have hlost := hmem _ hconflicted
      simp [heq, hnot] at hlost
    just_committed := fun before after owner hsplit => hreach.just_committed hcalled hsplit
    reported := by
      intro before entry after other hsplit hcommit next hnext
      obtain ⟨behind, rfl⟩ := List.head?_eq_some_iff.1 hnext
      exact hreach.reported hcalled hsplit hcommit
    ok_iff := by
      intro result hresult
      have hends := hreach.course hresult
      refine ⟨hends.committed_of_ok hne, fun hcommitted => ?_⟩
      exact (((hreach.sound key).mem_commits_iff _ (mem_returns hresult) hne batch).1
        (hreach.mem_commits_of_reported hcalled hends hcommitted)).2
    conflict_iff := fun result hresult => ((hreach.course hresult).conflicted_iff hne).symm
    uncommitted := by
      intro hconflicted other hcommit
      obtain ⟨lost, hlost⟩ := (hcourse.conflicted_iff hne).1 (hmem _ hconflicted)
      have hlater : (id, other) ∈ History.commits later.world.history key := by
        rw [hhistory, History.commits, List.filterMap_append]
        exact List.mem_append_left _ hcommit
      have hok := (((hreach'.sound key).mem_commits_iff _ (mem_returns hreturned) hne other).1
        hlater).2
      cases hlost.symm.trans hok
    returns := ⟨later, outcome, hlater, hreturned⟩ }

end Called

end Run

end EventSourcing.Repository
