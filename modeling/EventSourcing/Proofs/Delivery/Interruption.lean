import EventSourcing.Cancellation
import EventSourcing.Delivery.Drain
import EventSourcing.Proofs.Repository.Reachable
import EventSourcing.Proofs.Transcript

namespace EventSourcing.Delivery

open Program

variable {E : Type}

abbrev Transcript (E : Type) :=
  List (Exchange (Request.Reply (E := E)))

variable {token : CancellationToken} {cancellations : Cancellations} {transcript : Transcript E}

/-- What a drain is told about its token is true of it, and anybody may cancel any token at any
time. -/
def Watches (token : CancellationToken) : Cancellations → Transcript E → Prop
  | _, [] => True
  | cancellations, exchange :: rest => ∃ tokens : List CancellationToken,
    (∀ reply, exchange = ⟨.isCancelled, reply⟩ →
      reply = (tokens.foldl .cancel cancellations).isCancelled token) ∧
    Watches token (tokens.foldl .cancel cancellations) rest

theorem isCancelled_foldl_cancel (h : cancellations.isCancelled token = true)
    (tokens : List CancellationToken) :
    (tokens.foldl .cancel cancellations).isCancelled token = true := by
  induction tokens generalizing cancellations with
  | nil => exact h
  | cons other rest ih =>
    refine ih ?_
    rw [Cancellations.isCancelled_cancel, h, Bool.or_true]

/-- A cancelled token is never found to be anything else. -/
theorem Watches.of_isCancelled (hwatches : Watches token cancellations transcript)
    (h : cancellations.isCancelled token = true) {reply : Bool}
    (hmem : ⟨.isCancelled, reply⟩ ∈ transcript) : reply = true := by
  induction transcript generalizing cancellations with
  | nil => cases hmem
  | cons exchange rest ih =>
    obtain ⟨tokens, hreply, hrest⟩ := hwatches
    have hnow := isCancelled_foldl_cancel h tokens
    rcases List.mem_cons.1 hmem with heq | hmem
    · exact (hreply reply heq.symm).trans hnow
    · exact ih hrest hnow hmem

/-- Once the token has been found cancelled, it is found so again. -/
theorem Watches.stays {before after : Transcript E}
    (hwatches : Watches token cancellations (before ++ after))
    (hfound : ⟨.isCancelled, true⟩ ∈ before) {reply : Bool}
    (hmem : ⟨.isCancelled, reply⟩ ∈ after) : reply = true := by
  induction before generalizing cancellations with
  | nil => cases hfound
  | cons exchange rest ih =>
    obtain ⟨tokens, hreply, hrest⟩ := hwatches
    rcases List.mem_cons.1 hfound with heq | hfound
    · exact hrest.of_isCancelled (hreply true heq.symm).symm (List.mem_append_right _ hmem)
    · exact ih hrest hfound

def IsMark : Exchange (Request.Reply (E := E)) → Prop
  | ⟨.markDelivered _ _, _⟩ => True
  | _ => False

/-- The publishing of some events neither finds a cancellation nor marks anything. -/
theorem publishing_of_visits {visited : List (RecordedEvent E × Except PublishError Unit)}
    (hvisits : Visits (ask .isCancelled) (fun event => ask (.publish event)) visited transcript) :
    ∀ exchange ∈ transcript, exchange ≠ ⟨.isCancelled, true⟩ ∧ ¬ IsMark exchange := by
  induction hvisits with
  | nil => simp
  | cons hcheck hvisit _ ih =>
    rw [yields_request_iff.1 hcheck, yields_request_iff.1 hvisit]
    intro exchange hexchange
    simp only [List.cons_append, List.nil_append, List.mem_cons] at hexchange
    rcases hexchange with rfl | rfl | hexchange
    · exact ⟨by simp, fun h => h⟩
    · exact ⟨by simp, fun h => h⟩
    · exact ih exchange hexchange

/-- The delivery of an aggregate that is cut short reports the cancellation and marks nothing. -/
theorem deliver_interrupted {undelivered : UndeliveredEvents E} {result : Except DeliveryError Unit}
    (hyields : (deliver undelivered).Yields transcript result)
    (hfound : ⟨.isCancelled, true⟩ ∈ transcript) :
    result = .error .cancelled ∧ ∀ exchange ∈ transcript, ¬ IsMark exchange := by
  unfold deliver at hyields
  split at hyields
  · next last hlast =>
    obtain ⟨published, late, outcome, rfl, hpublished, hlate⟩ := yields_bind_iff.1 hyields
    obtain ⟨visited, skipped, early, check, -, rfl, hvisits, hends⟩ := exists_visits hpublished
    have hearly := publishing_of_visits hvisits
    cases hends with
    | cancelled hcheck =>
      obtain rfl := yields_request_iff.1 hcheck
      obtain ⟨rfl, rfl⟩ := hlate
      refine ⟨rfl, fun exchange hexchange => ?_⟩
      simp only [List.append_nil, List.mem_append, List.mem_singleton] at hexchange
      rcases hexchange with hexchange | rfl
      · exact (hearly exchange hexchange).2
      · exact fun h => h
    | finished =>
      -- Behind the last event there is at most the marking, so nothing was found.
      have hnone : ⟨.isCancelled, true⟩ ∉ late := by
        generalize [] ++ failures visited = errors at hlate
        cases errors with
        | cons error errors =>
          obtain ⟨rfl, -⟩ := hlate
          simp
        | nil =>
          obtain ⟨reply, rest, rfl, hrest⟩ := hlate
          cases reply
          all_goals obtain ⟨rfl, -⟩ := hrest
          all_goals simp
      rw [List.append_nil] at hfound
      rcases List.mem_append.1 hfound with h | h
      · exact absurd rfl (hearly _ h).1
      · exact absurd h hnone
  · obtain ⟨rfl, -⟩ := hyields
    cases hfound

/-- If the token was found cancelled during some visits, there is an aggregate inside of which that
was so first. -/
theorem exists_interrupted {visited : List (UndeliveredEvents E × Except DeliveryError Unit)}
    (hvisits : Visits (ask .isCancelled) deliver visited transcript)
    (hfound : ⟨.isCancelled, true⟩ ∈ transcript) :
    ∃ before item result after early during late, visited = before ++ (item, result) :: after ∧
      transcript = early ++ ⟨.isCancelled, false⟩ :: during ++ late ∧
      Visits (ask .isCancelled) deliver before early ∧ ⟨.isCancelled, true⟩ ∉ early ∧
      (deliver item).Yields during result ∧ ⟨.isCancelled, true⟩ ∈ during ∧
      Visits (ask .isCancelled) deliver after late := by
  induction hvisits with
  | nil => cases hfound
  | @cons item result visited check during rest hcheck hvisit hrest ih =>
    obtain rfl := yields_request_iff.1 hcheck
    by_cases hduring : ⟨.isCancelled, true⟩ ∈ during
    · exact ⟨[], item, result, visited, [], during, rest, rfl, rfl, .nil, by simp, hvisit, hduring,
        hrest⟩
    · have hlater : ⟨.isCancelled, true⟩ ∈ rest := by simpa [hduring] using hfound
      obtain ⟨before, item', result', after, early, during', late, rfl, rfl, hbefore, hnone,
        hfirst⟩ := ih hlater
      refine ⟨(item, result) :: before, item', result', after, _, during', late, rfl, ?_,
        .cons hcheck hvisit hbefore, ?_, hfirst⟩
      · simp
      · simp [hduring, hnone]

/-- A drain is interrupted in its last aggregate, with another one failed before. -/
def IsShadowed (visited : List (UndeliveredEvents E × Except DeliveryError Unit))
    (skipped : List (UndeliveredEvents E)) (late : Transcript E) : Prop :=
  failures visited ≠ [] ∧ skipped = [] ∧ late.head? = some ⟨.isCancelled, false⟩

/-- What a drain reports that has been interrupted. -/
def ReportsInterruption (visited : List (UndeliveredEvents E × Except DeliveryError Unit))
    (skipped : List (UndeliveredEvents E)) (late : Transcript E)
    (outcome : Except DeliveryError Unit) : Prop :=
  (IsShadowed visited skipped late →
    outcome = .error (.aggregate (failures visited ++ [.cancelled]))) ∧
  (¬ IsShadowed visited skipped late → outcome = .error .cancelled)

section

variable {before : List (UndeliveredEvents E × Except DeliveryError Unit)}
  {item : UndeliveredEvents E} {skipped : List (UndeliveredEvents E)} {during check : Transcript E}
  {result : Except (CollectedError DeliveryError) Unit}

/-- The end of a drain's loop marks nothing. -/
theorem unmarked_of_loopEnds {errors : List DeliveryError}
    (hends : LoopEnds (ask .isCancelled) errors skipped check result) :
    ∀ exchange ∈ check, ¬ IsMark exchange := by
  cases hends with
  | finished => simp
  | cancelled hcheck =>
    rw [yields_request_iff.1 hcheck]
    simp [IsMark]

/-- A cancellation found inside of an aggregate is reported as the last failure, or if there are
more aggregates, as what keeps the drain from them. -/
theorem reportsInterruption_of_inside
    (hends : LoopEnds (ask .isCancelled) (failures before ++ [.cancelled]) skipped check result) :
    ReportsInterruption before skipped (⟨.isCancelled, false⟩ :: during ++ check)
      (result.mapError failureOf) := by
  cases hends with
  | cancelled hcheck =>
    refine ⟨?_, fun _ => rfl⟩
    rintro ⟨-, hskipped, -⟩
    cases hskipped
  | finished =>
    cases hfailures : failures before with
    | nil => exact ⟨fun h => absurd hfailures h.1, fun _ => rfl⟩
    | cons error errors =>
      refine ⟨fun _ => ?_, fun h => absurd ⟨?_, rfl, rfl⟩ h⟩
      · cases errors <;> simp [conclusion, failureOf, hfailures, Except.mapError]
      · simp [hfailures]

/-- If the token is found cancelled inside some aggregate, this is the last one that is visited: the
loop finds the token cancelled again before the next one, or there is none. -/
theorem interrupted_inside {visited : List (UndeliveredEvents E × Except DeliveryError Unit)}
    {early : Transcript E} (hwatches : Watches token cancellations (early ++ check))
    (hvisits : Visits (ask .isCancelled) deliver visited early)
    (hends : LoopEnds (ask .isCancelled) ([] ++ failures visited) skipped check result)
    (hinside : ⟨.isCancelled, true⟩ ∈ early) :
    ∃ before interrupted earlier late,
      visited.map Prod.fst ++ skipped = before.map Prod.fst ++ interrupted :: skipped ∧
      early ++ check = earlier ++ late ∧
      Visits (ask .isCancelled) deliver before earlier ∧ ⟨.isCancelled, true⟩ ∉ earlier ∧
      (∀ exchange ∈ late, ¬ IsMark exchange) ∧
      ReportsInterruption before skipped late (result.mapError failureOf) := by
  have hcheck := unmarked_of_loopEnds hends
  obtain ⟨before, item, result', after, early, during, late, rfl, rfl, hbefore, hnone, hdeliver,
    hduring, hafter⟩ := exists_interrupted hvisits hinside
  obtain ⟨rfl, hunmarked⟩ := deliver_interrupted hdeliver hduring
  rw [List.append_assoc] at hwatches
  have hstays : ∀ reply, ⟨.isCancelled, reply⟩ ∈ late ++ check → reply = true :=
    fun reply => hwatches.stays (by simp [hduring])
  cases hafter with
  | cons hagain =>
    obtain rfl := yields_request_iff.1 hagain
    cases hstays false (by simp)
  | nil =>
    have hfailures : [] ++ failures (before ++ [(item, .error .cancelled)]) =
        failures before ++ [.cancelled] := by simp [failures]
    rw [hfailures] at hends
    refine ⟨before, item, early, ⟨.isCancelled, false⟩ :: during ++ check, by simp, by simp,
      hbefore, hnone, ?_, reportsInterruption_of_inside hends⟩
    intro exchange hexchange
    simp only [List.cons_append, List.mem_cons, List.mem_append] at hexchange
    rcases hexchange with rfl | h | h
    · exact fun h => h
    · exact hunmarked exchange h
    · exact hcheck exchange h

end

/-- Whatever a drain lists, whatever subscribers do and whoever cancels its token: if it finds the
token cancelled and so leaves something out, it has got to some aggregate without finding that, and
marks nothing from this aggregate on. It reports the cancellation, unless this is the last listed
aggregate, the drain has begun with it and some other aggregate has failed before: then it reports
the failures of all of these, and the cancellation as one of them. -/
theorem publishAll_interrupted {outcome : Except DeliveryError Unit}
    (hyields : publishAll.Yields transcript outcome)
    (hwatches : Watches token cancellations transcript)
    (hfound : ⟨.isCancelled, true⟩ ∈ transcript) :
    ∃ visited interrupted skipped early late,
      transcript = ⟨.listUndelivered, .ok (visited.map Prod.fst ++ interrupted :: skipped)⟩ ::
        (early ++ late) ∧
      Visits (ask .isCancelled) deliver visited early ∧ ⟨.isCancelled, true⟩ ∉ early ∧
      (∀ exchange ∈ late, ¬ IsMark exchange) ∧
      ReportsInterruption visited skipped late outcome := by
  obtain ⟨_, rest, listed, rfl, hlisted, hrest⟩ := yields_bind_iff.1 hyields
  obtain rfl := yields_request_iff.1 hlisted
  obtain ⟨tokens, -, hwatches⟩ := hwatches
  change Watches token _ rest at hwatches
  have hfound : ⟨.isCancelled, true⟩ ∈ rest := by simpa using hfound
  cases listed with
  | error cause =>
    obtain ⟨rfl, -⟩ := hrest
    simp at hfound
  | ok listing =>
    obtain ⟨_, last, result, rfl, hdelivered, hresult⟩ := yields_bind_iff.1 hrest
    obtain ⟨visited, skipped, early, check, rfl, rfl, hvisits, hends⟩ := exists_visits hdelivered
    obtain ⟨rfl, rfl⟩ : last = [] ∧ outcome = result.mapError failureOf := by
      cases result
      all_goals exact ⟨hresult.1, hresult.2.symm⟩
    rw [List.append_nil] at hfound hwatches ⊢
    by_cases hinside : ⟨.isCancelled, true⟩ ∈ early
    · obtain ⟨before, interrupted, early, late, hlisting, htranscript, hrest⟩ :=
        interrupted_inside hwatches hvisits hends hinside
      refine ⟨before, interrupted, skipped, early, late, ?_, hrest⟩
      rw [hlisting, htranscript]
      rfl
    · have hcheck := unmarked_of_loopEnds hends
      cases hends with
      | finished => exact absurd (by simpa using hfound) hinside
      | cancelled hlast =>
        obtain rfl := yields_request_iff.1 hlast
        refine ⟨visited, _, _, early, _, rfl, hvisits, hinside, hcheck, ?_, fun _ => rfl⟩
        rintro ⟨-, -, hbegun⟩
        simp at hbegun

/-- An event of one of two aggregates. -/
def sampleEvent (id : AggregateId) (position : SequenceId) : RecordedEvent Unit :=
  ⟨⟨Repository.sampleKey.type, id⟩, position, (), .nil⟩

def firstId : AggregateId :=
  Repository.sampleKey.id

def secondId : AggregateId :=
  ⟨"2", by constructor <;> simp <;> decide, by decide, by decide⟩

/-- A subscriber refuses the event of the first aggregate. -/
def refused : PublishError :=
  ⟨["refused"]⟩

def sampleListing : List (UndeliveredEvents Unit) :=
  [⟨(sampleEvent firstId 1).key, [sampleEvent firstId 1]⟩,
    ⟨(sampleEvent secondId 1).key, [sampleEvent secondId 1, sampleEvent secondId 2]⟩]

/-- The first aggregate fails, and the token is cancelled before the second one. -/
def cancelledBetween : Transcript Unit :=
  [⟨.listUndelivered, .ok sampleListing⟩, ⟨.isCancelled, false⟩, ⟨.isCancelled, false⟩,
    ⟨.publish (sampleEvent firstId 1), .error refused⟩, ⟨.isCancelled, true⟩]

/-- The first aggregate fails, and the token is cancelled inside the second one. -/
def cancelledInside : Transcript Unit :=
  [⟨.listUndelivered, .ok sampleListing⟩, ⟨.isCancelled, false⟩, ⟨.isCancelled, false⟩,
    ⟨.publish (sampleEvent firstId 1), .error refused⟩, ⟨.isCancelled, false⟩,
    ⟨.isCancelled, false⟩, ⟨.publish (sampleEvent secondId 1), .ok ()⟩, ⟨.isCancelled, true⟩]

theorem publishAll_interrupted_of_cancelledBetween :
    publishAll.Yields cancelledBetween (.error .cancelled) ∧
    ∃ visited interrupted skipped early late,
      cancelledBetween =
        ⟨.listUndelivered, .ok (visited.map Prod.fst ++ interrupted :: skipped)⟩ ::
          (early ++ late) ∧
      ReportsInterruption visited skipped late (.error .cancelled) := by
  have hyields : publishAll.Yields cancelledBetween (.error .cancelled) :=
    ⟨_, _, rfl, _, _, rfl, _, _, rfl, _, _, rfl, _, _, rfl, rfl, rfl⟩
  have hwatches : Watches ⟨0⟩ .empty cancelledBetween := by
    refine ⟨[], ?_, [], ?_, [], ?_, [], ?_, [⟨0⟩], ?_, trivial⟩
    all_goals rintro reply ⟨⟩
    all_goals rfl
  obtain ⟨visited, interrupted, skipped, early, late, htranscript, -, -, -, hreports⟩ :=
    publishAll_interrupted hyields hwatches (by simp [cancelledBetween])
  exact ⟨hyields, visited, interrupted, skipped, early, late, htranscript, hreports⟩

/-- The cancellation of a drain is not reported as such, although an event has been left out because
of it. -/
theorem interruption_shadowed_of_cancelledInside :
    Watches ⟨0⟩ .empty cancelledInside ∧ ⟨.isCancelled, true⟩ ∈ cancelledInside ∧
    publishAll.Yields cancelledInside
      (.error (.aggregate [.publish (sampleEvent firstId 1).key [refused], .cancelled])) := by
  refine ⟨?_, by simp [cancelledInside], ?_⟩
  · refine ⟨[], ?_, [], ?_, [], ?_, [], ?_, [], ?_, [], ?_, [], ?_, [⟨0⟩], ?_, trivial⟩
    all_goals rintro reply ⟨⟩
    all_goals rfl
  · exact ⟨_, _, rfl, _, _, rfl, _, _, rfl, _, _, rfl, _, _, rfl, _, _, rfl, _, _, rfl, _, _, rfl,
      rfl, rfl⟩

end EventSourcing.Delivery
