import EventSourcing.Proofs.Repository.Batch
import EventSourcing.Proofs.Transcript

namespace EventSourcing.Repository

open Program

variable {E : Type} {config : RepositoryConfig} {key : AggregateKey}
  {batch : List (RecordedEvent E)}

/-- What an operation has asked and been told. -/
abbrev Transcript (E : Type) :=
  List (Exchange (Request.Reply (E := E)))

variable {transcript : Transcript E} {outcome : Result Unit}

/-- The checkpoints that an append passes while it announces the range of its batch. -/
def Checkpoint.isOfWindow : Checkpoint → Bool
  | markUndeliveredStarted | markUndeliveredConflicted | undeliveredWindowKept => true
  | _ => false

/-- What is asked while the range of a batch is announced. -/
def IsAnnouncing : Exchange (Request.Reply (E := E)) → Prop
  | ⟨.windows _, _⟩ => True
  | ⟨.reached checkpoint _, _⟩ => checkpoint.isOfWindow = true
  | _ => False

/-- What is asked while an aggregate is added to the index of its type. -/
def IsIndexing : Exchange (Request.Reply (E := E)) → Prop
  | ⟨.indexes _, _⟩ => True
  | _ => False

/-- Nobody is asked to try again. -/
def IsFinal : Result Unit → Prop
  | .ok _ => True
  | .error error => error.isTransient = false

/-- The log is read, and the batch has been checked against it. -/
def validated (key : AggregateKey) (found : Snapshot (EventLog E) × Bool) : Transcript E :=
  [⟨.logs (.getOrInsert key .empty), found⟩, ⟨.reached .appendValidated key, ()⟩]

/-- The range of the batch has been announced, and the append has tried to commit. -/
def raced (key : AggregateKey) (seen : Snapshot (EventLog E)) (batch : List (RecordedEvent E))
    (swapped : Bool) : Transcript E :=
  [⟨.reached .appendMarkedUndelivered key, ()⟩,
    ⟨.logs (.compareAndSwap key seen (seen.value.append batch)), swapped⟩]

/-- The ways in which an append may go: what it asks and is told, and how it ends. -/
inductive Course (key : AggregateKey) (batch : List (RecordedEvent E)) :
    Transcript E → Result Unit → Prop
  /-- There is nothing to append. -/
  | empty : batch = [] → Course key batch [] (.ok ())
  /-- The batch is at fault. -/
  | faulty {error} : error.isTransient = false → Course key batch [] (.error error)
  /-- The batch begins too far behind the log. -/
  | gap {found error} : error.isTransient = false →
      Course key batch [⟨.logs (.getOrInsert key .empty), found⟩] (.error error)
  /-- The batch begins inside the log. -/
  | stale {found} : Course key batch (validated key found ++ [⟨.reached .appendConflicted key, ()⟩])
      (.error (.optimisticConcurrency key))
  /-- The range of the batch cannot be announced. -/
  | shutOut {found announcing error} : (∀ exchange ∈ announcing, IsAnnouncing exchange) →
      error.isTransient = false →
      Course key batch (validated key found ++ announcing) (.error error)
  /-- The log has become another in the meantime. -/
  | lost {found announcing} : (∀ exchange ∈ announcing, IsAnnouncing exchange) →
      Course key batch (validated key found ++ (announcing ++ (raced key found.1 batch false ++
        [⟨.reached .appendConflicted key, ()⟩]))) (.error (.optimisticConcurrency key))
  | won {found announcing indexing} {outcome : Result Unit} :
      (∀ exchange ∈ announcing, IsAnnouncing exchange) →
      (∀ exchange ∈ indexing, IsIndexing exchange) → IsFinal outcome →
      Course key batch (validated key found ++ (announcing ++ (raced key found.1 batch true ++
        ⟨.reached .appendCommitted key, ()⟩ :: indexing))) outcome

/-- Some part of an append asks nothing else, and nobody is asked to try again in the end. -/
private structure Only (P : Exchange (Request.Reply (E := E)) → Prop) (transcript : Transcript E)
    (outcome : Result Unit) : Prop where
  all : ∀ exchange ∈ transcript, P exchange
  final : IsFinal outcome

namespace Only

variable {P : Exchange (Request.Reply (E := E)) → Prop}

private theorem nil (hfinal : IsFinal outcome) : Only P [] outcome :=
  ⟨List.forall_mem_nil P, hfinal⟩

private theorem cons {exchange : Exchange (Request.Reply (E := E))} (hexchange : P exchange)
    (hrest : Only P transcript outcome) : Only P (exchange :: transcript) outcome :=
  ⟨List.forall_mem_cons.2 ⟨hexchange, hrest.all⟩, hrest.final⟩

end Only

private theorem announcing_of_widenWindow {tail first last : SequenceId} {passes : Nat}
    {checkpoint : Checkpoint}
    (hcheckpoint : checkpoint = .markUndeliveredStarted ∨ checkpoint = .markUndeliveredConflicted)
    (hyields : (widenWindow key tail first last passes checkpoint).Yields transcript outcome) :
    Only IsAnnouncing transcript outcome := by
  induction passes generalizing transcript checkpoint with
  | zero =>
    obtain ⟨rfl, rfl⟩ := hyields
    exact .nil rfl
  | succ passes ih =>
    have hstarted : ∀ reply, IsAnnouncing (E := E) ⟨.reached checkpoint key, reply⟩ := by
      rcases hcheckpoint with rfl | rfl <;> exact fun _ => rfl
    rw [widenWindow] at hyields
    obtain ⟨_, _, rfl, hpass⟩ := yields_request_bind_iff.1 hyields
    obtain ⟨⟨current, inserted⟩, rest, rfl, hrest⟩ := yields_request_bind_iff.1 hpass
    refine .cons (hstarted _) (.cons trivial ?_)
    dsimp only at hrest
    split at hrest
    · obtain ⟨rfl, rfl⟩ := hrest
      exact .nil trivial
    split at hrest
    · obtain ⟨_, _, rfl, rfl, rfl⟩ := hrest
      exact .cons rfl (.nil trivial)
    split at hrest
    · obtain ⟨rfl, rfl⟩ := hrest
      exact .nil rfl
    · obtain ⟨swapped, late, rfl, hlate⟩ := yields_request_bind_iff.1 hrest
      refine .cons trivial ?_
      cases swapped with
      | true =>
        obtain ⟨rfl, rfl⟩ := hlate
        exact .nil trivial
      | false => exact ih (.inr rfl) hlate

private theorem announcing_of_markUndelivered {tail first last : SequenceId}
    (hyields : (markUndelivered config key tail first last).Yields transcript outcome) :
    Only IsAnnouncing transcript outcome := by
  unfold markUndelivered at hyields
  split at hyields
  · obtain ⟨rfl, rfl⟩ := hyields
    exact .nil rfl
  · exact announcing_of_widenWindow (.inl rfl) hyields

private theorem indexing_of_addToIndex {passes : Nat}
    (hyields : (addToIndex key passes).Yields transcript outcome) :
    Only IsIndexing transcript outcome := by
  induction passes generalizing transcript with
  | zero =>
    obtain ⟨rfl, rfl⟩ := hyields
    exact .nil rfl
  | succ passes ih =>
    rw [addToIndex] at hyields
    obtain ⟨⟨current, inserted⟩, rest, rfl, hrest⟩ := yields_request_bind_iff.1 hyields
    refine .cons trivial ?_
    dsimp only at hrest
    split at hrest
    · obtain ⟨rfl, rfl⟩ := hrest
      exact .nil rfl
    · obtain ⟨swapped, late, rfl, hlate⟩ := yields_request_bind_iff.1 hrest
      refine .cons trivial ?_
      cases swapped with
      | true =>
        obtain ⟨rfl, rfl⟩ := hlate
        exact .nil trivial
      | false => exact ih hlate

private theorem course_of_appendChecked {first last : SequenceId}
    (hyields : (appendChecked config key first last batch).Yields transcript outcome) :
    Course key batch transcript outcome := by
  unfold appendChecked at hyields
  obtain ⟨⟨seen, inserted⟩, _, rfl, hread⟩ := yields_request_bind_iff.1 hyields
  dsimp only at hread
  split at hread
  · obtain ⟨rfl, rfl⟩ := hread
    exact .gap rfl
  obtain ⟨_, rest, rfl, hrest⟩ := yields_request_bind_iff.1 hread
  unfold commit at hrest
  split at hrest
  · obtain ⟨_, _, rfl, rfl, rfl⟩ := hrest
    exact .stale
  obtain ⟨committing, concluding, committed, rfl, hcommitting, hconcluding⟩ :=
    yields_bind_iff.1 hrest
  obtain ⟨announcing, racing, announced, rfl, hannouncing, hracing⟩ :=
    yields_bind_iff.1 hcommitting
  obtain ⟨hwindow, hfinal⟩ := announcing_of_markUndelivered hannouncing
  cases announced with
  | error error =>
    obtain ⟨rfl, rfl⟩ := hracing
    obtain ⟨rfl, rfl⟩ := hconcluding
    rw [List.append_nil, List.append_nil]
    exact .shutOut hwindow hfinal
  | ok _ =>
    obtain ⟨_, _, rfl, swapped, _, rfl, rfl, rfl⟩ := hracing
    cases swapped with
    | false =>
      obtain ⟨_, _, rfl, rfl, rfl⟩ := hconcluding
      rw [List.append_assoc]
      exact .lost hwindow
    | true =>
      obtain ⟨_, indexing, rfl, hindexing⟩ := hconcluding
      have hindexes : Only IsIndexing indexing outcome := by
        change (if _ then _ else _ : Operation E (Result Unit)).Yields indexing outcome at hindexing
        split at hindexing
        · exact indexing_of_addToIndex hindexing
        · obtain ⟨rfl, rfl⟩ := hindexing
          exact .nil trivial
      rw [List.append_assoc]
      exact .won hwindow hindexes.all hindexes.final

/-- Every append goes in one of these ways, whatever it is told. -/
theorem course_of_yields (config : RepositoryConfig)
    (hyields : (append config key batch).Yields transcript outcome) :
    Course key batch transcript outcome := by
  cases batch with
  | nil =>
    obtain ⟨rfl, rfl⟩ := hyields
    exact .empty rfl
  | cons first rest =>
    cases hfault : batchFault? key first rest with
    | none =>
      simp only [append, hfault] at hyields
      exact course_of_appendChecked hyields
    | some fault =>
      simp only [append, hfault] at hyields
      obtain ⟨rfl, rfl⟩ := hyields
      obtain ⟨argument, detail, rfl⟩ := exists_of_batchFault?_eq_some hfault
      exact .faulty rfl

end EventSourcing.Repository
