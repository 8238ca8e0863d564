import EventSourcing.Proofs.Pipeline.Basic

namespace EventSourcing

/-- Every account of a ledger holds the events that it held in an earlier one. -/
def Repository.Ledger.Grows {E : Type} (earlier later : Repository.Ledger E) : Prop :=
  ∀ key, (earlier key).events <+: (later key).events

namespace Repository.Ledger

variable {E : Type} {first second third : Ledger E}

theorem Grows.refl (ledger : Ledger E) : ledger.Grows ledger :=
  fun _ => List.prefix_rfl

theorem Grows.trans (hfirst : first.Grows second) (hsecond : second.Grows third) :
    first.Grows third :=
  fun key => (hfirst key).trans (hsecond key)

/-- No call takes events from an account. -/
theorem grows_apply (ledger : Ledger E) (call : Call E) : ledger.Grows (ledger.apply call) := by
  cases call with
  | append key batch =>
    refine (Function.forall_update_iff ledger fun other account =>
      (ledger other).events <+: account.events).2 ⟨?_, fun _ _ => List.prefix_rfl⟩
    unfold Account.append
    split
    · exact List.prefix_append _ _
    · exact List.prefix_rfl
  | markDelivered key delivered =>
    intro other
    exact (ledger.events_apply_markDelivered key delivered other).symm ▸ List.prefix_rfl
  | listEvents key after max => exact .refl ledger
  | listUndelivered max => exact .refl ledger
  | listIds type after max => exact .refl ledger

end Repository.Ledger

namespace Pipeline

open Repository

variable {State Command E α : Type} {setting : Service.Setting State Command E}
  {always : Pipeline E → Prop} {pipeline : Pipeline E}

def withRepository (pipeline : Pipeline E) (repository : Repository E) : Pipeline E :=
  ⟨{ pipeline.service with repository }, pipeline.received⟩

/-- Every log holds the events of its account. -/
def Holds (ledger : Ledger E) (pipeline : Pipeline E) : Prop :=
  ∀ key, (ledger key).events <+: pipeline.service.logOf key

/-- Requests to the service are answered one after the other, and all along the logs hold what they
held in a ledger. -/
def handling (setting : Service.Setting State Command E) (base : Ledger E) :
    Handling (Service.Request E) Service.Request.Reply (Pipeline E) :=
  .answering (answerService setting) (Holds base)

/-- What there is to see of a pipeline in which some tokens are still live. -/
structure Shows (live : Set CancellationToken) (subscribers : List Nat) (ledger : Ledger E)
    (queue : TaskQueue Unit) (received : List (Nat × RecordedEvent E)) (pipeline : Pipeline E) :
    Prop where
  mirrors : Mirrors pipeline.service.repository.view ledger
  subscriptions : pipeline.service.pubSub.subscriptions .events =
    subscribers.map fun subscriber => ⟨.events, subscriber⟩
  uncancelled : ∀ token ∈ live, pipeline.service.cancellations.isCancelled token = false
  queue : pipeline.service.queue = queue
  received : pipeline.received = received

section Requests

variable {live : Set CancellationToken} {subscribers : List Nat} {base ledger : Ledger E}
  {queue : TaskQueue Unit} {received : List (Nat × RecordedEvent E)}

theorem Shows.holds (hshows : Shows live subscribers ledger queue received pipeline)
    (hgrows : base.Grows ledger) : Holds base pipeline := by
  intro key
  have hevents : pipeline.service.logOf key = (ledger key).events := hshows.mirrors.events key
  exact hevents ▸ hgrows key

/-- An operation of the repository does to it what it does alone. -/
private theorem ensures_relay {operation : Repository.Operation E α} {always : Repository E → Prop}
    {post : α → Repository E → Prop} (number : Nat) (call : Repository.Call E)
    (pipeline : Pipeline E)
    (halways : ∀ repository, always repository → Holds base (pipeline.withRepository repository))
    (h : operation.Ensures (.answering Repository.answer always) post pipeline.service.repository) :
    (Service.relay number call operation).Ensures (handling setting base) (fun value later =>
      ∃ repository, post value repository ∧ later = pipeline.withRepository repository)
      pipeline := by
  induction operation generalizing pipeline with
  | done value => exact ⟨_, h, rfl⟩
  | ask request next ih =>
    exact ⟨halways _ h.1,
      ih _ (answerService setting pipeline (.repository number call request)).2 halways h.2⟩

/-- A call of the repository does to the pipeline what it does to the ledger, and it is answered as
if the repository were alone. -/
theorem Shows.ensures_perform (hshows : Shows live subscribers ledger queue received pipeline)
    (hgrows : base.Grows ledger) (number : Nat) (call : Repository.Call E) :
    (Service.perform setting.repositoryConfig number call).Ensures (handling setting base)
      (fun outcome later => (ledger.Answers call outcome ∧ outcome =
          (runAlone (call.program setting.repositoryConfig) pipeline.service.repository).1) ∧
        Shows live subscribers (ledger.apply call) queue received later ∧
          later.service.time = pipeline.service.time) pipeline := by
  have hcall := (hshows.mirrors.ensures_call setting.repositoryConfig call).and_alone
  rw [alone_eq_runAlone] at hcall
  refine (ensures_relay number call pipeline ?_ hcall).mono ?_
  · rintro repository (hbefore | hafter) key
    · have hlog : (pipeline.withRepository repository).service.logOf key = (ledger key).events :=
        hbefore key
      exact hlog ▸ hgrows key
    · have hlog : (pipeline.withRepository repository).service.logOf key =
          (ledger.apply call key).events := hafter key
      exact hlog ▸ hgrows.trans (ledger.grows_apply call) key
  · rintro outcome later ⟨repository, ⟨⟨hanswers, hmirrors⟩, houtcome⟩, rfl⟩
    exact ⟨⟨hanswers, houtcome⟩, { hshows with mirrors := hmirrors }, rfl⟩

end Requests

end Pipeline

end EventSourcing
