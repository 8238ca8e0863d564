import EventSourcing.Proofs.Pipeline.Draining
import EventSourcing.Proofs.Service.Reachable
import Mathlib.Data.List.Nodup
import Mathlib.Data.List.Sort

namespace EventSourcing.Repository.Ledger

variable {E : Type} {ledger : Ledger E}

/-- The ids of a type are known from the accounts that have events. -/
theorem Enumerates.eq {other : Ledger E} {type : AggregateType} {ids otherIds : List AggregateId}
    (hids : ledger.Enumerates type ids) (hother : other.Enumerates type otherIds)
    (hevents : ∀ key, (other key).events = (ledger key).events) : otherIds = ids := by
  have hmem : ∀ id, id ∈ otherIds ↔ id ∈ ids := by
    intro id
    rw [hother.mem_iff, hids.mem_iff, hevents]
  have hirrefl : ∀ {a b : AggregateId}, compare a b = .lt → a ≠ b := by
    rintro a _ hlt rfl
    simp at hlt
  have hperm : otherIds.Perm ids :=
    (List.perm_ext_iff_of_nodup (hother.ascending.imp hirrefl) (hids.ascending.imp hirrefl)).2 hmem
  refine hperm.eq_of_pairwise (fun a b _ _ hab hba => ?_) hother.ascending hids.ascending
  exact absurd hba (Std.OrientedCmp.not_lt_of_lt hab)

end EventSourcing.Repository.Ledger

namespace EventSourcing.Pipeline

open Repository

variable {State Command E : Type} {setting : Service.Setting State Command E}
  {pipeline : Pipeline E} {subscribers : List Nat} {ledger : Ledger E}
  {listing : List (UndeliveredEvents E)} {accepts : Nat → RecordedEvent E → Except String Unit}

theorem mem_acceptedKeys_iff (hlists : ledger.Lists listing) {undelivered : UndeliveredEvents E}
    (hmem : undelivered ∈ listing) :
    undelivered.key ∈ acceptedKeys accepts subscribers listing ↔
      isAccepted accepts subscribers undelivered.events = true := by
  constructor
  · intro hkey
    obtain ⟨other, hother, hsame⟩ := List.mem_map.1 hkey
    obtain ⟨hlisted, haccepted⟩ := List.mem_filter.1 hother
    have heq : other = undelivered := List.inj_on_of_nodup_map hlists.nodup hlisted hmem hsame
    exact heq ▸ haccepted
  · exact fun haccepted => List.mem_map.2 ⟨undelivered, List.mem_filter.2 ⟨hmem, haccepted⟩, rfl⟩

/-- Those aggregates are listed again that were not accepted, with the same events. -/
theorem perm_of_lists (hlists : ledger.Lists listing) (hsound : ∀ key, (ledger key).IsSound key)
    {remaining : List (UndeliveredEvents E)}
    (hremaining : (listing.foldl (settled accepts subscribers) ledger).Lists remaining) :
    remaining.Perm (listing.filter fun undelivered =>
      !isAccepted accepts subscribers undelivered.events) := by
  have hsettled : ∀ key, listing.foldl (settled accepts subscribers) ledger key =
      if key ∈ acceptedKeys accepts subscribers listing then drained (ledger key)
      else ledger key := foldl_settled listing fun key => (hsound key).watermark_le
  refine (List.perm_ext_iff_of_nodup hremaining.nodup.of_map
    (hlists.nodup.of_map.filter _)).2 fun undelivered => ?_
  rw [hremaining.mem_iff, hsettled, List.mem_filter, Bool.not_eq_true', ← Bool.not_eq_true]
  constructor
  · rintro ⟨hevents, hne⟩
    split at hevents
    · exact absurd (hevents.trans List.drop_length) hne
    · next hkey =>
      have hmem := (hlists.mem_iff undelivered).2 ⟨hevents, hne⟩
      exact ⟨hmem, fun haccepted => hkey ((mem_acceptedKeys_iff hlists hmem).2 haccepted)⟩
  · rintro ⟨hmem, hrefused⟩
    rw [if_neg fun hkey => hrefused ((mem_acceptedKeys_iff hlists hmem).1 hkey)]
    exact (hlists.mem_iff undelivered).1 hmem

theorem events_foldl_settled (listing : List (UndeliveredEvents E)) (ledger : Ledger E)
    (key : AggregateKey) :
    (listing.foldl (settled accepts subscribers) ledger key).events = (ledger key).events := by
  induction listing generalizing ledger with
  | nil => rfl
  | cons undelivered rest ih => rw [List.foldl_cons, ih, events_settled]

/-- How a drain ends in which the parts for some aggregates have failed: a single failure stands for
itself. -/
def reported : List DeliveryError → Except DeliveryError Unit
  | [] => .ok ()
  | [error] => .error error
  | errors => .error (.aggregate errors)

theorem mapError_conclusion (errors : List DeliveryError) :
    (conclusion errors).mapError Delivery.failureOf = reported errors := by
  match errors with
  | [] => rfl
  | [error] => rfl
  | first :: second :: rest => rfl

/-- A drain with nothing else in between, whatever was called before, one call after the other: it
hands every listed event to every subscriber once, in the order of the listing and of the logs.
Afterwards just those aggregates are listed of which an event was refused, each with the same events
as before; logs and ids are as they were, and what the drain comes to tells of each refusal. -/
theorem drain_attempts_everything {config : RepositoryConfig} {earlier : List (Repository.Call E)}
    {token : CancellationToken}
    (hrepository : pipeline.service.repository = Repository.after config earlier)
    (hsubscribed : pipeline.service.pubSub.subscriptions .events =
      subscribers.map fun subscriber => ⟨.events, subscriber⟩)
    (hlive : pipeline.service.cancellations.isCancelled token = false)
    (hdecided : Decided setting subscribers accepts) :
    ∃ listing outcome later, Listed setting pipeline listing ∧
      (Service.Call.program setting (.drain token)).alone (answerService setting) pipeline =
        (outcome, later) ∧
      later.received = pipeline.received ++ handedAll subscribers listing ∧
      (subscribers.Nodup → ∀ subscriber ∈ subscribers,
        receptionsOf subscriber (handedAll subscribers listing) = listing.flatMap (·.events)) ∧
      (listing.map (·.key)).Nodup ∧
      (∀ undelivered ∈ listing, (∀ event ∈ undelivered.events, event.key = undelivered.key) ∧
        (undelivered.events.map (·.sequenceId)).Pairwise (· < ·)) ∧
      (∃ remaining, (runAlone (listUndelivered none) later.service.repository).1 = .ok remaining ∧
        remaining.Perm (listing.filter fun undelivered =>
          !isAccepted accepts subscribers undelivered.events)) ∧
      (∀ key, later.service.logOf key = pipeline.service.logOf key) ∧
      (∀ type, later.service.repository.view.ids type =
        pipeline.service.repository.view.ids type) ∧
      outcome = reported (failures (listing.map fun undelivered =>
        (undelivered, delivered accepts subscribers undelivered))) := by
  have hmirrors := mirrors_after config earlier
  rw [← hrepository] at hmirrors
  have hshows : Shows {token} subscribers (Ledger.after earlier) pipeline.service.queue
      pipeline.received pipeline := ⟨hmirrors, hsubscribed, fun _ heq => heq ▸ hlive, rfl, rfl⟩
  have hdrain := (hshows.ensures_drain (.refl _) hdecided rfl).alone
  generalize (Service.Call.program setting (.drain token)).alone _ pipeline = run at hdrain ⊢
  obtain ⟨outcome, later⟩ := run
  obtain ⟨listing, horder, hlists, houtcome, hlater⟩ := hdrain
  have hevents : ∀ key, (listing.foldl (settled accepts subscribers) (Ledger.after earlier)
      key).events = (Ledger.after earlier key).events := events_foldl_settled listing _
  have hbelongs := belongs_of_lists hlists hmirrors.sound
  have hascending := ascending_of_lists hlists hmirrors.sound
  refine ⟨listing, outcome, later, horder, rfl, hlater.received, ?_, hlists.nodup,
    fun undelivered hmem => ⟨hbelongs undelivered hmem, hascending undelivered hmem⟩,
    ⟨_, ?_, perm_of_lists hlists hmirrors.sound hlater.mirrors.lists⟩, ?_, ?_,
    houtcome.trans (mapError_conclusion _)⟩
  · exact fun hnodup subscriber hsubscriber => receptionsOf_handedAll hnodup hsubscriber listing
  · rw [runAlone_listUndelivered]
  · intro key
    have hlog := (hlater.mirrors.events key).trans (hevents key)
    exact hlog.trans (hmirrors.events key).symm
  · exact fun type => (hmirrors.enumerates type).eq (hlater.mirrors.enumerates type) hevents

def secondKey : AggregateKey where
  type := Service.sampleKey.type
  id := ⟨"12", by constructor <;> simp <;> decide, by decide, by decide⟩

/-- Two aggregates with events to deliver, some of which are delivered already. -/
def twoAggregates : List (Repository.Call Nat) :=
  [.append Service.sampleKey (Store.record Service.sampleKey .nil 0 [5, 6, 7]),
    .append secondKey (Store.record secondKey .nil 0 [8]),
    .markDelivered Service.sampleKey 1]

/-- One of the subscribers does not take every event. -/
def choosy (subscriber : Nat) (event : RecordedEvent Nat) : Except String Unit :=
  if subscriber = 1 ∧ event.payload = 7 then .error "unwanted" else .ok ()

def choosySetting : Service.Setting Nat Nat Nat :=
  { Service.sampleSetting with
    verdict := fun _ => choosy
    arrange := fun _ => List.reverse
    arrange_perm := fun _ => List.reverse_perm }

def stocked : Pipeline Nat :=
  (start [0, 1]).withRepository (Repository.after .standard twoAggregates)

theorem drain_attempts_everything_of_stocked :
    (runAlone (listUndelivered none) stocked.service.repository).1.toOption.map (·.length) =
      some 2 ∧
    ∃ listing outcome later, Listed choosySetting stocked listing ∧
      (Service.Call.program choosySetting (.drain ⟨0⟩)).alone (answerService choosySetting) stocked =
        (outcome, later) ∧
      later.received = handedAll [0, 1] listing ∧
      outcome = reported (failures (listing.map fun undelivered =>
        (undelivered, delivered choosy [0, 1] undelivered))) := by
  have hrepository : stocked.service.repository = Repository.after .standard twoAggregates := rfl
  have hsubscribed : stocked.service.pubSub.subscriptions .events =
      [0, 1].map fun subscriber => ⟨.events, subscriber⟩ := rfl
  have hlive : stocked.service.cancellations.isCancelled ⟨0⟩ = false := rfl
  have hdecided : Decided choosySetting [0, 1] choosy := fun _ _ _ _ => rfl
  obtain ⟨listing, outcome, later, horder, hrun, hreceived, -, -, -, -, -, -, houtcome⟩ :=
    drain_attempts_everything hrepository hsubscribed hlive hdecided
  exact ⟨by decide +kernel, listing, outcome, later, horder, hrun, hreceived, houtcome⟩

end EventSourcing.Pipeline
