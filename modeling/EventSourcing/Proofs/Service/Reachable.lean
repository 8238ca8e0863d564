import EventSourcing.Proofs.Service.Draining
import EventSourcing.Proofs.Service.Processing

namespace EventSourcing.Service

open Interleaving

variable {State Command E : Type} {setting : Setting State Command E} {id : Nat}
  {world : World State Command E}

/-- An entry that neither changes the repository nor subscribes anybody may be made if it is
warranted. -/
theorem Lawful.records (hlawful : Lawful setting world) {entry : Entry State Command E}
    (hoperation : Entry.operation? entry = none) (hsubscriber : Entry.subscriber? entry = none)
    (hwarranted : Entry.IsWarranted setting world.history entry) :
    (laws setting).Records world entry := by
  obtain ⟨hafter, hsame⟩ : Lawful setting (world.record entry) ∧
      repositoryOf (world.record entry) = repositoryOf world :=
    hlawful.concat rfl rfl hoperation hsubscriber hwarranted
  exact ⟨hafter, fun key => hsame ▸ .refl _⟩

/-- A use of the repository from outside keeps its laws. -/
theorem keeps_direct (hlawful : Lawful setting world)
    (hnumbered : History.IsNumbered world.history id 0) (operation : Repository.Call E) :
    (calls setting).Keeps (laws setting) id (.direct operation)
      (fun _ later => Lawful setting later) (perform setting.repositoryConfig 0 operation)
      world := by
  rw [← Program.bind_done (perform _ _ _)]
  have hkeeps : ∀ mid, (Repository.calls setting.repositoryConfig).Keeps Repository.laws
      (Nat.pair id 0) operation mid (operation.program setting.repositoryConfig)
      (repositoryOf world) →
        (calls setting).Keeps (laws setting) id (.direct operation)
          (fun _ later => Lawful setting later)
          (perform setting.repositoryConfig 0 operation >>= .done) world :=
    fun _ hbase => keeps_perform hbase hlawful (fun _ _ _ _ _ _ => rfl)
      fun _ _ _ hsince _ _ => hsince.lawful
  cases operation with
  | append key batch =>
    exact keeps_append hlawful hnumbered (fun _ _ _ _ => rfl) fun _ _ _ hsince _ _ _ =>
      hsince.lawful
  | markDelivered key delivered =>
    exact hkeeps _ (Repository.keeps_markDelivered _ _ key delivered hlawful.sound)
  | listEvents key after max =>
    exact hkeeps _ (Repository.keeps_listEvents _ _ key after max hlawful.sound)
  | listUndelivered max =>
    exact hkeeps _ (Repository.keeps_listUndelivered _ _ max hlawful.sound)
  | listIds type after max =>
    exact hkeeps _ (Repository.keeps_listIds _ _ type after max hlawful.sound)

theorem keeps_subscribe (hlawful : Lawful setting world) (topic : Topic) (subscriber : Nat) :
    (calls setting).Keeps (laws setting) id (.subscribe topic subscriber)
      (fun _ later => Lawful setting later) (ask (.subscribe topic subscriber)) world := by
  have hsame : repositoryOf ((calls setting).after world id (.subscribe topic subscriber)
      (.subscribe topic subscriber)) = repositoryOf world := by
    simp [repositoryOf, System.after, calls, answer, History.operations, Entry.operation?]
  have hafter : Lawful setting ((calls setting).after world id (.subscribe topic subscriber)
      (.subscribe topic subscriber)) := by
    refine ⟨hsame ▸ hlawful.sound, forall_isWarranted_concat hlawful.warranted trivial, ?_⟩
    simp only [System.after, calls, answer, PubSub.subscriptions_subscribe, hlawful.subscribed,
      History.subscribers_append, List.map_append]
    cases topic <;> rfl
  exact ⟨hafter, fun key => hsame ▸ .refl _, hafter⟩

/-- A call that does one thing outside the repository, which nothing depends on. -/
theorem keeps_single (call : Call Command E) (request : Request E) (hlawful : Lawful setting world)
    (hplain : request.IsPlain) (hwarranted : ∀ history reply,
      Entry.IsWarranted setting history ⟨id, call, .answered request reply⟩) :
    (calls setting).Keeps (laws setting) id call (fun _ later => Lawful setting later)
      (ask request) world := by
  rw [← Program.bind_done (ask request)]
  exact keeps_ask hlawful hplain (hwarranted _ _) fun later _ hlater => hlater.lawful

theorem upholds (setting : Setting State Command E) :
    (calls setting).Upholds (laws setting) := by
  intro world id call hlawful hfresh
  have hcalled : (laws setting).Records world ⟨id, call, .called⟩ :=
    hlawful.records rfl rfl (by cases call <;> trivial)
  have hown : ∀ entry ∈ History.own (world.record ⟨id, call, .called⟩).history id,
      entry = ⟨id, call, .called⟩ := by
    intro entry hentry
    obtain ⟨hentry, hid⟩ := History.mem_own.1 hentry
    rcases List.mem_append.1 hentry with h | h
    · exact absurd hid (hfresh entry h)
    · exact List.mem_singleton.1 h
  refine ⟨hcalled, ?_⟩
  cases call with
  | process key command =>
    refine (keeps_processCommand (.begin hcalled.1 hown)).mono ?_
    rintro outcome later ⟨hlater, hagrees⟩
    exact ⟨trivial, hlater.records rfl rfl hagrees⟩
  | aggregate key =>
    refine (keeps_getAggregate (.begin hcalled.1 hown)).mono ?_
    rintro outcome later ⟨hlater, hrebuilt⟩
    exact ⟨hrebuilt, hlater.records rfl rfl trivial⟩
  | drain token =>
    refine (keeps_drain hcalled.1 hown).mono fun outcome later hlater => ?_
    exact ⟨trivial, hlater.records rfl rfl trivial⟩
  | direct operation =>
    refine (keeps_direct hcalled.1 (History.isNumbered_of_called hown) operation).mono ?_
    exact fun outcome later hlater => ⟨trivial, hlater.records rfl rfl trivial⟩
  | subscribe topic subscriber =>
    refine (keeps_subscribe hcalled.1 topic subscriber).mono fun _ later hlater => ?_
    exact ⟨trivial, hlater.records rfl rfl trivial⟩
  | cancel token =>
    refine (keeps_single (.cancel token) (.cancel token) hcalled.1 trivial fun _ _ => trivial).mono
      fun _ later hlater => ?_
    exact ⟨trivial, hlater.records rfl rfl trivial⟩
  | close =>
    refine (keeps_single .close .close hcalled.1 trivial fun _ _ => trivial).mono
      fun _ later hlater => ?_
    exact ⟨trivial, hlater.records rfl rfl trivial⟩

theorem lawful_start : Lawful setting ⟨.empty, []⟩ where
  sound := Repository.sound_start
  warranted := by simp
  subscribed := rfl

namespace Reachable

variable {moment : Moment State Command E}

/-- The laws hold at every moment of every run. -/
theorem lawful (hreach : Reachable setting moment) : Lawful setting moment.world :=
  (upholds setting).inv lawful_start hreach

/-- An aggregate is rebuilt from its whole log. -/
theorem rebuilt (hreach : Reachable setting moment) {key : AggregateKey}
    {outcome : Except (StoreError State Command) State}
    (hreturns : moment.Returns id (.aggregate key) outcome) :
    outcome = Service.rebuilt setting key (logOf moment.world.state key) :=
  (upholds setting).post lawful_start hreach hreturns

end Reachable

/-- Every state is a number, and a command leads to two events: the number that it is and the state
that it meets. Subscribers accept everything. -/
def sampleSetting : Setting Nat Nat Nat where
  domain :=
    { fresh := fun _ => some 0
      apply := fun state event => state + event
      processor := fun _ => some fun command state => .ok (.success [command, state])
      commandId := fun command => ⟨BitVec.ofNat 128 command⟩ }
  storeConfig := .standard
  repositoryConfig := .standard
  delivers := true
  verdict := fun _ _ _ => .ok ()
  arrange := fun _ listing => listing
  arrange_perm := fun _ _ => .refl _

def sampleKey : AggregateKey :=
  Repository.sampleKey

/-- Where some moves lead from the empty service, if they are possible. -/
def sampleRun (moves : List (Move (Call Nat Nat))) : Option (Moment Nat Nat Nat) :=
  (calls sampleSetting).run? (.start .empty) moves

/-- Some moves are possible and lead to a moment of which something is true. -/
theorem exists_of_sampleRun (moves : List (Move (Call Nat Nat)))
    (isAsWanted : Moment Nat Nat Nat → Bool)
    (h : (sampleRun moves).any isAsWanted = true) :
    ∃ moment, sampleRun moves = some moment ∧ Reachable sampleSetting moment ∧
      isAsWanted moment = true := by
  obtain ⟨moment, hrun, hmoment⟩ := (Option.any_eq_true _ _).1 h
  exact ⟨moment, hrun, ⟨moves, hrun⟩, hmoment⟩

/-- A command is parked with its decision made, and another one on the same aggregate is processed
meanwhile, so that the first has to be decided once more. -/
def overlapping : List (Move (Call Nat Nat)) :=
  .call (.process sampleKey 5) :: .replicate 2 .proceed ++
    .call (.process sampleKey 7) :: .replicate 33 .proceed

end EventSourcing.Service
