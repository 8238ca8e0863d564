import EventSourcing.Proofs.Repository.Appending
import EventSourcing.Proofs.Repository.Delivering
import EventSourcing.Proofs.Repository.Reading

namespace EventSourcing.Repository

open Interleaving

variable {E : Type} {config : RepositoryConfig}

private theorem AppendEnds.ends {id : Nat} {key : AggregateKey} {batch : List (RecordedEvent E)}
    {outcome : Result Unit} {world : World E} (hends : AppendEnds id key batch outcome world) :
    System.Ends laws id (.append key batch) outcome world := by
  have hchanges : Changes world (world.record ⟨id, .append key batch, .returned outcome⟩) key
      ((streamOf world key).returned id batch outcome) := Changes.returned
  exact ⟨hends.raced, hchanges.sound hends.sound ((hends.sound key).returned hends.mem_commits_iff),
    hchanges.follows (.of_same rfl rfl (Nat.le_refl _) fun h => h)⟩

/-- Every call keeps the laws of every aggregate. -/
theorem upholds (config : RepositoryConfig) : (calls (E := E) config).Upholds laws := by
  intro world id call hsound hfresh
  have hcalled : laws.Records world ⟨id, call, .called⟩ := by
    refine records_of_silent hsound fun key => ?_
    cases call <;> exact ⟨rfl, rfl, rfl, rfl, rfl⟩
  refine ⟨hcalled, ?_⟩
  cases call with
  | append key batch =>
    exact (keeps_append config key batch hcalled.1 (History.unread_of_called hfresh)
      (.of_called hfresh)).mono fun outcome later hends => hends.ends
  | markDelivered key delivered =>
    exact (keeps_markDelivered config id key delivered hcalled.1).mono fun _ later hlater =>
      ⟨trivial, records_of_silent hlater fun _ => ⟨rfl, rfl, rfl, rfl, rfl⟩⟩
  | listEvents key after max =>
    exact (keeps_listEvents config id key after max hcalled.1).mono fun _ later hlater =>
      ⟨trivial, records_of_silent hlater.1 fun _ => ⟨rfl, rfl, rfl, rfl, rfl⟩⟩
  | listUndelivered max =>
    exact (keeps_listUndelivered config id max hcalled.1).mono fun _ later hlater =>
      ⟨trivial, records_of_silent hlater.1 fun _ => ⟨rfl, rfl, rfl, rfl, rfl⟩⟩
  | listIds type after max =>
    exact (keeps_listIds config id type after max hcalled.1).mono fun _ later hlater =>
      ⟨trivial, records_of_silent hlater.1 fun _ => ⟨rfl, rfl, rfl, rfl, rfl⟩⟩

theorem mem_returns {history : History E} {id : Nat} {key : AggregateKey}
    {batch : List (RecordedEvent E)} {outcome : Result Unit}
    (hreturned : ⟨id, .append key batch, .returned outcome⟩ ∈ history) :
    (id, batch, outcome) ∈ history.filterMap (Entry.return? key) :=
  List.mem_filterMap.2 ⟨_, hreturned, by simp [Entry.return?]⟩

theorem sound_start : Sound (E := E) ⟨.empty, []⟩ := by
  intro key
  constructor
  all_goals simp [streamOf, Stream.events, Stream.tail, History.commits, History.watermark,
    Repository.empty]

namespace Reachable

variable {moment : Moment E}

/-- The laws hold at every moment of every run. -/
theorem sound (hreach : Reachable config moment) : Sound moment.world :=
  (upholds config).inv sound_start hreach

/-- Every append ends as its race has ended. -/
theorem raced (hreach : Reachable config moment) {id : Nat} {key : AggregateKey}
    {batch : List (RecordedEvent E)} {outcome : Result Unit}
    (hreturns : moment.Returns id (.append key batch) outcome) {first : SequenceId}
    (hbatch : IsBatch key first batch) :
    ∃ seen, History.read? moment.world.history id = some seen ∧
      (first ≤ seen.value.tail + 1 →
        Raced moment.world.history id key first (first + (batch.length - 1)) seen outcome) :=
  (upholds config).post sound_start hreach hreturns first hbatch

end Reachable

def sampleKey : AggregateKey where
  type := ⟨"Order", by constructor <;> simp <;> decide, by decide, by decide⟩
  id := ⟨"1", by constructor <;> simp <;> decide, by decide, by decide⟩

/-- Some events of this aggregate, all alike but for their positions. -/
def sampleBatch (first count : Nat) : List (RecordedEvent Unit) :=
  (List.range' first count).map fun position => ⟨sampleKey, position, (), .nil⟩

/-- Where some moves lead from the empty repository, if they are possible. -/
def sampleRun (moves : List (Move (Call Unit))) : Option (Moment Unit) :=
  (calls .standard).run? (.start .empty) moves

theorem reachable_of_sampleRun {moves : List (Move (Call Unit))} {moment : Moment Unit}
    (h : sampleRun moves = some moment) : Reachable .standard moment :=
  ⟨moves, h⟩

/-- An append is parked, and another one to the same aggregate returns. -/
def overtaking : List (Move (Call Unit)) :=
  [.call (.append sampleKey (sampleBatch 1 2)), .proceed, .proceed,
    .call (.append sampleKey (sampleBatch 1 1))] ++ .replicate 10 .proceed

/-- The append that was overtaken loses its race and returns. It leaves a window behind that reaches
past the log. -/
def lostRace : List (Move (Call Unit)) :=
  overtaking ++ .replicate 7 .proceed

theorem isBatch_sampleBatch (first count : Nat) :
    IsBatch sampleKey (first + 1) (sampleBatch (first + 1) (count + 1)) where
  ne_nil := by simp [sampleBatch]
  one_le := Nat.le_add_left _ _
  positions := by simp [sampleBatch, Function.comp_def]
  belongs := by
    intro event hevent
    obtain ⟨position, -, rfl⟩ := List.mem_map.1 hevent
    rfl

end EventSourcing.Repository
