import EventSourcing.Proofs.Interleaving.Nesting
import EventSourcing.Proofs.Repository.Straight

namespace EventSourcing.Repository

open Interleaving Program

variable {E : Type} {config : RepositoryConfig} {key : AggregateKey}
  {batch : List (RecordedEvent E)} {tail last : SequenceId}

/-- An exchange after which the window covers the range from right behind `tail` to `last`. -/
inductive Covers (key : AggregateKey) (tail last : SequenceId) :
    Exchange (Request.Reply (E := E)) → Prop
  | opened (window) : Covers key tail last
      ⟨.windows (.getOrInsert key (.opened (tail + 1) last)), (window, true)⟩
  | kept {current} : last < current.value.last → ¬ current.value.isSpeculative tail = true →
      Covers key tail last ⟨.windows (.getOrInsert key (.opened (tail + 1) last)), (current, false)⟩
  | widened (current) : Covers key tail last (widening key current (tail + 1) last)

/-- A range that has been announced is covered since the last request to the windows. -/
theorem Announcing.exists_covers {announcing : Transcript E}
    (hannouncing : Announcing key tail last announcing (.ok ())) :
    ∃ early exchange late, announcing = early ++ exchange :: late ∧
      Covers key tail last exchange ∧ isOfWindows exchange = true := by
  cases hannouncing with
  | opened => exact ⟨[_], _, [], rfl, .opened _, rfl⟩
  | kept hlast hkept => exact ⟨[_], _, [_], rfl, .kept hlast hkept, rfl⟩
  | widened => exact ⟨meeting _ _ _ _, _, [], rfl, .widened _, rfl⟩

namespace Reachable

variable {moment : Moment E} {id : Nat}

/-- All that has happened between two moments of a run is what others may rely on. -/
theorem follows (hreach : Reachable config moment) {early late : History E}
    (hearly : early <+: late) (hlate : late <+: moment.world.history) :
    Follows (History.world early) (History.world late) := by
  obtain ⟨mid, hmid, rfl, -⟩ := System.Reaches.exists_before hreach hlate
  obtain ⟨first, hfirst, rfl, hrest⟩ := System.Reaches.exists_before hmid hearly
  rw [← replayed hmid, ← replayed hfirst]
  exact (upholds config).rel sound_start hfirst hrest

/-- The log that an append reads ends where the log of the aggregate ends at this moment. -/
theorem tail_eq_of_read (hreach : Reachable config moment) {before after : History E}
    {call : Call E} {found : Snapshot (EventLog E) × Bool}
    (hsplit : moment.world.history =
      before ++ ⟨id, call, .answered (.logs (.getOrInsert key .empty)) found⟩ :: after) :
    (streamOf (History.world before) key).tail = found.1.value.tail := by
  have hfound := hreach.faithful hsplit _ _ rfl
  cases hlog : (History.world before).state.logs.get? key with
  | some log =>
    obtain rfl : found = (log, false) :=
      hfound.trans (congrArg Prod.fst (answer_readLog hlog))
    exact Stream.tail_of_log hlog
  | none =>
    obtain rfl : found = (⟨_, .empty⟩, true) :=
      hfound.trans (congrArg Prod.fst (answer_createLog hlog))
    simp only [Stream.tail, streamOf, hlog]
    rfl

/-- A log never ends before the end that was read. -/
theorem tail_read_le (hreach : Reachable config moment) {history : History E}
    (hpart : history <+: moment.world.history) {found : Snapshot (EventLog E) × Bool}
    {rest : Transcript E}
    (hread : exchangesOf id history = ⟨.logs (.getOrInsert key .empty), found⟩ :: rest) :
    found.1.value.tail ≤ (streamOf (History.world history) key).tail := by
  rw [← List.nil_append (_ :: rest)] at hread
  obtain ⟨before, call, after, rfl, -, -⟩ := exists_split_of_exchangesOf hread
  obtain ⟨later, hlater⟩ := hpart
  rw [List.append_assoc, List.cons_append] at hlater
  rw [← hreach.tail_eq_of_read hlater.symm]
  exact (hreach.follows (List.prefix_append _ _) ⟨later, by simp [← hlater]⟩ key).tail_le

section Split

variable {before after : History E} {request : Request E} {reply : request.Reply}
  (hreach : Reachable config moment)
  (hsplit : moment.world.history =
    before ++ ⟨id, .append key batch, .answered request reply⟩ :: after)

include hreach hsplit

private theorem announced_of_covers (hle : tail + 1 ≤ last)
    (hcovers : Covers key tail last ⟨request, reply⟩) :
    Announced key tail last
      (History.world (before ++ [⟨id, .append key batch, .answered request reply⟩])) := by
  have hfaithful := hreach.faithful hsplit _ _ rfl
  cases hcovers with
  | opened window =>
    intro _
    have habsent := ((History.world before).state.windows.getOrInsert_inserted_iff key _).1
      (congrArg Prod.snd hfaithful).symm
    rw [History.world_answered]
    exact ⟨_, SnapshotMap.get?_getOrInsert_of_absent habsent _, rfl, Nat.le_refl _⟩
  | @kept current hlast hkept =>
    have hwindow : (History.world before).state.windows.get? key = some current := by
      cases hmet : (History.world before).state.windows.get? key with
      | none =>
        have hopened := congrArg Prod.snd
          (hfaithful.trans (congrArg Prod.fst (answer_openWindow hmet (.opened (tail + 1) last))))
        cases hopened
      | some met =>
        have hsame := hfaithful.trans (congrArg Prod.fst (answer_meetWindow hmet _))
        rw [(Prod.mk.inj hsame).1]
    have hannounced := announced_of_kept (hreach.sound_before hsplit) hwindow hle hlast hkept
    have hstate : (History.world (before ++ [⟨id, .append key batch, .answered (.windows
        (.getOrInsert key (.opened (tail + 1) last))) (current, false)⟩])).state =
          (History.world before).state := by
      rw [History.world_answered, answer_meetWindow hwindow]
    unfold Announced
    rwa [streamOf_eq_of_silent ⟨rfl, rfl, rfl, rfl, rfl⟩ hstate rfl]
  | widened current =>
    intro _
    have hcurrent := (hfaithful.trans (SnapshotMap.compareAndSwap_fst _ _ _ _)).symm
    rw [History.world_answered]
    exact ⟨_, SnapshotMap.get?_compareAndSwap_self hcurrent _, rfl, Nat.le_refl _⟩

end Split

/-- An entry that is not among the last ones is among those before them. -/
private theorem exists_of_append_eq_append_cons {α : Type} {first last early late : List α}
    {item : α} (hsplit : first ++ last = early ++ item :: late) (hnot : item ∉ last) :
    ∃ between, first = early ++ item :: between := by
  rcases List.append_eq_append_iff.1 hsplit with ⟨skipped, -, hlast⟩ | ⟨between, rfl, hlate⟩
  · exact absurd (hlast ▸ List.mem_append_right _ List.mem_cons_self) hnot
  · cases between with
    | nil => exact absurd (List.mem_of_mem_head? (congrArg List.head? hlate).symm) hnot
    | cons other between =>
      obtain ⟨rfl, -⟩ := List.cons.inj hlate
      exact ⟨between, rfl⟩

section Commit

variable {before between after : History E} {owner : AggregateKey} {seen : Snapshot (EventLog E)}
  {new : EventLog E} (hreach : Reachable config moment)
  (hsplit : moment.world.history = (before ++ between) ++
    ⟨id, .append key batch, .answered (.logs (.compareAndSwap owner seen new)) true⟩ :: after)
  (hbetween : ∀ exchange ∈ exchangesOf id between, isOfWindows exchange = false)

include hreach hsplit hbetween

/-- The last that an append asks of the windows before it commits covers its batch. -/
private theorem exists_covers_before_commit : IsBatch key (seen.value.tail + 1) batch ∧
    ∃ older request reply newer inserted told,
      before = older ++ ⟨id, .append key batch, .answered request reply⟩ :: newer ∧
      exchangesOf id older = ⟨.logs (.getOrInsert key .empty), (seen, inserted)⟩ :: told ∧
      Covers key seen.value.tail (seen.value.tail + batch.length) ⟨request, reply⟩ := by
  obtain ⟨found, announcing, hbatch, hannouncing, htold, hrequest⟩ :=
    hreach.commit_step hsplit rfl
  cases hrequest
  obtain ⟨early, ⟨request, reply⟩, late, rfl, hcovers, hwindows⟩ := hannouncing.exists_covers
  have hcovered : exchangesOf id (before ++ between) = (validated key found ++ early) ++
      ⟨request, reply⟩ :: (late ++ [⟨.reached .appendMarkedUndelivered key, ()⟩]) := by
    rw [htold]
    simp
  obtain ⟨older, call, rest, hhistory, hearly, -⟩ := exists_split_of_exchangesOf hcovered
  have htells : ⟨id, call, .answered request reply⟩ ∈ moment.world.history := by
    simp [hsplit, hhistory]
  have hcommit : ⟨id, .append key batch, .answered (.logs (.compareAndSwap key found.1
      (found.1.value.append batch))) true⟩ ∈ moment.world.history := by
    simp [hsplit]
  obtain rfl : call = .append key batch := System.Reaches.call_eq hreach htells hcommit rfl
  have hnotBetween : ⟨id, .append key batch, .answered request reply⟩ ∉ between := by
    intro hlate
    have hexchange := hbetween ⟨request, reply⟩ (List.mem_filterMap.2 ⟨_, hlate, if_pos rfl⟩)
    simp [hwindows] at hexchange
  obtain ⟨newer, hbefore⟩ := exists_of_append_eq_append_cons hhistory hnotBetween
  exact ⟨hbatch, older, request, reply, newer, found.2, _, hbefore, hearly, hcovers⟩

/-- Since the last that it has asked of the windows, the batch of an append has been announced. -/
private theorem announced_of_commit : IsBatch key (seen.value.tail + 1) batch ∧
    seen.value.tail ≤ (streamOf (History.world before) key).tail ∧
    Announced key seen.value.tail (seen.value.tail + batch.length) (History.world before) := by
  obtain ⟨hbatch, older, request, reply, newer, inserted, told, rfl, holder, hcovers⟩ :=
    hreach.exists_covers_before_commit hsplit hbetween
  rw [List.append_assoc, List.append_assoc, List.cons_append] at hsplit
  have hlast : seen.value.tail + 1 ≤ seen.value.tail + batch.length :=
    Nat.succ_le_of_lt (Nat.lt_add_of_pos_right (List.length_pos_iff.2 hbatch.ne_nil))
  have hannounced := hreach.announced_of_covers hsplit hlast hcovers
  have hpart : older ++ ⟨id, .append key batch, .answered request reply⟩ :: newer <+:
      moment.world.history := ⟨_, by rw [hsplit, List.append_assoc, List.cons_append]⟩
  have hstep : older ++ [⟨id, .append key batch, .answered request reply⟩] <+:
      older ++ ⟨id, .append key batch, .answered request reply⟩ :: newer := ⟨newer, by simp⟩
  have hfollows := hreach.follows hstep hpart
  have hasked : exchangesOf id (older ++ [⟨id, .append key batch, .answered request reply⟩]) =
      ⟨.logs (.getOrInsert key .empty), (seen, inserted)⟩ :: (told ++ [⟨request, reply⟩]) := by
    rw [exchangesOf_concat_answered, holder]
    rfl
  have hread := hreach.tail_read_le (hstep.trans hpart) hasked
  exact ⟨hbatch, Nat.le_trans hread (hfollows key).tail_le, hannounced.later hread hfollows⟩

/-- From its last request to the windows to its commit an append has its batch covered. -/
theorem covered_until_commit : ∃ window,
    (streamOf (History.world before) key).window = some window ∧
      window.value.first = (streamOf (History.world before) key).tail + 1 ∧
      IsBatch key window.value.first batch ∧
      (streamOf (History.world before) key).tail + batch.length ≤ window.value.last := by
  obtain ⟨hbatch, hle, hannounced⟩ := hreach.announced_of_commit hsplit hbetween
  have hswapped := hreach.faithful hsplit _ _ rfl
  have hlater := hreach.follows (List.prefix_append before between)
    (by rw [hsplit]; exact List.prefix_append _ _) key
  have htail : (streamOf (History.world before) key).tail = seen.value.tail := by
    obtain ⟨hcommits, -⟩ := hreach.warranted hsplit
    cases hcommits with
    | commit _ _ hlog =>
      have hcurrent := (hswapped.trans (SnapshotMap.compareAndSwap_fst _ _ _ _)).symm
      have hend := Stream.tail_of_log (hlog hcurrent)
      have hgrown := hlater.tail_le
      lia
  obtain ⟨window, hwindow, hfirst, hlast⟩ := hannounced htail
  rw [htail]
  exact ⟨window, hwindow, hfirst, hfirst.symm ▸ hbatch, hlast⟩

end Commit

end Reachable

end EventSourcing.Repository
