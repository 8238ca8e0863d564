import EventSourcing.Proofs.Repository.Announcing
import Mathlib.Data.List.Nodup

namespace EventSourcing.Repository

open Interleaving

variable {E : Type}

section

variable {id : Nat} {key : AggregateKey} {batch : List (RecordedEvent E)}
  {first last : SequenceId} {seen : Snapshot (EventLog E)} {start world : World E}

/-- Append number `id` has just read the log of `key`. -/
structure HasRead (id : Nat) (key : AggregateKey) (seen : Snapshot (EventLog E))
    (start : World E) : Prop where
  sound : Sound start
  log : (streamOf start key).log = some seen
  history : ∃ (before : History E) (entry : Entry E), start.history = before ++ [entry] ∧
    (∀ other ∈ before, Entry.read? id other = none) ∧ entry.read? id = some seen

theorem HasRead.tail (hread : HasRead id key seen start) :
    (streamOf start key).tail = seen.value.tail :=
  Stream.tail_of_log hread.log

theorem HasRead.read? (hread : HasRead id key seen start) {history : History E}
    (hextends : start.history <+: history) : History.read? history id = some seen := by
  obtain ⟨before, entry, hstart, hbefore, hentry⟩ := hread.history
  obtain ⟨rest, rfl⟩ := hextends
  have hnone : before.findSome? (Entry.read? id) = none := List.findSome?_eq_none_iff.2 hbefore
  simp [History.read?, hstart, List.findSome?_append, hnone, hentry]

/-- What happens between the reading of the log and the first attempt to commit is the race. -/
theorem HasRead.race_eq (hread : HasRead id key seen start) {between rest : History E}
    (hbetween : ∀ entry ∈ between, entry.attempts id = false)
    (hrest : ∀ entry, rest.head? = some entry → entry.attempts id = true) :
    History.race (start.history ++ between ++ rest) id = between := by
  obtain ⟨before, entry, hstart, hbefore, hentry⟩ := hread.history
  have hstop : rest.takeWhile (fun entry => !entry.attempts id) = [] := by
    cases rest with
    | nil => rfl
    | cons attempt rest => simp [hrest attempt rfl]
  rw [hstart, List.append_assoc, List.append_assoc, List.singleton_append,
    History.race_append hbefore hentry, List.takeWhile_append_of_pos (by simpa using hbetween),
    hstop, List.append_nil]

/-- The log has grown exactly if something was committed to it. -/
theorem tail_eq_iff_commits_eq_nil (hstart : Sound start) (hworld : Sound world)
    {between : History E} (hhistory : world.history = start.history ++ between) :
    (streamOf world key).tail = (streamOf start key).tail ↔
      History.commits between key = [] := by
  have hcommits : (streamOf world key).commits =
      (streamOf start key).commits ++ History.commits between key := by
    simp only [streamOf, hhistory, History.commits, List.filterMap_append]
  rw [(hworld key).tail_eq_length, (hstart key).tail_eq_length, (hworld key).events_eq,
    (hstart key).events_eq, hcommits, List.flatMap_append, List.length_append]
  constructor
  · intro hlength
    refine Stream.commits_eq_nil_of_batch_ne_nil ?_ (by lia)
    intro commit hcommit
    refine (hworld key).batch_ne_nil commit ?_
    rw [hcommits]
    exact List.mem_append_right _ hcommit
  · intro hnil
    simp [hnil]

theorem Raced.won {history : History E} (hfirst : first = seen.value.tail + 1)
    (hrace : ¬ History.Overtaken history key id) (hmet : ¬ History.ShutOut history id first last) :
    Raced history id key first last seen (.ok ()) where
  ok_iff := by simp [hfirst, hrace]
  of_not_shutOut := fun _ => .inl rfl
  of_shutOut := fun h => absurd h hmet

theorem Raced.lost {history : History E}
    (hrace : first = seen.value.tail + 1 → History.Overtaken history key id)
    (hmet : ¬ History.ShutOut history id first last) :
    Raced history id key first last seen (.error (.optimisticConcurrency key)) where
  ok_iff := by simpa using hrace
  of_not_shutOut := fun _ => .inr rfl
  of_shutOut := fun h => absurd h hmet

theorem Raced.shutOut {history : History E} (hrace : History.Overtaken history key id)
    {met : Snapshot Window} (hmet : History.met? history id = some met)
    (hshut : first < met.value.first ∧ met.value.last ≤ last) :
    Raced history id key first last seen (.error (.beforeWindow first met.value.first)) where
  ok_iff := by simp [hrace]
  of_not_shutOut := fun h => absurd ⟨met, hmet, hshut⟩ h
  of_shutOut := fun _ => ⟨hrace, met, hmet, rfl⟩

/-- How the attempt of append number `id` to commit has ended. What is said of the race holds
however the history goes on. -/
def CommitEnds (id : Nat) (key : AggregateKey) (batch : List (RecordedEvent E))
    (first : SequenceId) (seen : Snapshot (EventLog E)) (start : World E) (result : Result Bool)
    (later : World E) : Prop :=
  match result with
  | .ok true => Since id 3 start later ∧ (id, batch) ∈ History.commits later.history key ∧
      (seen.value.tail = 0 → (History.commits later.history key).head? = some (id, batch)) ∧
      ∀ history, later.history <+: history →
        Raced history id key first (first + (batch.length - 1)) seen (.ok ())
  | .ok false => Since id 0 start later ∧ first ≤ seen.value.tail ∨
      Since id 2 start later ∧ ∀ history, later.history <+: history →
        Raced history id key first (first + (batch.length - 1)) seen
          (.error (.optimisticConcurrency key))
  | .error error => Since id 1 start later ∧
      Raced later.history id key first (first + (batch.length - 1)) seen (.error error)

variable {config : RepositoryConfig}

private theorem not_shutOut {history before : History E} {met : Snapshot Window}
    (hextends : before <+: history) (hmet : History.met? before id = some met)
    (hopen : ¬ (first < met.value.first ∧ met.value.last ≤ last)) :
    ¬ History.ShutOut history id first last := by
  rintro ⟨other, hother, hshut⟩
  rw [History.met?_of_extends hextends hmet] at hother
  cases hother
  exact hopen hshut

/-- Whether an append has been overtaken is decided when it tries to commit: the log it has read is
the log of that moment, or it has grown. -/
private theorem HasRead.overtaken_iff (hread : HasRead id key seen start)
    (hsince : Since id 1 start world) {rest : History E}
    (hrest : ∀ entry, rest.head? = some entry → entry.attempts id = true) :
    History.Overtaken (world.history ++ rest) key id ↔
      (streamOf world key).tail ≠ seen.value.tail := by
  obtain ⟨between, hbetween⟩ := hsince.history
  have hrace : History.race (world.history ++ rest) id = between := by
    rw [← hbetween]
    refine hread.race_eq (fun entry hentry => ?_) hrest
    refine hsince.within.attempts_eq_false entry ?_
    rw [← hbetween]
    exact List.mem_append_right _ hentry
  rw [History.Overtaken, hrace, Ne,
    ← tail_eq_iff_commits_eq_nil hread.sound hsince.sound hbetween.symm, hread.tail]

section Attempt

variable {met : Snapshot Window} (hread : HasRead id key seen start)
  (hsince : Since id 1 start world) (hmet : History.met? world.history id = some met)
  (hopen : ¬ (seen.value.tail + 1 < met.value.first ∧
    met.value.last ≤ seen.value.tail + 1 + (batch.length - 1)))

include hread hsince hmet hopen

/-- The log is still the one that was read, and the window covers the batch. -/
private theorem keeps_swap (hbatch : IsBatch key (seen.value.tail + 1) batch)
    (hcurrent : world.state.logs.isCurrent key seen = true)
    (hannounced : Announced key seen.value.tail (seen.value.tail + 1 + (batch.length - 1)) world) :
    (calls config).Keeps laws id (.append key batch)
      (CommitEnds id key batch (seen.value.tail + 1) seen start)
      (step (.logs (.compareAndSwap key seen (seen.value.append batch))) >>= fun swapped =>
        .done (.ok swapped)) world := by
  have hpos : 0 < batch.length := List.length_pos_iff.2 hbatch.ne_nil
  have hvalid := hsince.sound key
  -- A log with the stamp of the one that was read can only be that log itself.
  have hlog : (streamOf world key).log = some seen := by
    obtain ⟨log, hlog, hstamp⟩ := SnapshotMap.isCurrent_iff.1 hcurrent
    rcases (hsince.follows key).log seen hread.log with h | ⟨new, h, hlt, -⟩
    · exact h
    · obtain rfl : log = new := Option.some.inj (hlog.symm.trans h)
      omega
  have htail := Stream.tail_of_log hlog
  obtain ⟨window, hwindow, hfirst, hlast⟩ := hannounced htail
  have hpositions : batch.map (·.sequenceId) =
      List.range' ((streamOf world key).tail + 1) batch.length := by
    rw [htail]
    exact hbatch.positions
  refine hsince.keeps_change hread.sound (answer_swapLog hcurrent _) rfl
    (Changes.committed hcurrent)
    (hvalid.committed hlog hbatch.ne_nil hpositions hbatch.belongs
      (hsince.within.mono (by simp)).commit_ne (hsince.within.mono (by simp)).return_ne hwindow
      (by lia))
    (.committed hlog (SnapshotMap.stamp_lt_of_get? hlog) hbatch.ne_nil hpositions hwindow
      (by lia))
    (by simp : 1 ≤ 3) (Nat.le_refl _) ?_
  intro after hhistory hafter hstream
  have hcommits : History.commits after.history key =
      (streamOf world key).commits ++ [(id, batch)] := congrArg Stream.commits hstream
  refine ⟨hafter, ?_, ?_, ?_⟩
  · rw [hcommits]
    exact List.mem_append_right _ List.mem_cons_self
  · intro hzero
    rw [hcommits, hvalid.commits_eq_nil (htail.trans hzero)]
    rfl
  · intro history hextends
    rw [hhistory] at hextends
    obtain ⟨rest, rfl⟩ := hextends
    rw [List.append_assoc]
    refine Raced.won rfl ?_ (not_shutOut (List.prefix_append _ _) hmet hopen)
    rw [hread.overtaken_iff hsince (by simp [Entry.attempts])]
    exact fun hne => hne htail

/-- Another log has taken the place of the one that was read. -/
private theorem keeps_swap_of_not (hcurrent : world.state.logs.isCurrent key seen = false) :
    (calls config).Keeps laws id (.append key batch)
      (CommitEnds id key batch (seen.value.tail + 1) seen start)
      (step (.logs (.compareAndSwap key seen (seen.value.append batch))) >>= fun swapped =>
        .done (.ok swapped)) world := by
  refine hsince.keeps_same hread.sound (answer_swapLog_of_not hcurrent _) rfl (fun _ => rfl)
    (fun _ => ⟨rfl, rfl, rfl, rfl, rfl⟩) (by simp : 1 ≤ 2) (Nat.le_refl _) ?_
  intro after _ hhistory hafter hsame
  refine .inr ⟨hafter, ?_⟩
  intro history hextends
  rw [hhistory] at hextends
  obtain ⟨rest, rfl⟩ := hextends
  rw [List.append_assoc]
  refine Raced.lost (fun _ => ?_) (not_shutOut (List.prefix_append _ _) hmet hopen)
  rw [hread.overtaken_iff hsince (by simp [Entry.attempts])]
  intro htail
  have hlog := (hsince.follows key).log_of_tail_eq hread.log (htail.trans hread.tail.symm)
  have hcurrent' := SnapshotMap.isCurrent_iff.2 ⟨seen, hlog, rfl⟩
  simp [hcurrent] at hcurrent'

end Attempt

/-- A batch goes through unless it begins inside the log, has its announcement refused, or comes too
late. -/
private theorem keeps_commit (hread : HasRead id key seen start) (hbatch : IsBatch key first batch)
    (hgap : first ≤ seen.value.tail + 1) (hsince : Since id 0 start world) :
    (calls config).Keeps laws id (.append key batch) (CommitEnds id key batch first seen start)
      (commit config key seen first (first + (batch.length - 1)) batch) world := by
  unfold commit
  split
  · next hinside => exact .inl ⟨hsince, hinside⟩
  · next hbehind =>
    obtain rfl : first = seen.value.tail + 1 := by lia
    refine (keeps_markUndelivered hread.sound hread.tail hsince (by lia)).bind ?_
    rintro result later ⟨hlater, met, hmet, hends⟩
    match result with
    | .error error =>
      obtain ⟨hshut, rfl, hgrown⟩ := hends
      refine ⟨hlater, Raced.shutOut ?_ hmet hshut⟩
      rw [← List.append_nil later.history, hread.overtaken_iff hlater (by simp)]
      exact Nat.ne_of_gt hgrown
    | .ok _ =>
      obtain ⟨hopen, hannounced⟩ := hends
      have htail := (hlater.follows key).tail_le
      rw [hread.tail] at htail
      refine hlater.keeps_reached hread.sound (by simp) ?_
      intro marked hmarked hpassed
      have hmet' := History.met?_of_extends hpassed.history hmet
      cases hcurrent : marked.state.logs.isCurrent key seen with
      | true =>
        exact keeps_swap hread hmarked hmet' hopen hbatch hcurrent
          (hannounced.later htail hpassed.follows)
      | false => exact keeps_swap_of_not hread hmarked hmet' hopen hcurrent

/-- The first append to an aggregate finds no trace of it in the index, and nothing comes between
looking at the index and swapping it. -/
private theorem keeps_addToIndex (hstart : Sound start) (hsince : Since id 3 start world)
    (hhead : (History.commits world.history key).head? = some (id, batch)) (passes : Nat) :
    (calls config).Keeps laws id (.append key batch)
      (fun outcome later => outcome = .ok () ∧ Since id 4 start later)
      (addToIndex key (passes + 1)) world := by
  rcases hindex : world.state.indexes.getOrInsert key.type .empty with
    ⟨⟨current, inserted⟩, indexes⟩
  have hget := world.state.indexes.get?_getOrInsert_self key.type .empty
  have hstate : ∀ other, streamOf ⟨{ world.state with indexes }, world.history⟩ other =
      streamOf world other := by
    intro other
    have hinserted : streamOf ⟨{ world.state with
        indexes := (world.state.indexes.getOrInsert key.type .empty).2 }, world.history⟩ other =
        streamOf world other := streamOf_getOrInsert_index key.type
    rwa [hindex] at hinserted
  rw [hindex] at hget
  have hanswer : world.state.answer (.indexes (.getOrInsert key.type .empty)) =
      ((current, inserted), { world.state with indexes }) := by
    simp [answer, SnapshotMap.answer, hindex]
  refine hsince.keeps_same hstart hanswer rfl hstate (fun _ => ⟨rfl, rfl, rfl, rfl, rfl⟩)
    (Nat.le_refl _) (Nat.zero_le _) ?_
  intro looked hlookedState hhistory hlooked hsame
  have hhead' : (streamOf looked key).commits.head? = some (id, batch) := by
    rw [hsame key]
    exact hhead
  have hcurrent : looked.state.indexes.get? key.type = some current := by
    rw [hlookedState]
    exact hget
  dsimp only
  split
  · -- An indexed aggregate was put there by its first append, which is this one.
    next hmem =>
    obtain ⟨commit, hcommit, hindexing⟩ := (hlooked.sound key).indexed ⟨current, hcurrent, hmem⟩
    rw [hhead'] at hcommit
    cases hcommit
    exact absurd hindexing hlooked.within.indexing_ne
  · have hswap := SnapshotMap.isCurrent_iff.2 ⟨current, hcurrent, rfl⟩
    refine hlooked.keeps_change hstart (answer_swapIndex hswap _) rfl (Changes.enrolled hcurrent)
      ((hlooked.sound key).enrolled ⟨_, hhead', rfl⟩)
      (.of_same rfl rfl (Nat.le_refl _) fun h => h) (by simp : 3 ≤ 4) (Nat.le_refl _) ?_
    intro after _ hafter _
    exact ⟨rfl, hafter⟩

/-- How append number `id` is about to return: its batch is in the log if and only if it succeeds,
nothing else of it is, and it ends as its race has ended. -/
structure AppendEnds (id : Nat) (key : AggregateKey) (batch : List (RecordedEvent E))
    (outcome : Result Unit) (world : World E) : Prop where
  sound : Sound world
  within : History.Within world.history id 4
  mem_commits_iff : batch ≠ [] → ∀ other,
    (id, other) ∈ History.commits world.history key ↔ other = batch ∧ outcome = .ok ()
  raced : ∀ first, IsBatch key first batch → ∃ seen, History.read? world.history id = some seen ∧
    (first ≤ seen.value.tail + 1 →
      Raced world.history id key first (first + (batch.length - 1)) seen outcome)

private theorem AppendEnds.of_hasRead (hread : HasRead id key seen start)
    (hbatch : IsBatch key first batch) {outcome : Result Unit} (hsince : Since id 4 start world)
    (hcommits : ∀ other,
      (id, other) ∈ History.commits world.history key ↔ other = batch ∧ outcome = .ok ())
    (hraced : first ≤ seen.value.tail + 1 →
      Raced world.history id key first (first + (batch.length - 1)) seen outcome) :
    AppendEnds id key batch outcome world := by
  refine ⟨hsince.sound, hsince.within, fun _ => hcommits, fun other hother => ?_⟩
  obtain rfl := hbatch.unique hother
  exact ⟨seen, hread.read? hsince.history, hraced⟩

/-- An append that has not committed is right to report an error. -/
private theorem refused {history : History E} (hwithin : History.Within history id 2)
    (error : RepositoryError) (other : List (RecordedEvent E)) :
    (id, other) ∈ History.commits history key ↔
      other = batch ∧ (.error error : Result Unit) = .ok () :=
  iff_of_false (fun hmem => hwithin.commit_ne _ hmem rfl) (by simp)

/-- An append that has committed has nothing but its batch in the log. -/
private theorem accepted (hsound : Sound world)
    (hmem : (id, batch) ∈ History.commits world.history key) (other : List (RecordedEvent E)) :
    (id, other) ∈ History.commits world.history key ↔
      other = batch ∧ (.ok () : Result Unit) = .ok () := by
  refine ⟨fun hother => ⟨?_, rfl⟩, fun h => h.1 ▸ hmem⟩
  have heq := List.inj_on_of_nodup_map (hsound key).commits_nodup hother hmem rfl
  exact congrArg Prod.snd heq

theorem mem_commits_of_extends {before after : History E} (hextends : before <+: after)
    {commit : Nat × List (RecordedEvent E)} (hmem : commit ∈ History.commits before key) :
    commit ∈ History.commits after key := by
  obtain ⟨rest, rfl⟩ := hextends
  rw [History.commits, List.filterMap_append]
  exact List.mem_append_left _ hmem

theorem head?_commits_of_extends {before after : History E} (hextends : before <+: after)
    {commit : Nat × List (RecordedEvent E)}
    (hhead : (History.commits before key).head? = some commit) :
    (History.commits after key).head? = some commit := by
  obtain ⟨rest, rfl⟩ := hextends
  rw [History.commits] at hhead
  rw [History.commits, List.filterMap_append, List.head?_append, hhead]
  rfl

/-- The report of a lost race. -/
private theorem keeps_conflict (hread : HasRead id key seen start)
    (hbatch : IsBatch key first batch)
    (hends : CommitEnds id key batch first seen start (.ok false) world) (isNew : Bool) :
    (calls config).Keeps laws id (.append key batch) (AppendEnds id key batch)
      (conclude config key isNew false) world := by
  rcases hends with ⟨hsince, hinside⟩ | ⟨hsince, hraced⟩
  · refine hsince.keeps_reached hread.sound (by simp) ?_
    intro later hlater _
    have hmet : ¬ History.ShutOut later.history id first (first + (batch.length - 1)) := by
      rintro ⟨met, hmet, -⟩
      rw [hlater.within.met?_eq_none] at hmet
      cases hmet
    exact .of_hasRead hread hbatch (hlater.mono (Nat.zero_le 4))
      (refused (hlater.within.mono (Nat.zero_le 2)) _) fun _ =>
        Raced.lost (fun heq => absurd hinside (by lia)) hmet
  · refine hsince.keeps_reached hread.sound (by simp) ?_
    intro later hlater hpassed
    exact .of_hasRead hread hbatch (hlater.mono (by simp)) (refused hlater.within _) fun _ =>
      hraced later.history hpassed.history

/-- The report of a commit, after which a new aggregate comes into the index of its type. -/
private theorem keeps_success (hread : HasRead id key seen start) (hbatch : IsBatch key first batch)
    (hends : CommitEnds id key batch first seen start (.ok true) world) :
    (calls config).Keeps laws id (.append key batch) (AppendEnds id key batch)
      (conclude config key (seen.value.tail == 0) true) world := by
  obtain ⟨hsince, hmem, hhead, hraced⟩ := hends
  have hself : Since id 3 world world := .refl hsince.sound hsince.within
  refine hself.keeps_reached hsince.sound (by simp) ?_
  intro reported hreported _
  have hfinal : ∀ later, Since id 4 world later → AppendEnds id key batch (.ok ()) later := by
    intro later hlater
    refine .of_hasRead hread hbatch (hsince.trans hread.sound hlater) ?_ fun _ => ?_
    · exact accepted hlater.sound (mem_commits_of_extends hlater.history hmem)
    · exact hraced later.history hlater.history
  split
  · next hzero =>
    obtain ⟨passes, hpasses⟩ := config.liveLockLimit.exists_value_eq_succ
    have hhead' := head?_commits_of_extends hreported.history (hhead (by simpa using hzero))
    rw [hpasses]
    refine (keeps_addToIndex hsince.sound hreported hhead' passes).mono ?_
    rintro outcome later ⟨rfl, hlater⟩
    exact hfinal later hlater
  · exact hfinal reported (hreported.mono (by simp))

/-- The first look at the log, which gives a new aggregate a log without events. -/
private theorem keeps_readLog (hsound : Sound world)
    (hunread : ∀ entry ∈ world.history, Entry.read? id entry = none)
    (hwithin : History.Within world.history id 0) {α : Type} {post : α → World E → Prop}
    {next : Snapshot (EventLog E) × Bool → Operation E α}
    (hnext : ∀ seen inserted start, HasRead id key seen start → Since id 0 start start →
      (calls config).Keeps laws id (.append key batch) post (next (seen, inserted)) start) :
    (calls config).Keeps laws id (.append key batch) post
      (step (.logs (.getOrInsert key .empty)) >>= next) world := by
  have hself : Since id 0 world world := .refl hsound hwithin
  cases hlog : world.state.logs.get? key with
  | some seen =>
    refine hself.keeps_same hsound (answer_readLog hlog) rfl (fun _ => rfl)
      (fun _ => ⟨rfl, rfl, rfl, rfl, rfl⟩) (Nat.le_refl _) (Nat.le_refl _) ?_
    intro start _ hhistory hstart hsame
    refine hnext seen false start ⟨hstart.sound, ?_, ?_⟩ (.refl hstart.sound hstart.within)
    · rw [hsame key]
      exact hlog
    · exact ⟨_, _, hhistory, hunread, by simp [Entry.read?]⟩
  | none =>
    refine hself.keeps_change hsound (answer_createLog hlog) rfl
      (Changes.created (fun _ => ⟨rfl, rfl, rfl, rfl, rfl⟩) hlog) ((hsound key).created hlog _)
      (.created hlog _) (Nat.le_refl _) (Nat.le_refl _) ?_
    intro start hhistory hstart hstream
    refine hnext _ true start ⟨hstart.sound, ?_, ?_⟩ (.refl hstart.sound hstart.within)
    · rw [hstream]
      rfl
    · exact ⟨_, _, hhistory, hunread, by simp [Entry.read?]⟩

private theorem keeps_appendChecked (hsound : Sound world)
    (hunread : ∀ entry ∈ world.history, Entry.read? id entry = none)
    (hwithin : History.Within world.history id 0) (hbatch : IsBatch key first batch) :
    (calls config).Keeps laws id (.append key batch) (AppendEnds id key batch)
      (appendChecked config key first (first + (batch.length - 1)) batch) world := by
  refine keeps_readLog hsound hunread hwithin ?_
  intro seen inserted start hread hself
  dsimp only
  split
  · next hgap =>
    exact .of_hasRead hread hbatch (hself.mono (by simp))
      (refused (hself.within.mono (Nat.zero_le 2)) _) fun hle => absurd hgap (Nat.not_lt_of_le hle)
  · next hgap =>
    refine hself.keeps_reached hread.sound (by simp) ?_
    intro validated hvalidated _
    refine (keeps_commit hread hbatch (Nat.le_of_not_lt hgap) hvalidated).bind ?_
    intro result later hends
    match result with
    | .error error =>
      obtain ⟨hsince, hraced⟩ := hends
      exact .of_hasRead hread hbatch (hsince.mono (by simp))
        (refused (hsince.within.mono (by simp)) _) fun _ => hraced
    | .ok true => exact keeps_success hread hbatch hends
    | .ok false => exact keeps_conflict hread hbatch hends _

end

/-- Appending keeps the laws, and returns as it should. -/
theorem keeps_append (config : RepositoryConfig) {id : Nat} (key : AggregateKey)
    (batch : List (RecordedEvent E)) {world : World E} (hsound : Sound world)
    (hunread : ∀ entry ∈ world.history, Entry.read? id entry = none)
    (hwithin : History.Within world.history id 0) :
    (calls config).Keeps laws id (.append key batch) (AppendEnds id key batch)
      (append config key batch) world := by
  by_cases hbatch : ∃ first, IsBatch key first batch
  · obtain ⟨first, hbatch⟩ := hbatch
    rw [append_of_isBatch config hbatch]
    exact keeps_appendChecked hsound hunread hwithin hbatch
  · have hnot := not_exists.1 hbatch
    have hraced : ∀ outcome first, IsBatch key first batch → ∃ seen,
        History.read? world.history id = some seen ∧ (first ≤ seen.value.tail + 1 →
          Raced world.history id key first (first + (batch.length - 1)) seen outcome) :=
      fun _ first h => absurd h (hnot first)
    by_cases hempty : batch = []
    · subst hempty
      exact ⟨hsound, hwithin.mono (by simp), fun h => absurd rfl h, hraced _⟩
    · obtain ⟨fault, hfault⟩ := append_of_not_isBatch config hempty hnot
      rw [hfault]
      exact ⟨hsound, hwithin.mono (by simp), fun _ => refused (hwithin.mono (by simp)) _,
        hraced _⟩

end EventSourcing.Repository
