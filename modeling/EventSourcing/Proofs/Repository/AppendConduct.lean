import EventSourcing.Proofs.Repository.Appending
import EventSourcing.Proofs.Repository.Conduct

namespace EventSourcing.Repository

open Interleaving

variable {E : Type}

section

variable {id : Nat} {key : AggregateKey} {batch : List (RecordedEvent E)}

namespace History.Candid

variable {history later : History E}

theorem of_within (hwithin : Within history id 0) : Candid history key id batch := by
  refine .inl fun entry hentry => ?_
  cases hopened : entry.opened? key with
  | none => rfl
  | some first =>
    obtain ⟨hmem, hid⟩ := mem_own.1 hentry
    have hstage := Entry.of_opened?_eq_some hopened
    have hle := hwithin entry hmem hid
    omega

/-- An append stays candid as long as it opens no window. -/
theorem step {entry : Entry E} (hcandid : Candid history key id batch)
    (hextends : history <+: later) (hown : own later id = own history id ++ [entry])
    (hopened : entry.opened? key = none) : Candid later key id batch := by
  rcases hcandid with hnone | hannounced
  · refine .inl fun other hother => ?_
    rw [hown] at hother
    rcases List.mem_append.1 hother with h | h
    · exact hnone other h
    · rw [List.mem_singleton.1 h]
      exact hopened
  · obtain ⟨rest, rfl⟩ := hextends
    refine .inr ?_
    rw [announcements, List.filterMap_append]
    exact List.mem_append_left _ hannounced

theorem concat {entry : Entry E} (hcandid : Candid history key id batch)
    (hlater : later = history ++ [entry]) (hid : entry.id = id)
    (hopened : entry.opened? key = none) : Candid later key id batch := by
  subst hlater
  exact hcandid.step (List.prefix_append _ _) (own_concat hid) hopened

theorem of_announced (hextends : history ++ [⟨id, .append key batch,
      .answered (.reached .appendMarkedUndelivered key) ()⟩] <+: later) :
    Candid later key id batch := by
  obtain ⟨rest, rfl⟩ := hextends
  refine .inr (List.mem_filterMap.2 ⟨_, List.mem_append_left _ (List.mem_append_right _
    List.mem_cons_self), ?_⟩)
  simp [Entry.announcement?]

end History.Candid

variable {config : RepositoryConfig} {first last : SequenceId} {seen : Snapshot (EventLog E)}
  {start world : World E}

/-- An append may fail like this: it has been candid, and it does not complain about the index. -/
def Refuses (id : Nat) (key : AggregateKey) (batch : List (RecordedEvent E))
    (error : RepositoryError) (world : World E) : Prop :=
  History.Candid world.history key id batch ∧ ∀ other, error ≠ .duplicateId other

theorem Refuses.isWarranted (config : RepositoryConfig) {error : RepositoryError}
    (hrefuses : Refuses id key batch error world) :
    IsWarranted config world ⟨id, .append key batch, .returned (.error error)⟩ :=
  ⟨.fail fun other heq => absurd heq (hrefuses.2 other), .inr hrefuses.1⟩

private theorem conducts_widenWindow (hread : HasRead id key seen start)
    (hsince : Since id 0 start world) (passes : Nat) {checkpoint : Checkpoint} :
    Conducts config id (.append key batch)
      (fun result later => Since id 1 start later ∧
        ∀ error, result = .error error → Refuses id key batch error later)
      (widenWindow key seen.value.tail (seen.value.tail + 1) last (passes + 1) checkpoint)
      world := by
  refine hsince.conducts_reached hread.sound ⟨.reached _, .inr (.of_within hsince.within)⟩ ?_
  intro started _ _ _ hstarted _
  have hcandid : History.Candid started.history key id batch := .of_within hstarted.within
  have htail := (hstarted.follows key).tail_le
  rw [hread.tail] at htail
  have hmeets : ∀ reply, IsWarranted config started ⟨id, .append key batch,
      .answered (.windows (.getOrInsert key (.opened (seen.value.tail + 1) last))) reply⟩ :=
    fun reply => ⟨.meetWindow reply (hread.read? hstarted.history) htail hstarted.within,
      .inr hcandid⟩
  cases hwindow : started.state.windows.get? key with
  | none =>
    -- What has been opened is announced next, whatever else is true.
    refine hstarted.conducts_step hread.sound (answer_openWindow hwindow _) rfl (Nat.zero_le _)
      (Nat.le_refl 1) (hmeets _) ?_
    intro after _ _ _ hafter
    exact ⟨hafter, nofun⟩
  | some current =>
    refine hstarted.conducts_step hread.sound (answer_meetWindow hwindow _) rfl (Nat.zero_le _)
      (Nat.le_refl 1) (hmeets _) ?_
    intro met hstate hhistory _ hmet
    have hcandid := hcandid.concat hhistory rfl rfl
    rw [← hstate] at hwindow
    dsimp only
    rw [if_neg Bool.false_ne_true]
    split
    · refine hmet.conducts_reached hread.sound ⟨.reached _, .inr hcandid⟩ ?_
      intro later _ _ _ hlater _
      exact ⟨hlater, nofun⟩
    split
    · refine ⟨hmet, fun error heq => ?_⟩
      cases heq
      exact ⟨hcandid, nofun⟩
    · have hcurrent := SnapshotMap.isCurrent_iff.2 ⟨current, hwindow, rfl⟩
      refine hmet.conducts_step hread.sound (answer_swapWindow hcurrent _) rfl (Nat.le_refl _)
        (Nat.le_refl _) ⟨.widen _ hwindow, .inr hcandid⟩ ?_
      intro after _ _ _ hafter
      exact ⟨hafter, nofun⟩

/-- How append number `id` goes on when it has tried to commit. -/
def CommitConduct (id : Nat) (key : AggregateKey) (batch : List (RecordedEvent E))
    (seen : Snapshot (EventLog E)) (start : World E) (result : Result Bool) (later : World E) :
    Prop :=
  match result with
  | .ok true => Since id 3 start later ∧ History.Candid later.history key id batch ∧
      (id, batch) ∈ History.commits later.history key ∧ (seen.value.tail ≠ 0 →
        ∃ commit, (History.commits later.history key).head? = some commit ∧ commit.1 ≠ id)
  | .ok false => Since id 2 start later ∧ History.Candid later.history key id batch
  | .error error => Refuses id key batch error later

private theorem conducts_swapLog (hread : HasRead id key seen start)
    (hsince : Since id 1 start world) (hcandid : History.Candid world.history key id batch) :
    Conducts config id (.append key batch) (CommitConduct id key batch seen start)
      (step (.logs (.compareAndSwap key seen (seen.value.append batch))) >>= fun swapped =>
        .done (.ok swapped)) world := by
  have hlog : world.state.logs.isCurrent key seen = true →
      (streamOf world key).log = some seen := by
    intro hcurrent
    obtain ⟨log, hlog, hstamp⟩ := SnapshotMap.isCurrent_iff.1 hcurrent
    rcases (hsince.follows key).log seen hread.log with h | ⟨new, h, hlt, -⟩
    · exact h
    · obtain rfl : log = new := Option.some.inj (hlog.symm.trans h)
      omega
  have hcommits : ∀ reply, IsWarranted config world ⟨id, .append key batch,
      .answered (.logs (.compareAndSwap key seen (seen.value.append batch))) reply⟩ :=
    fun reply => ⟨.commit reply (hread.read? hsince.history) hlog, .inr hcandid⟩
  cases hcurrent : world.state.logs.isCurrent key seen with
  | false =>
    refine hsince.conducts_step hread.sound (answer_swapLog_of_not hcurrent _) rfl
      (by simp : 1 ≤ 2) (Nat.le_refl _) (hcommits _) ?_
    intro after _ hhistory _ hafter
    exact ⟨hafter, hcandid.concat hhistory rfl rfl⟩
  | true =>
    refine hsince.conducts_step hread.sound (answer_swapLog hcurrent _) rfl
      (by simp : 1 ≤ 3) (Nat.le_refl _) (hcommits _) ?_
    intro after _ hhistory _ hafter
    have hcommits : History.commits after.history key =
        History.commits world.history key ++ [(id, batch)] := by
      rw [hhistory]
      simp [Entry.commit?]
    refine ⟨hafter, hcandid.concat hhistory rfl rfl, ?_, fun hold => ?_⟩
    · rw [hcommits]
      exact List.mem_append_right _ List.mem_cons_self
    · -- A log with events in it has got them from others, who have committed before.
      have hvalid := hsince.sound key
      cases hbefore : History.commits world.history key with
      | nil =>
        have htail := hvalid.tail_eq_length
        rw [hvalid.events_eq, Stream.tail_of_log (hlog hcurrent)] at htail
        change seen.value.tail = ((History.commits world.history key).flatMap (·.2)).length at htail
        simp [hbefore] at htail
        exact absurd htail hold
      | cons commit rest =>
        have hothers : ∀ other ∈ History.commits world.history key, other.1 ≠ id :=
          (hsince.within.mono (by simp)).commit_ne
        rw [hbefore] at hcommits hothers
        exact ⟨commit, congrArg List.head? hcommits, hothers commit List.mem_cons_self⟩

private theorem conducts_commit (hread : HasRead id key seen start) (hle : first ≤ last)
    (hgap : first ≤ seen.value.tail + 1) (hsince : Since id 0 start world) :
    Conducts config id (.append key batch) (CommitConduct id key batch seen start)
      (commit config key seen first last batch) world := by
  unfold commit
  split
  · exact ⟨hsince.mono (Nat.zero_le 2), .of_within hsince.within⟩
  · obtain rfl : first = seen.value.tail + 1 := by lia
    have hrange : ¬ (decide (last < seen.value.tail + 1) ||
        decide (seen.value.tail + 1 ≤ seen.value.tail)) = true := by
      simp only [Bool.or_eq_true, decide_eq_true_eq]
      lia
    rw [markUndelivered, if_neg hrange]
    obtain ⟨passes, hpasses⟩ := config.liveLockLimit.exists_value_eq_succ
    rw [hpasses]
    refine (conducts_widenWindow hread hsince passes).bind ?_
    rintro result later ⟨hlater, hrefuses⟩
    cases result with
    | error error => exact hrefuses error rfl
    | ok _ =>
      refine hlater.conducts_reached hread.sound
        ⟨.reached _, .inl (by simp [Entry.announcement?])⟩ ?_
      intro marked hextends _ _ hmarked _
      exact conducts_swapLog hread hmarked (.of_announced hextends)

/-- An append that has committed puts a new aggregate into the index of its type, at the first
attempt, because nothing comes between looking at the index and swapping it. -/
private theorem conducts_addToIndex (hstart : Sound start) (hsince : Since id 3 start world)
    (hcandid : History.Candid world.history key id batch)
    (hmem : (id, batch) ∈ History.commits world.history key) (passes : Nat) :
    Conducts config id (.append key batch)
      (fun outcome later => IsWarranted config later ⟨id, .append key batch, .returned outcome⟩)
      (addToIndex key (passes + 1)) world := by
  rcases hindex : world.state.indexes.getOrInsert key.type .empty with
    ⟨⟨current, inserted⟩, indexes⟩
  have hget := world.state.indexes.get?_getOrInsert_self key.type .empty
  rw [hindex] at hget
  have hanswer : world.state.answer (.indexes (.getOrInsert key.type .empty)) =
      ((current, inserted), { world.state with indexes }) := by
    simp [answer, SnapshotMap.answer, hindex]
  refine hsince.conducts_step hstart hanswer rfl (Nat.le_refl _) (Nat.zero_le _)
    ⟨.lookUp _, .inr hcandid⟩ ?_
  intro looked hstate hhistory _ hlooked
  have hcandid := hcandid.concat hhistory rfl rfl
  have hextends : world.history <+: looked.history := ⟨_, hhistory.symm⟩
  have hcurrent : looked.state.indexes.get? key.type = some current := by
    rw [hstate]
    exact hget
  dsimp only
  split
  · exact ⟨.fail fun _ _ => mem_commits_of_extends hextends hmem, .inr hcandid⟩
  · next habsent =>
    have hswap := SnapshotMap.isCurrent_iff.2 ⟨current, hcurrent, rfl⟩
    refine hlooked.conducts_step hstart (answer_swapIndex hswap _) rfl (by simp : 3 ≤ 4)
      (Nat.le_refl _) ⟨.enrol _ hcurrent habsent, .inr hcandid⟩ ?_
    intro after _ hafter _ _
    refine ⟨.succeed fun _ => ?_, .inr (hcandid.concat hafter rfl rfl)⟩
    rw [hafter]
    exact List.mem_filterMap.2 ⟨_, List.mem_append_right _ List.mem_cons_self,
      by simp [Entry.indexing?]⟩

private theorem conducts_conclude (hread : HasRead id key seen start) {committed : Bool}
    (hends : CommitConduct id key batch seen start (.ok committed) world) :
    Conducts config id (.append key batch)
      (fun outcome later => IsWarranted config later ⟨id, .append key batch, .returned outcome⟩)
      (conclude config key (seen.value.tail == 0) committed) world := by
  unfold conclude
  cases committed with
  | false =>
    obtain ⟨hsince, hcandid⟩ := hends
    refine hsince.conducts_reached hread.sound ⟨.reached _, .inr hcandid⟩ ?_
    intro later hextends hown _ _ hpassed
    exact Refuses.isWarranted config ⟨hcandid.step hpassed.history hown rfl, nofun⟩
  | true =>
    obtain ⟨hsince, hcandid, hmem, hold⟩ := hends
    refine hsince.conducts_reached hread.sound ⟨.reached _, .inr hcandid⟩ ?_
    intro later hextends hown _ hlater hpassed
    have hcandid := hcandid.step hpassed.history hown rfl
    split
    · obtain ⟨passes, hpasses⟩ := config.liveLockLimit.exists_value_eq_succ
      rw [hpasses]
      exact conducts_addToIndex hread.sound hlater hcandid
        (mem_commits_of_extends hpassed.history hmem) passes
    · next hnew =>
      obtain ⟨commit, hhead, hne⟩ := hold (by simpa using hnew)
      refine ⟨.succeed fun hfirst => ?_, .inr hcandid⟩
      rw [head?_commits_of_extends hpassed.history hhead] at hfirst
      cases hfirst
      exact absurd rfl hne

private theorem conducts_appendChecked (hsound : Sound world)
    (hunread : ∀ entry ∈ world.history, Entry.read? id entry = none)
    (hwithin : History.Within world.history id 0) (hle : first ≤ last) :
    Conducts config id (.append key batch)
      (fun outcome later => IsWarranted config later ⟨id, .append key batch, .returned outcome⟩)
      (appendChecked config key first last batch) world := by
  rcases hlog : world.state.logs.getOrInsert key .empty with ⟨⟨seen, inserted⟩, logs⟩
  have hget := world.state.logs.get?_getOrInsert_self key .empty
  rw [hlog] at hget
  have hanswer : world.state.answer (.logs (.getOrInsert key .empty)) =
      ((seen, inserted), { world.state with logs }) := by
    simp [answer, SnapshotMap.answer, hlog]
  have hself : Since id 0 world world := .refl hsound hwithin
  refine hself.conducts_step hsound hanswer rfl (Nat.le_refl _) (Nat.le_refl _)
    ⟨.readLog _, .inr (.of_within hwithin)⟩ ?_
  intro start hstate hhistory _ hstart
  have hread : HasRead id key seen start := by
    refine ⟨hstart.sound, ?_, _, _, hhistory, hunread, by simp [Entry.read?]⟩
    simp only [streamOf, hstate]
    exact hget
  have hsince : Since id 0 start start := .refl hstart.sound hstart.within
  dsimp only
  split
  · exact Refuses.isWarranted config ⟨.of_within hstart.within, by rintro _ ⟨⟩⟩
  · next hgap =>
    refine hsince.conducts_reached hread.sound
      ⟨.reached _, .inr (.of_within hstart.within)⟩ ?_
    intro validated _ _ _ hvalidated _
    refine (conducts_commit hread hle (Nat.le_of_not_lt hgap) hvalidated).bind ?_
    intro result later hends
    cases result with
    | error error => exact Refuses.isWarranted config hends
    | ok committed => exact conducts_conclude hread hends

end

/-- All that an append does is warranted. -/
theorem conducts_append (config : RepositoryConfig) {id : Nat} (key : AggregateKey)
    (batch : List (RecordedEvent E)) {world : World E} (hsound : Sound world)
    (hunread : ∀ entry ∈ world.history, Entry.read? id entry = none)
    (hwithin : History.Within world.history id 0) :
    Conducts config id (.append key batch)
      (fun outcome later => IsWarranted config later ⟨id, .append key batch, .returned outcome⟩)
      (append config key batch) world := by
  cases batch with
  | nil =>
    refine ⟨.succeed fun hfirst => ?_, .inr (.of_within hwithin)⟩
    exact absurd rfl ((hwithin.mono (Nat.zero_le 2)).commit_ne _ (List.mem_of_mem_head? hfirst))
  | cons first rest =>
    cases hfault : batchFault? key first rest with
    | some fault =>
      simp only [append, hfault]
      obtain ⟨argument, detail, rfl⟩ := exists_of_batchFault?_eq_some hfault
      exact Refuses.isWarranted config ⟨.of_within hwithin, by rintro _ ⟨⟩⟩
    | none =>
      have hlast := ((batchFault?_eq_none_iff key first rest).1 hfault).last
      simp only [append, hfault]
      refine conducts_appendChecked hsound hunread hwithin ?_
      rw [hlast]
      exact Nat.le_add_right _ _

end EventSourcing.Repository
