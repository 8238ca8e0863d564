import EventSourcing.Proofs.Service.Laws

namespace EventSourcing.Service

open Interleaving

variable {State Command E : Type} {setting : Setting State Command E} {id number : Nat}
  {call : Call Command E} {world : World State Command E}

/-- Whatever lies behind a position of a log is what the repository gives out. -/
theorem Lawful.eventsBehind_eq (hlawful : Lawful setting world) (key : AggregateKey)
    (after : SequenceId) : world.state.repository.eventsBehind key after =
      (History.log world.history key).drop after := by
  have hpositions := hlawful.positions key
  rw [← hlawful.logOf_eq] at hpositions ⊢
  unfold logOf at hpositions ⊢
  unfold Repository.eventsBehind
  cases hlog : world.state.repository.logs.get? key with
  | none => simp
  | some log =>
    rw [hlog] at hpositions
    exact EventLog.slice_eq_drop hpositions after

/-- The number of an operation is not in use before it begins. -/
theorem operations_id_ne (hnumbered : History.IsNumbered world.history id number) :
    ∀ step ∈ (repositoryOf world).history, step.id ≠ Nat.pair id number := by
  intro step hstep hid
  obtain ⟨entry, hentry, hoperation⟩ := List.mem_filterMap.1 hstep
  unfold Entry.operation? at hoperation
  split at hoperation
  · cases hoperation
    obtain ⟨rfl, rfl⟩ := Nat.pair_eq_pair.1 hid
    exact Nat.lt_irrefl _ (hnumbered _ (History.mem_own.2 ⟨hentry, rfl⟩) _ rfl)
  · cases hoperation

section Steps

variable {operation : Repository.Call E} {done : History State Command E}

theorem number?_of_isStep (hdone : ∀ entry ∈ done, Entry.IsStep id call number operation entry) :
    ∀ entry ∈ done, ∀ other ∈ Entry.number? entry, other < number + 1 := by
  intro entry hentry other hother
  obtain ⟨request, reply, rfl⟩ := hdone entry hentry
  cases hother
  exact Nat.lt_succ_self number

theorem receptions_of_isStep
    (hdone : ∀ entry ∈ done, Entry.IsStep id call number operation entry) :
    done.filterMap Entry.reception? = [] := by
  refine List.filterMap_eq_nil_iff.2 fun entry hentry => ?_
  obtain ⟨request, reply, rfl⟩ := hdone entry hentry
  rfl

/-- Nothing but an append of a batch makes that batch a part of a log. -/
theorem eq_append_of_mem_commits {key : AggregateKey}
    (hdone : ∀ entry ∈ done, Entry.IsStep id call number operation entry)
    {commit : Commit Command E} (hcommit : commit ∈ History.commits done key) :
    operation = .append key commit.batch ∧ commit.id = id ∧ commit.call = call := by
  obtain ⟨entry, hentry, hcommit⟩ := List.mem_filterMap.1 hcommit
  obtain ⟨request, reply, hstep⟩ := hdone entry hentry
  obtain ⟨number', request', reply', hcommits⟩ := Entry.of_commit?_eq_some hcommit
  rw [hstep] at hcommits
  cases hcommits
  exact ⟨rfl, rfl, rfl⟩

theorem log_eq_nil_of_isStep (key : AggregateKey)
    (hdone : ∀ entry ∈ done, Entry.IsStep id call number operation entry)
    (hoperation : ∀ batch, operation ≠ .append key batch) : History.log done key = [] := by
  refine List.flatMap_eq_nil_iff.2 fun commit hcommit => ?_
  exact absurd (eq_append_of_mem_commits hdone hcommit).1 (hoperation _)

end Steps

theorem keeps_listEvents {α : Type} {key : AggregateKey} {post : α → World State Command E → Prop}
    {next : Except RepositoryError (List (RecordedEvent E)) → Operation E α}
    (hlawful : Lawful setting world)
    (hwarranted : ∀ later request reply, Entry.IsWarranted setting later
      ⟨id, call, .answered (.repository number (.listEvents key 0 none) request) reply⟩)
    (hnext : ∀ later done, Since setting id done world later →
      (∀ entry ∈ done, Entry.IsStep id call number (.listEvents key 0 none) entry) →
        (calls setting).Keeps (laws setting) id call post
          (next (.ok (History.log later.history key))) later) :
    (calls setting).Keeps (laws setting) id call post
      (perform setting.repositoryConfig number (.listEvents key 0 none) >>= next) world := by
  refine keeps_perform (Repository.keeps_listEvents _ _ key 0 none hlawful.sound) hlawful
    (fun later _ _ _ => hwarranted later.history) ?_
  rintro value later done hsince hdone ⟨-, rfl, hstate⟩
  have hstate' : later.state.repository = world.state.repository := hstate
  have hevents := hsince.lawful.eventsBehind_eq key 0
  rw [hstate'] at hevents
  have hvalue : (Repository.runAlone (Repository.listEvents key 0 none)
      (repositoryOf world).state).1 = .ok (History.log later.history key) := by
    rw [Repository.runAlone_listEvents]
    exact congrArg Except.ok hevents
  rw [hvalue]
  exact hnext later done hsince hdone

/-- What the repository lists is right at the time when it does so. -/
theorem Lawful.lists (hlawful : Lawful setting world) : History.Lists world.history
    (world.state.repository.windows.entries.filterMap
      (Repository.listed? world.state.repository)) := by
  have hlisted : ∀ undelivered ∈ world.state.repository.windows.entries.filterMap
      (Repository.listed? world.state.repository),
        ∃ delivered ≤ History.watermark world.history undelivered.key,
          undelivered.events = (History.log world.history undelivered.key).drop delivered := by
    intro undelivered hmem
    obtain ⟨⟨key, window⟩, hentry, hlisted⟩ := List.mem_filterMap.1 hmem
    unfold Repository.listed? at hlisted
    split at hlisted
    · cases hlisted
    · cases hlisted
      refine ⟨window.value.delivered, ?_, hlawful.eventsBehind_eq key _⟩
      exact (hlawful.sound key).delivered_le window ((SnapshotMap.mem_entries_iff _ _ _).1 hentry)
  refine ⟨Repository.nodup_key_listed _, hlisted, fun undelivered hmem event hevent => ?_⟩
  obtain ⟨delivered, -, hevents⟩ := hlisted undelivered hmem
  exact hlawful.key_eq (List.mem_of_mem_drop (hevents ▸ hevent))

theorem History.Lists.perm {history : History State Command E}
    {listing arranged : List (UndeliveredEvents E)} (hlists : History.Lists history listing)
    (hperm : arranged.Perm listing) : History.Lists history arranged where
  nodup := (hperm.map _).nodup_iff.2 hlists.nodup
  events_eq undelivered hmem := hlists.events_eq undelivered (hperm.mem_iff.1 hmem)
  belongs undelivered hmem := hlists.belongs undelivered (hperm.mem_iff.1 hmem)

/-- A drain begins with a listing that is right, and has nothing to do with any aggregate before. -/
theorem keeps_listUndelivered {α : Type} {token : CancellationToken}
    {post : α → World State Command E → Prop}
    {next : Except RepositoryError (List (UndeliveredEvents E)) → Operation E α}
    (hlawful : Lawful setting world)
    (hnext : ∀ found listing later done, Since setting id done world later →
      (∀ entry ∈ done, (∀ other ∈ Entry.number? entry, other < number + 1) ∧
        ∀ key, ¬ Entry.Concerns entry key) →
      ⟨id, .drain token, .answered (.arrange found) listing⟩ ∈ done →
      (listing.map (·.key)).Nodup →
      (∀ undelivered ∈ listing, ∀ event ∈ undelivered.events, event.key = undelivered.key) →
        (calls setting).Keeps (laws setting) id (.drain token) post (next (.ok listing)) later) :
    (calls setting).Keeps (laws setting) id (.drain token) post
      (listUndelivered setting.repositoryConfig number >>= next) world := by
  rw [listUndelivered, bind_assoc]
  refine keeps_perform (Repository.keeps_listUndelivered _ _ none hlawful.sound) hlawful ?_ ?_
  · exact fun _ _ _ _ _ _ => trivial
  rintro value later done hsince hdone ⟨-, rfl, hstate⟩
  have hstate' : later.state.repository = world.state.repository := hstate
  have hvalue : (Repository.runAlone (Repository.listUndelivered none)
      (repositoryOf world).state).1 = .ok (later.state.repository.windows.entries.filterMap
        (Repository.listed? later.state.repository)) := by
    rw [Repository.runAlone_listUndelivered, hstate']
    rfl
  rw [hvalue]
  have hlists := hsince.lawful.lists.perm (setting.arrange_perm later.state.time _)
  refine keeps_ask hsince.lawful trivial hlists fun last _ hlast => ?_
  refine hnext _ _ last _ (hsince.trans hlast) (fun entry hentry => ?_)
    (List.mem_append_right _ List.mem_cons_self) hlists.nodup hlists.belongs
  rcases List.mem_append.1 hentry with h | h
  · refine ⟨number?_of_isStep hdone entry h, ?_⟩
    obtain ⟨request, reply, rfl⟩ := hdone entry h
    exact Entry.not_concerns rfl rfl
  · rw [List.mem_singleton.1 h]
    exact ⟨nofun, Entry.not_concerns rfl rfl⟩

section Appends

variable {key : AggregateKey} {batch : List (RecordedEvent E)} {done : History State Command E}
  {later : World State Command E}

private theorem sublist_history (hsince : Since setting id done world later) :
    done.Sublist later.history := by
  have hown : (History.own later.history id).Sublist later.history := List.filter_sublist
  rw [hsince.own] at hown
  exact (List.sublist_append_right _ _).trans hown

private theorem operations_sublist (hsince : Since setting id done world later) :
    (History.operations done).Sublist (History.operations later.history) :=
  (sublist_history hsince).filterMap _

/-- An append commits once at most. -/
private theorem length_commits_le (hsince : Since setting id done world later)
    (hdone : ∀ entry ∈ done, Entry.IsStep id call number (.append key batch) entry) :
    (History.commits done key).length ≤ 1 := by
  have hnodup : ((Repository.History.commits (History.operations done) key).map (·.1)).Nodup :=
    (hsince.lawful.sound key).commits_nodup.sublist
      (((operations_sublist hsince).filterMap _).map _)
  have hids : ∀ other ∈ (Repository.History.commits (History.operations done) key).map (·.1),
      other = Nat.pair id number := by
    intro other hother
    obtain ⟨commit, hcommit, rfl⟩ := List.mem_map.1 hother
    obtain ⟨step, hstep, hcommit'⟩ := List.mem_filterMap.1 hcommit
    obtain ⟨entry, hentry, hoperation⟩ := List.mem_filterMap.1 hstep
    obtain ⟨request, reply, rfl⟩ := hdone entry hentry
    cases hoperation
    exact (Repository.Entry.of_commit?_eq_some hcommit').1.symm
  rw [List.eq_replicate_of_mem hids, List.nodup_replicate, List.length_map] at hnodup
  have hlength := congrArg List.length (History.map_batch_commits done key)
  rw [List.length_map, List.length_map] at hlength
  rwa [hlength] at hnodup

/-- What an append has committed to the repository it has done itself. -/
private theorem mem_commits_iff (hsince : Since setting id done world later)
    (hnumbered : History.IsNumbered world.history id number)
    (hdone : ∀ entry ∈ done, Entry.IsStep id call number (.append key batch) entry) :
    (Nat.pair id number, batch) ∈ Repository.History.commits (repositoryOf later).history key ↔
      ⟨id, call, batch⟩ ∈ History.commits done key := by
  constructor
  · intro hmem
    obtain ⟨step, hstep, hcommit⟩ := List.mem_filterMap.1 hmem
    obtain ⟨entry, hentry, hoperation⟩ := List.mem_filterMap.1 hstep
    have hpair := (Repository.Entry.of_commit?_eq_some hcommit).1
    obtain ⟨hid, hnumber⟩ : entry.id = id ∧ Entry.number? entry = some number := by
      unfold Entry.operation? at hoperation
      split at hoperation
      · cases hoperation
        obtain ⟨rfl, rfl⟩ := Nat.pair_eq_pair.1 hpair
        exact ⟨rfl, rfl⟩
      · cases hoperation
    have hcommit' : Entry.commit? key entry = some ⟨entry.id, entry.call, batch⟩ := by
      rw [Entry.commit?, hoperation, Option.bind_some, hcommit]
      rfl
    rcases hsince.mem_own.1 (History.mem_own.2 ⟨hentry, hid⟩) with h | h
    · exact absurd (hnumbered entry h number hnumber) (Nat.lt_irrefl _)
    · obtain ⟨-, hid, hcall⟩ := eq_append_of_mem_commits hdone
        (List.mem_filterMap.2 ⟨entry, h, hcommit'⟩)
      exact List.mem_filterMap.2 ⟨entry, h, hcommit'.trans (by simp [← hid, ← hcall])⟩
  · intro hmem
    obtain ⟨entry, hentry, hcommit⟩ := List.mem_filterMap.1 hmem
    obtain ⟨base, hbase, heq⟩ := Option.map_eq_some_iff.1 hcommit
    obtain ⟨request, reply, rfl⟩ := hdone entry hentry
    have hid := (Repository.Entry.of_commit?_eq_some hbase).1
    have hbase' : base = (Nat.pair id number, batch) :=
      Prod.ext hid.symm (congrArg Commit.batch heq)
    refine List.mem_filterMap.2 ⟨_, (operations_sublist hsince).subset ?_, hbase' ▸ hbase⟩
    exact List.mem_filterMap.2 ⟨_, hentry, rfl⟩

private theorem log_of_isStep (hsince : Since setting id done world later)
    (hdone : ∀ entry ∈ done, Entry.IsStep id call number (.append key batch) entry)
    {outcome : Except RepositoryError Unit}
    (hiff : batch ≠ [] → (⟨id, call, batch⟩ ∈ History.commits done key ↔ outcome = .ok ()))
    (other : AggregateKey) :
    History.log done other = if other = key ∧ outcome = .ok () then batch else [] := by
  by_cases hother : other = key
  · subst hother
    have hlength := length_commits_le hsince hdone
    -- The batch is the only one that can be there, and it is there if anything is.
    have hlog : History.log done other = if outcome = .ok () then batch else [] := by
      rw [History.log]
      cases hcommits : History.commits done other with
      | nil =>
        split
        · next hok =>
          refine (Classical.byContradiction fun hbatch => ?_ : batch = []).symm
          simp [hcommits, hok] at hiff
          exact hbatch hiff
        · rfl
      | cons commit rest =>
        have hcommit : commit ∈ History.commits done other := hcommits ▸ List.mem_cons_self
        obtain ⟨hbatch, hid, hcall⟩ := eq_append_of_mem_commits hdone hcommit
        obtain rfl : batch = commit.batch := (Repository.Call.append.inj hbatch).2
        obtain rfl : rest = [] := List.eq_nil_of_length_eq_zero (by simpa [hcommits] using hlength)
        rw [List.flatMap_singleton]
        split
        · rfl
        · next hfailed =>
          refine Classical.byContradiction fun hne => hfailed ((hiff hne).1 ?_)
          rwa [← hid, ← hcall]
    rw [hlog]
    simp
  · rw [if_neg (by simp [hother]), log_eq_nil_of_isStep other hdone (by simp [Ne.symm hother])]

/-- Appending adds the batch to the log if it succeeds, and nothing otherwise. -/
theorem keeps_append {α : Type} {post : α → World State Command E → Prop}
    {next : Except RepositoryError Unit → Operation E α} (hlawful : Lawful setting world)
    (hnumbered : History.IsNumbered world.history id number)
    (hwarranted : ∀ later, world.history <+: later → ∀ request reply,
      Entry.IsWarranted setting later
        ⟨id, call, .answered (.repository number (.append key batch) request) reply⟩)
    (hnext : ∀ outcome later done, Since setting id done world later →
      (∀ entry ∈ done, Entry.IsStep id call number (.append key batch) entry) →
      (∀ other, History.log done other = if other = key ∧ outcome = .ok () then batch else []) →
      (batch ≠ [] → outcome = .ok () → ⟨id, call, batch⟩ ∈ History.commits later.history key) →
        (calls setting).Keeps (laws setting) id call post (next outcome) later) :
    (calls setting).Keeps (laws setting) id call post
      (perform setting.repositoryConfig number (.append key batch) >>= next) world := by
  have hne := operations_id_ne hnumbered
  have hunread : ∀ step ∈ (repositoryOf world).history,
      Repository.Entry.read? (Nat.pair id number) step = none := by
    intro step hstep
    cases hread : Repository.Entry.read? (Nat.pair id number) step with
    | none => rfl
    | some seen => exact absurd (Repository.Entry.of_read?_eq_some hread) (hne step hstep)
  refine keeps_perform (Repository.keeps_append _ key batch hlawful.sound hunread (.of_ne hne))
    hlawful (fun later _ hsince _ => hwarranted later.history hsince.history) ?_
  intro outcome later done hsince hdone hends
  have hiff : batch ≠ [] →
      (⟨id, call, batch⟩ ∈ History.commits done key ↔ outcome = .ok ()) := by
    intro hbatch
    rw [← mem_commits_iff hsince hnumbered hdone]
    have hmem := hends.mem_commits_iff hbatch batch
    rwa [eq_self, true_and] at hmem
  refine hnext outcome later done hsince hdone (log_of_isStep hsince hdone hiff) ?_
  intro hbatch hok
  exact ((sublist_history hsince).filterMap _).subset ((hiff hbatch).2 hok)

end Appends

end EventSourcing.Service
