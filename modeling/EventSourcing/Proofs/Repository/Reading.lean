import EventSourcing.Proofs.Repository.Laws
import EventSourcing.Proofs.Repository.Ledger

namespace EventSourcing.Repository

open Interleaving

variable {E α β : Type}

/-- A request that leaves the state as it is and no place for others to run. -/
def Request.IsRead (request : Request E) : Prop :=
  request.isCheckpoint = false ∧
    ∀ repository : Repository E, (repository.answer request).2 = repository

/-- A program that asks nothing but to read. -/
def OnlyReads : Operation E α → Prop
  | .done _ => True
  | .ask request next => request.IsRead ∧ ∀ reply, OnlyReads (next reply)

theorem OnlyReads.bind {first : Operation E α} {second : α → Operation E β}
    (hfirst : OnlyReads first) (hsecond : ∀ value, OnlyReads (second value)) :
    OnlyReads (first >>= second) := by
  induction first with
  | done value => exact hsecond value
  | ask request next ih => exact ⟨hfirst.1, fun reply => ih reply (hfirst.2 reply)⟩

theorem onlyReads_sliceOf (key : AggregateKey) (after : SequenceId) (max : Option Nat) :
    OnlyReads (E := E) (sliceOf key after max) := by
  refine ⟨⟨rfl, fun _ => rfl⟩, fun log => ?_⟩
  cases log <;> trivial

theorem onlyReads_pendingOf (budget : Option Nat)
    (windows : List (AggregateKey × Snapshot Window)) :
    OnlyReads (E := E) (pendingOf budget windows) := by
  induction windows generalizing budget with
  | nil => trivial
  | cons entry rest ih =>
    obtain ⟨key, window⟩ := entry
    unfold pendingOf
    split
    · trivial
    · refine (onlyReads_sliceOf _ _ _).bind fun events => ?_
      split
      · exact ih budget
      · exact (ih _).bind fun _ => trivial

/-- How a program that only reads comes to its end: as if it ran alone, with nothing changed. -/
def ReadEnds (program : Operation E α) (world : World E) (value : α) (later : World E) : Prop :=
  Sound later ∧ value = (runAlone program world.state).1 ∧ later.state = world.state

/-- Whatever is only read keeps every law. -/
theorem OnlyReads.keeps {program : Operation E α} (hreads : OnlyReads program)
    {config : RepositoryConfig} {id : Nat} {call : Call E}
    (hsilent : ∀ action key, Entry.IsSilent ⟨id, call, action⟩ key) {world : World E}
    (hsound : Sound world) :
    (calls config).Keeps laws id call (ReadEnds program world) program world := by
  induction program generalizing world with
  | done value => exact ⟨hsound, rfl, rfl⟩
  | ask request next ih =>
    obtain ⟨⟨hcheckpoint, hstate⟩, hnext⟩ := hreads
    have hsince : Since id 5 world world := .refl hsound fun entry _ _ => entry.stage_le
    have hanswer : world.state.answer request = ((world.state.answer request).1, world.state) :=
      Prod.ext rfl (hstate world.state)
    refine hsince.keeps_same hsound hanswer hcheckpoint (fun _ => rfl) (hsilent _) (Nat.le_refl _)
      (Entry.stage_le _) ?_
    intro after hafterState _ hafter _
    refine (ih _ (hnext _) hafter.sound).mono ?_
    rintro value later ⟨hlater, rfl, hstate'⟩
    have hrun : runAlone (.ask request next) world.state =
        runAlone (next (world.state.answer request).1) (world.state.answer request).2 := rfl
    rw [hafterState] at hstate' ⊢
    rw [ReadEnds, hrun, hstate]
    exact ⟨hlater, rfl, hstate'⟩

theorem onlyReads_listEvents (key : AggregateKey) (after : SequenceId) (max : Option Nat) :
    OnlyReads (E := E) (listEvents key after max) :=
  (onlyReads_sliceOf key after max).bind fun _ => trivial

theorem onlyReads_listUndelivered (max : Option Nat) :
    OnlyReads (E := E) (listUndelivered max) := by
  unfold listUndelivered
  split
  · trivial
  · refine ⟨⟨rfl, fun _ => rfl⟩, fun windows => ?_⟩
    exact (onlyReads_pendingOf max windows).bind fun _ => trivial

theorem onlyReads_listIds (type : AggregateType) (after : Option AggregateId) (max : Option Nat) :
    OnlyReads (E := E) (listIds type after max) :=
  ⟨⟨rfl, fun _ => rfl⟩, fun index => by cases index <;> trivial⟩

theorem keeps_listEvents (config : RepositoryConfig) (id : Nat) (key : AggregateKey)
    (after : SequenceId) (max : Option Nat) {world : World E} (hsound : Sound world) :
    (calls config).Keeps laws id (.listEvents key after max)
      (ReadEnds (listEvents key after max) world) (listEvents key after max) world :=
  (onlyReads_listEvents key after max).keeps (fun _ _ => ⟨rfl, rfl, rfl, rfl, rfl⟩) hsound

theorem keeps_listUndelivered (config : RepositoryConfig) (id : Nat) (max : Option Nat)
    {world : World E} (hsound : Sound world) :
    (calls config).Keeps laws id (.listUndelivered max)
      (ReadEnds (listUndelivered max) world) (listUndelivered max) world :=
  (onlyReads_listUndelivered max).keeps (fun _ _ => ⟨rfl, rfl, rfl, rfl, rfl⟩) hsound

theorem keeps_listIds (config : RepositoryConfig) (id : Nat) (type : AggregateType)
    (after : Option AggregateId) (max : Option Nat) {world : World E} (hsound : Sound world) :
    (calls config).Keeps laws id (.listIds type after max)
      (ReadEnds (listIds type after max) world) (listIds type after max) world :=
  (onlyReads_listIds type after max).keeps (fun _ _ => ⟨rfl, rfl, rfl, rfl, rfl⟩) hsound

/-- The events of an aggregate behind a position. -/
def eventsBehind (repository : Repository E) (key : AggregateKey) (after : SequenceId) :
    List (RecordedEvent E) :=
  ((repository.logs.get? key).map fun log => log.value.slice after none).getD []

theorem runAlone_sliceOf (repository : Repository E) (key : AggregateKey) (after : SequenceId)
    (max : Option Nat) :
    runAlone (sliceOf key after max) repository =
      (limit max (eventsBehind repository key after), repository) := by
  rw [sliceOf, runAlone_step, answer_getLog, eventsBehind]
  cases repository.logs.get? key with
  | none => cases max <;> simp [limit, runAlone_done]
  | some log => cases max <;> rfl

/-- What a listing says about the aggregate of one window. -/
def listed? (repository : Repository E) (entry : AggregateKey × Snapshot Window) :
    Option (UndeliveredEvents E) :=
  if (eventsBehind repository entry.1 entry.2.value.delivered).isEmpty then none
  else some ⟨entry.1, eventsBehind repository entry.1 entry.2.value.delivered⟩

/-- A listing with a budget is the listing without one, cut where the budget ends. -/
theorem runAlone_pendingOf (repository : Repository E) (budget : Option Nat)
    (windows : List (AggregateKey × Snapshot Window)) :
    runAlone (pendingOf budget windows) repository =
      (limitEvents budget (windows.filterMap (listed? repository)), repository) := by
  induction windows generalizing budget with
  | nil => cases budget <;> rfl
  | cons entry rest ih =>
    obtain ⟨key, window⟩ := entry
    rw [pendingOf]
    by_cases hzero : budget = some 0
    · subst hzero
      rw [if_pos rfl]
      cases hlisted : ((key, window) :: rest).filterMap (listed? repository) <;> rfl
    have hnil : limit budget (eventsBehind repository key window.value.delivered) = [] ↔
        eventsBehind repository key window.value.delivered = [] := by
      cases budget with
      | none => rfl
      | some budget => simp_all [limit]
    rw [if_neg hzero, runAlone_bind, runAlone_sliceOf]
    dsimp only
    split
    · next hempty =>
      have hnone : listed? repository (key, window) = none :=
        if_pos (List.isEmpty_iff.2 (hnil.1 (List.isEmpty_iff.1 hempty)))
      rw [ih, List.filterMap_cons_none hnone]
    · next hevents =>
      have hsome : listed? repository (key, window) =
          some ⟨key, eventsBehind repository key window.value.delivered⟩ :=
        if_neg fun h => hevents (List.isEmpty_iff.2 (hnil.2 (List.isEmpty_iff.1 h)))
      rw [runAlone_bind, ih, List.filterMap_cons_some hsome]
      cases budget with
      | none => rfl
      | some budget =>
        have hrest : budget - (limit (some budget)
            (eventsBehind repository key window.value.delivered)).length =
              budget - (eventsBehind repository key window.value.delivered).length := by
          rw [limit, List.length_take]
          omega
        rw [Option.map_some, hrest, limitEvents, limitEvents, cut,
          if_neg fun h => hzero (congrArg some h)]
        rfl

theorem runAlone_listEvents_limit (repository : Repository E) (key : AggregateKey)
    (after : SequenceId) (max : Option Nat) :
    runAlone (listEvents key after max) repository =
      (.ok (limit max (eventsBehind repository key after)), repository) := by
  rw [listEvents, runAlone_bind, runAlone_sliceOf]
  rfl

theorem runAlone_listEvents (repository : Repository E) (key : AggregateKey)
    (after : SequenceId) :
    runAlone (listEvents key after none) repository =
      (.ok (eventsBehind repository key after), repository) :=
  runAlone_listEvents_limit repository key after none

theorem runAlone_listUndelivered_limit (repository : Repository E) {max : Option Nat}
    (hmax : max ≠ some 0) :
    runAlone (listUndelivered max) repository =
      (.ok (limitEvents max (repository.windows.entries.filterMap (listed? repository))),
        repository) := by
  rw [listUndelivered, if_neg hmax, runAlone_step, answer_listWindows, runAlone_bind,
    runAlone_pendingOf]
  rfl

theorem runAlone_listUndelivered (repository : Repository E) :
    runAlone (listUndelivered none) repository =
      (.ok (repository.windows.entries.filterMap (listed? repository)), repository) :=
  runAlone_listUndelivered_limit repository (by simp)

private theorem key_eq_of_listed? {repository : Repository E}
    {entry : AggregateKey × Snapshot Window} {undelivered : UndeliveredEvents E}
    (hlisted : listed? repository entry = some undelivered) : undelivered.key = entry.1 := by
  unfold listed? at hlisted
  split at hlisted
  · cases hlisted
  · cases hlisted
    rfl

/-- A listing names every aggregate once at most. -/
theorem nodup_key_listed (repository : Repository E) :
    ((repository.windows.entries.filterMap (listed? repository)).map (·.key)).Nodup := by
  refine repository.windows.keys_nodup.sublist ?_
  induction repository.windows.entries with
  | nil => exact List.Sublist.slnil
  | cons entry rest ih =>
    cases hlisted : listed? repository entry with
    | none =>
      rw [List.filterMap_cons_none hlisted]
      exact ih.cons _
    | some undelivered =>
      rw [List.filterMap_cons_some hlisted, List.map_cons, List.map_cons,
        key_eq_of_listed? hlisted]
      exact ih.cons_cons _

/-- A listing names the aggregates that have a window with events behind its watermark, each with
all of these events. -/
theorem mem_listed_iff (repository : Repository E) (undelivered : UndeliveredEvents E) :
    undelivered ∈ repository.windows.entries.filterMap (listed? repository) ↔
      ∃ window, repository.windows.get? undelivered.key = some window ∧
        undelivered.events = eventsBehind repository undelivered.key window.value.delivered ∧
        undelivered.events ≠ [] := by
  rw [List.mem_filterMap]
  constructor
  · rintro ⟨⟨key, window⟩, hentry, hlisted⟩
    unfold listed? at hlisted
    split at hlisted
    · cases hlisted
    · next hevents =>
      cases hlisted
      exact ⟨window, (SnapshotMap.mem_entries_iff _ _ _).1 hentry, rfl, by simpa using hevents⟩
  · rintro ⟨window, hwindow, hevents, hne⟩
    refine ⟨(undelivered.key, window), (SnapshotMap.mem_entries_iff _ _ _).2 hwindow, ?_⟩
    rw [hevents] at hne
    rw [listed?, if_neg (by simpa using hne), ← hevents]

private theorem flatMap_listed (repository : Repository E) (key : AggregateKey)
    {entries : List (AggregateKey × Snapshot Window)} (hnodup : (entries.map Prod.fst).Nodup) :
    ((entries.filterMap (listed? repository)).filter (·.key = key)).flatMap (·.events) =
      ((entries.find? fun entry => entry.1 = key).map fun entry =>
        eventsBehind repository key entry.2.value.delivered).getD [] := by
  induction entries with
  | nil => rfl
  | cons entry rest ih =>
    obtain ⟨owner, window⟩ := entry
    obtain ⟨habsent, hnodup⟩ := List.nodup_cons.1 hnodup
    have hrest := ih hnodup
    by_cases hkey : owner = key
    · subst hkey
      -- No other entry has this key.
      have hnone : rest.find? (fun entry => entry.1 = owner) = none := by
        refine List.find?_eq_none.2 fun entry hentry h => habsent ?_
        exact List.mem_map.2 ⟨entry, hentry, of_decide_eq_true h⟩
      rw [hnone] at hrest
      cases hevents : (eventsBehind repository owner window.value.delivered).isEmpty with
      | true =>
        have hlisted : listed? repository (owner, window) = none := if_pos hevents
        rw [List.filterMap_cons_none hlisted, hrest]
        simpa using (List.isEmpty_iff.1 hevents).symm
      | false =>
        have hlisted : listed? repository (owner, window) =
            some ⟨owner, eventsBehind repository owner window.value.delivered⟩ :=
          if_neg (by simp [hevents])
        rw [List.filterMap_cons_some hlisted, List.filter_cons_of_pos (by simp),
          List.flatMap_cons, hrest]
        simp
    · have hfind : ((owner, window) :: rest).find? (fun entry => entry.1 = key) =
          rest.find? fun entry => entry.1 = key := List.find?_cons_of_neg (by simpa using hkey)
      rw [hfind, ← hrest]
      cases hlisted : listed? repository (owner, window) with
      | none => rw [List.filterMap_cons_none hlisted]
      | some undelivered =>
        have howner : undelivered.key = owner := key_eq_of_listed? hlisted
        rw [List.filterMap_cons_some hlisted,
          List.filter_cons_of_neg (by simpa [howner] using hkey)]

/-- What a listing says about one aggregate: the events behind the watermark of its window. -/
theorem runAlone_listUndelivered_of_key (repository : Repository E) (key : AggregateKey) :
    ∃ listing, (runAlone (listUndelivered none) repository).1 = .ok listing ∧
      (listing.filter (·.key = key)).flatMap (·.events) =
        ((repository.windows.get? key).map fun window =>
          eventsBehind repository key window.value.delivered).getD [] := by
  refine ⟨_, congrArg Prod.fst (runAlone_listUndelivered repository), ?_⟩
  rw [flatMap_listed repository key repository.windows.keys_nodup, SnapshotMap.get?,
    Option.map_map]
  rfl

theorem mem_listUndelivered (repository : Repository E) :
    ∃ listing, runAlone (listUndelivered none) repository = (.ok listing, repository) ∧
      ∀ undelivered, undelivered ∈ listing ↔
        ∃ window, repository.windows.get? undelivered.key = some window ∧
          undelivered.events = eventsBehind repository undelivered.key window.value.delivered ∧
          undelivered.events ≠ [] :=
  ⟨_, runAlone_listUndelivered repository, mem_listed_iff repository⟩

end EventSourcing.Repository
