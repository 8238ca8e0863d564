import EventSourcing.Proofs.Repository.Paging

namespace EventSourcing

namespace SnapshotMap

variable {K V : Type} [DecidableEq K]

/-- The same entries, found in another order. -/
def arrange (map : SnapshotMap K V) (entries : List (K × Snapshot V))
    (horder : entries.Perm map.entries) : SnapshotMap K V where
  entries := entries
  nextStamp := map.nextStamp
  keys_nodup := (horder.map Prod.fst).nodup_iff.2 map.keys_nodup
  stamp_lt := fun entry hentry => map.stamp_lt entry (horder.mem_iff.1 hentry)

@[simp]
theorem get?_arrange (map : SnapshotMap K V) {entries : List (K × Snapshot V)}
    (horder : entries.Perm map.entries) (key : K) :
    (map.arrange entries horder).get? key = map.get? key := by
  apply Option.ext
  intro current
  rw [← mem_entries_iff, ← mem_entries_iff]
  exact horder.mem_iff

end SnapshotMap

namespace Repository

open Interleaving

variable {E : Type} {config : RepositoryConfig}

/-- The same repository with its windows found in another order. -/
def arrange (repository : Repository E) (windows : List (AggregateKey × Snapshot Window))
    (horder : windows.Perm repository.windows.entries) : Repository E :=
  { repository with windows := repository.windows.arrange windows horder }

theorem flatMap_cut (budget : Nat) (listing : List (UndeliveredEvents E)) :
    (cut budget listing).flatMap (·.events) = (listing.flatMap (·.events)).take budget := by
  induction listing generalizing budget with
  | nil => simp [cut]
  | cons undelivered rest ih =>
    by_cases hzero : budget = 0
    · simp [cut, hzero]
    · rw [cut, if_neg hzero, List.flatMap_cons, List.flatMap_cons, List.take_append, ih]

theorem keys_of_cut (budget : Nat) (listing : List (UndeliveredEvents E)) :
    (cut budget listing).map (·.key) <+: listing.map (·.key) := by
  induction listing generalizing budget with
  | nil => exact List.nil_prefix
  | cons undelivered rest ih =>
    by_cases hzero : budget = 0
    · simp [cut, hzero]
    · rw [cut, if_neg hzero]
      exact (List.prefix_cons_inj undelivered.key).2 (ih _)

/-- Only the last aggregate of a listing can be cut short. -/
theorem whole_but_last_of_cut (budget : Nat) (listing : List (UndeliveredEvents E)) :
    (cut budget listing).dropLast <+: listing := by
  induction listing generalizing budget with
  | nil => exact List.nil_prefix
  | cons undelivered rest ih =>
    by_cases hzero : budget = 0
    · simp [cut, hzero]
    rw [cut, if_neg hzero]
    by_cases hlast : cut (budget - undelivered.events.length) rest = []
    · rw [hlast]
      exact List.nil_prefix
    -- There is budget left behind this aggregate, so it is listed as a whole.
    have hleft : budget - undelivered.events.length ≠ 0 := by
      intro hspent
      apply hlast
      cases rest <;> simp [cut, hspent]
    rw [List.dropLast_cons_of_ne_nil hlast, List.take_of_length_le (by omega)]
    exact (List.prefix_cons_inj undelivered).2 (ih _)

theorem exists_of_mem_cut {budget : Nat} {listing : List (UndeliveredEvents E)}
    {undelivered : UndeliveredEvents E} (hmem : undelivered ∈ cut budget listing) :
    ∃ whole ∈ listing, whole.key = undelivered.key ∧ ∃ count, count ≠ 0 ∧
      undelivered.events = whole.events.take count := by
  induction listing generalizing budget with
  | nil => simp [cut] at hmem
  | cons first rest ih =>
    by_cases hzero : budget = 0
    · simp [cut, hzero] at hmem
    rw [cut, if_neg hzero] at hmem
    rcases List.mem_cons.1 hmem with rfl | hrest
    · exact ⟨first, List.mem_cons_self, rfl, budget, hzero, rfl⟩
    · obtain ⟨whole, hwhole, hlisted⟩ := ih hrest
      exact ⟨whole, List.mem_cons_of_mem _ hwhole, hlisted⟩

/-- What is left of a budget, if it covers what is spent. -/
def spend? (budget : Option Nat) (spent : Nat) : Option (Option Nat) :=
  match budget with
  | none => some none
  | some budget => if spent ≤ budget then some (some (budget - spent)) else none

/-- The undelivered events of the given windows, listed by a loop that comes to nothing as soon as
more is spent than is left. -/
def pendingWithin? (budget : Option Nat) :
    List (AggregateKey × Snapshot Window) → Operation E (Option (List (UndeliveredEvents E)))
  | [] => return some []
  | (key, window) :: rest =>
    if budget = some 0 then
      return some []
    else do
      let events ← sliceOf key window.value.delivered budget
      if events.isEmpty then
        pendingWithin? budget rest
      else
        match spend? budget events.length with
        | none => return none
        | some left =>
          match ← pendingWithin? left rest with
          | none => return none
          | some others => return some (⟨key, events⟩ :: others)

theorem spend?_of_le {budget : Option Nat} {spent : Nat} (hle : ∀ left ∈ budget, spent ≤ left) :
    spend? budget spent = some (budget.map fun budget => budget - spent) := by
  cases budget with
  | none => rfl
  | some budget => exact if_pos (hle budget rfl)

/-- Whatever is found in the logs, no aggregate takes more than what is left of the budget. -/
theorem pendingWithin?_eq (budget : Option Nat) (windows : List (AggregateKey × Snapshot Window)) :
    pendingWithin? (E := E) budget windows = some <$> pendingOf budget windows := by
  induction windows generalizing budget with
  | nil => rfl
  | cons entry rest ih =>
    obtain ⟨key, window⟩ := entry
    rw [pendingWithin?, pendingOf]
    by_cases hzero : budget = some 0
    · rw [if_pos hzero, if_pos hzero]
      rfl
    rw [if_neg hzero, if_neg hzero, map_bind]
    refine congrArg (Program.ask (Request.logs (.get key))) (funext fun log => ?_)
    cases log with
    | none => exact ih budget
    | some log =>
      have hle : ∀ left ∈ budget,
          (log.value.slice window.value.delivered budget).length ≤ left := by
        rintro left hbudget
        obtain rfl : budget = some left := hbudget
        exact log.value.length_slice_le window.value.delivered left
      change (if _ then _ else _) = some <$> (if _ then _ else _)
      rw [spend?_of_le hle, apply_ite (some <$> ·), ih]
      dsimp only
      rw [ih, map_bind, bind_map_left]
      rfl

/-- What is listed of an aggregate that is delivered up to a watermark: some of its own events, one
after the other from right behind the watermark on, as they stand in its log. -/
structure Pends (world : World E) (delivered : SequenceId)
    (undelivered : UndeliveredEvents E) : Prop where
  ne_nil : undelivered.events ≠ []
  own : ∀ event ∈ undelivered.events, event.key = undelivered.key
  positions : undelivered.events.map (·.sequenceId) =
    List.range' (delivered + 1) undelivered.events.length
  committed : undelivered.events <+: (streamOf world undelivered.key).events.drop delivered

theorem Stream.Valid.positions_of_later {key : AggregateKey} {s : Stream E} (hvalid : s.Valid key)
    (delivered count : Nat) :
    ((s.events.drop delivered).take count).map (·.sequenceId) =
      List.range' (delivered + 1) ((s.events.drop delivered).take count).length := by
  rw [List.map_take, List.map_drop, hvalid.positions, List.drop_range', List.length_take,
    List.length_drop, Nat.mul_one, Nat.add_comm 1]
  rcases Nat.le_total count (s.events.length - delivered) with hle | hle
  · rw [List.take_range'_of_length_ge hle, Nat.min_eq_left hle]
  · rw [List.take_range'_of_length_le hle, Nat.min_eq_right hle]

theorem Reachable.pends_of_take {moment : Moment E} (hreach : Reachable config moment)
    {whole undelivered : UndeliveredEvents E} {delivered count : Nat}
    (hkey : whole.key = undelivered.key) (hne : whole.events ≠ []) (hcount : count ≠ 0)
    (hwhole : whole.events = (streamOf moment.world whole.key).events.drop delivered)
    (hevents : undelivered.events = whole.events.take count) :
    Pends moment.world delivered undelivered := by
  have hvalid := hreach.sound undelivered.key
  rw [hkey] at hwhole
  have hcommitted : undelivered.events <+:
      (streamOf moment.world undelivered.key).events.drop delivered := by
    rw [hevents, hwhole]
    exact List.take_prefix _ _
  refine ⟨?_, fun event hevent => ?_, ?_, hcommitted⟩
  · rw [hevents]
    intro hnil
    exact (List.take_eq_nil_iff.1 hnil).elim hcount hne
  · apply hvalid.belongs
    exact List.mem_of_mem_drop (hcommitted.subset hevent)
  · rw [hevents, hwhole]
    exact hvalid.positions_of_later delivered count

/-- What a listing without a budget has to say about an aggregate, in whatever order the windows are
found. -/
theorem Reachable.exists_window_of_listed {moment : Moment E} (hreach : Reachable config moment)
    {windows : List (AggregateKey × Snapshot Window)}
    (horder : windows.Perm moment.world.state.windows.entries) {undelivered : UndeliveredEvents E}
    (hlisted : undelivered ∈
      windows.filterMap (listed? (moment.world.state.arrange windows horder))) :
    ∃ window, moment.world.state.windows.get? undelivered.key = some window ∧
      undelivered.events =
        (streamOf moment.world undelivered.key).events.drop window.value.delivered ∧
      undelivered.events ≠ [] := by
  obtain ⟨window, hwindow, hevents, hne⟩ := (mem_listed_iff _ _).1 hlisted
  refine ⟨window, ?_, ?_, hne⟩
  · rwa [← SnapshotMap.get?_arrange _ horder]
  · rw [← hreach.eventsBehind_eq]
    exact hevents

/-- A listing with a budget of at least one event, at any moment of any run and in any order of the
windows: its events are exactly the first ones of the listing without a budget, as many as the budget
allows. It names every aggregate once at most, each with events of its own that follow the watermark
of its window without a gap, and only the last one it names can be cut short. The loop never spends
more than is left. -/
theorem listing_respects_budget {moment : Moment E} (hreach : Reachable config moment)
    {windows : List (AggregateKey × Snapshot Window)}
    (horder : windows.Perm moment.world.state.windows.entries) {max : Nat} (hmax : 1 ≤ max) :
    ∃ full listing : List (UndeliveredEvents E),
      (runAlone (listUndelivered none) (moment.world.state.arrange windows horder)).1 = .ok full ∧
      (runAlone (listUndelivered (some max)) (moment.world.state.arrange windows horder)).1 =
        .ok listing ∧
      listing.flatMap (·.events) = (full.flatMap (·.events)).take max ∧
      (listing.map (·.key)).Nodup ∧
      (∀ undelivered ∈ listing, ∃ window,
        moment.world.state.windows.get? undelivered.key = some window ∧
          Pends moment.world window.value.delivered undelivered) ∧
      listing.dropLast <+: full ∧
      (∀ undelivered ∈ full, ∃ window,
        moment.world.state.windows.get? undelivered.key = some window ∧
          undelivered.events =
            (streamOf moment.world undelivered.key).events.drop window.value.delivered) ∧
      (runAlone (pendingWithin? (some max) windows)
        (moment.world.state.arrange windows horder)).1 = some listing := by
  have hpositive : (some max) ≠ some 0 := by
    intro hzero
    have := Option.some.inj hzero
    omega
  have hnodup := nodup_key_listed (moment.world.state.arrange windows horder)
  refine ⟨_, _, congrArg Prod.fst (runAlone_listUndelivered _),
    congrArg Prod.fst (runAlone_listUndelivered_limit _ hpositive), flatMap_cut _ _,
    hnodup.sublist (keys_of_cut _ _).sublist, fun undelivered hmem => ?_,
    whole_but_last_of_cut _ _, fun undelivered hlisted => ?_, ?_⟩
  · obtain ⟨whole, hlisted, hkey, count, hcount, hevents⟩ := exists_of_mem_cut hmem
    obtain ⟨window, hwindow, hwhole, hne⟩ := hreach.exists_window_of_listed horder hlisted
    refine ⟨window, ?_, hreach.pends_of_take hkey hne hcount hwhole hevents⟩
    rwa [← hkey]
  · obtain ⟨window, hwindow, hwhole, -⟩ := hreach.exists_window_of_listed horder hlisted
    exact ⟨window, hwindow, hwhole⟩
  · have hrun := runAlone_pendingOf (moment.world.state.arrange windows horder) (some max) windows
    rw [pendingWithin?_eq, map_eq_pure_bind, runAlone_bind, hrun]
    rfl

/-- Of two aggregates the second one is found first, and it has more events than the budget allows;
so its first event is all that is listed. -/
theorem listing_respects_budget_of_secondAggregate : ∃ moment,
    sampleRun (firstAggregate ++ secondAggregate) = some moment ∧ ∃ full listing,
      (runAlone (listUndelivered none) (moment.world.state.arrange
        moment.world.state.windows.entries.reverse (List.reverse_perm _))).1 = .ok full ∧
      (runAlone (listUndelivered (some 1)) (moment.world.state.arrange
        moment.world.state.windows.entries.reverse (List.reverse_perm _))).1 = .ok listing ∧
      full.flatMap (·.events) = sampleBatch 1 2 ++ [⟨emptyKey, 1, (), .nil⟩] ∧
      listing.flatMap (·.events) = sampleBatch 1 1 := by
  obtain ⟨moment, hrun, hfound⟩ : ∃ moment,
      sampleRun (firstAggregate ++ secondAggregate) = some moment ∧
        (runAlone (listUndelivered none) (moment.world.state.arrange
          moment.world.state.windows.entries.reverse (List.reverse_perm _))).1.map
            (·.flatMap (·.events)) = .ok (sampleBatch 1 2 ++ [⟨emptyKey, 1, (), .nil⟩]) :=
    ⟨_, rfl, by decide +kernel⟩
  obtain ⟨full, listing, hfull, hlisting, hbudget, -⟩ := listing_respects_budget
    (reachable_of_sampleRun hrun) (List.reverse_perm _) (Nat.le_refl 1)
  rw [hfull] at hfound
  have hall : full.flatMap (·.events) = sampleBatch 1 2 ++ [⟨emptyKey, 1, (), .nil⟩] :=
    Except.ok.inj hfound
  refine ⟨moment, hrun, full, listing, hfull, hlisting, hall, ?_⟩
  rw [hbudget, hall]
  rfl

end Repository

end EventSourcing
