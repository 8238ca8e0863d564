import EventSourcing.SnapshotMap

namespace EventSourcing.SnapshotMap

variable {K V : Type} [DecidableEq K]

/-- One use of a map: the map as it is then, and what is asked of it. -/
structure Use (K V : Type) where
  map : SnapshotMap K V
  request : Request K V

/-- What becomes of a map that is used for some requests, one after the other. -/
def uses : SnapshotMap K V → List (Request K V) → List (Use K V)
  | _, [] => []
  | map, request :: rest => ⟨map, request⟩ :: (map.answer request).2.uses rest

/-- The map that some requests leave behind. -/
def afterAll : SnapshotMap K V → List (Request K V) → SnapshotMap K V
  | map, [] => map
  | map, request :: rest => (map.answer request).2.afterAll rest

/-- The key that a request is about, if it is about one. -/
def Request.key? : Request K V → Option K
  | .get key | .getOrInsert key _ | .compareAndSwap key _ _ | .compareAndRemove key _ => some key
  | .entries => none

/-- An update of the entry of a key: what it is made from and what it leaves. -/
structure Update (V : Type) where
  source : Option (Snapshot V)
  target : Option (Snapshot V)

namespace Use

/-- The map that a use leaves behind. -/
def after (use : Use K V) : SnapshotMap K V :=
  (use.map.answer use.request).2

/-- The snapshot of a key that the reply shows. -/
def shown? (key : K) : Use K V → Option (Snapshot V)
  | ⟨map, .get other⟩ => if other = key then map.get? other else none
  | ⟨map, .getOrInsert other fallback⟩ =>
    if other = key then some (map.getOrInsert other fallback).1.1 else none
  | ⟨map, .entries⟩ => (map.entries.find? fun entry => entry.1 = key).map Prod.snd
  | ⟨_, .compareAndSwap _ _ _⟩ | ⟨_, .compareAndRemove _ _⟩ => none

/-- The key and the snapshot that its entry is compared with, and whether the swap or the removal
has succeeded. -/
def compared? : Use K V → Option (K × Snapshot V × Bool)
  | ⟨map, .compareAndSwap key seen new⟩ => some (key, seen, (map.compareAndSwap key seen new).1)
  | ⟨map, .compareAndRemove key seen⟩ => some (key, seen, (map.compareAndRemove key seen).1)
  | ⟨_, .get _⟩ | ⟨_, .getOrInsert _ _⟩ | ⟨_, .entries⟩ => none

/-- A swap or a removal of a key succeeds. -/
def Displaces (use : Use K V) (key : K) : Prop :=
  ∃ seen, use.compared? = some (key, seen, true)

/-- What the entry of a key is updated from, if it is updated: an insertion finds none, a swap or a
removal has the snapshot that it was given. -/
def source? (key : K) : Use K V → Option (Option (Snapshot V))
  | ⟨map, .getOrInsert other fallback⟩ =>
    if other = key ∧ (map.getOrInsert other fallback).1.2 = true then some none else none
  | ⟨map, .compareAndSwap other seen new⟩ =>
    if other = key ∧ (map.compareAndSwap other seen new).1 = true then some (some seen) else none
  | ⟨map, .compareAndRemove other seen⟩ =>
    if other = key ∧ (map.compareAndRemove other seen).1 = true then some (some seen) else none
  | ⟨_, .get _⟩ | ⟨_, .entries⟩ => none

def update? (key : K) (use : Use K V) : Option (Update V) :=
  (use.source? key).map fun source => ⟨source, use.after.get? key⟩

end Use

/-- The updates of a key, the first one first. -/
def updatesOf (key : K) (history : List (Use K V)) : List (Update V) :=
  history.filterMap (Use.update? key)

/-- Whoever compares the entry of a key has got the snapshot from the map. -/
def FromMap (key : K) (history : List (Use K V)) : Prop :=
  ∀ before use later seen done, history = before ++ use :: later →
    use.compared? = some (key, seen, done) → ∃ earlier ∈ before, earlier.shown? key = some seen

/-- Behind each use the map goes on as that use has left it. -/
theorem exists_uses_of_split {map : SnapshotMap K V} {requests : List (Request K V)}
    {before later : List (Use K V)} {use : Use K V}
    (hsplit : map.uses requests = before ++ use :: later) :
    ∃ rest, later = use.after.uses rest := by
  induction before generalizing map requests with
  | nil =>
    cases requests with
    | nil => cases hsplit
    | cons request rest =>
      obtain ⟨rfl, rfl⟩ := List.cons.inj hsplit
      exact ⟨rest, rfl⟩
  | cons first before ih =>
    cases requests with
    | nil => cases hsplit
    | cons request rest => exact ih (List.cons.inj hsplit).2

/-- What a use does to the entry of a key. -/
inductive Effect (use : Use K V) (key : K) : Prop where
  | keeps (hsource : use.source? key = none) (hkeeps : ¬ use.Displaces key)
      (hafter : use.after.get? key = use.map.get? key)
  | inserts (hsource : use.source? key = some none) (hkeeps : ¬ use.Displaces key)
      (habsent : use.map.get? key = none)
      (hafter : ∃ value, use.after.get? key = some ⟨use.map.nextStamp, value⟩)
  | replaces (seen : Snapshot V) (hsource : use.source? key = some (some seen))
      (hcompared : use.compared? = some (key, seen, true))
      (hcurrent : use.map.isCurrent key seen = true)
      (hafter : ∃ value, use.after.get? key = some ⟨use.map.nextStamp, value⟩)
  | removes (seen : Snapshot V) (hsource : use.source? key = some (some seen))
      (hcompared : use.compared? = some (key, seen, true))
      (hcurrent : use.map.isCurrent key seen = true)
      (hafter : use.after.get? key = none)

namespace Use

theorem effect_get (map : SnapshotMap K V) (other key : K) :
    Effect ⟨map, .get other⟩ key :=
  .keeps rfl (fun ⟨_, h⟩ => nomatch h) rfl

theorem effect_entries (map : SnapshotMap K V) (key : K) :
    Effect ⟨map, .entries⟩ key :=
  .keeps rfl (fun ⟨_, h⟩ => nomatch h) rfl

theorem effect_getOrInsert (map : SnapshotMap K V) (other : K) (fallback : V) (key : K) :
    Effect ⟨map, .getOrInsert other fallback⟩ key := by
  have hkeeps : ¬ (⟨map, .getOrInsert other fallback⟩ : Use K V).Displaces key :=
    fun ⟨_, h⟩ => nomatch h
  by_cases hkey : other = key
  · subst hkey
    cases hget : map.get? other with
    | none =>
      have hreply := (getOrInsert_of_absent hget fallback).1
      exact .inserts (by simp [source?, hreply]) hkeeps hget
        ⟨fallback, get?_getOrInsert_of_absent hget fallback⟩
    | some current =>
      have hreply := getOrInsert_of_get? hget fallback
      refine .keeps (by simp [source?, hreply]) hkeeps ?_
      change (map.getOrInsert other fallback).2.get? other = map.get? other
      rw [hreply]
  · exact .keeps (by simp [source?, hkey]) hkeeps
      (map.get?_getOrInsert_of_ne fallback fun e => hkey e.symm)

theorem effect_compareAndSwap (map : SnapshotMap K V) (other : K) (seen : Snapshot V) (new : V)
    (key : K) : Effect ⟨map, .compareAndSwap other seen new⟩ key := by
  cases hcurrent : map.isCurrent other seen with
  | false =>
    have hreply := compareAndSwap_of_not_isCurrent hcurrent new
    refine .keeps (by simp [source?, hreply]) (by simp [Displaces, compared?, hreply]) ?_
    change (map.compareAndSwap other seen new).2.get? key = map.get? key
    rw [hreply]
  | true =>
    have hreply : (map.compareAndSwap other seen new).1 = true := by
      rw [compareAndSwap_fst, hcurrent]
    by_cases hkey : other = key
    · subst hkey
      exact .replaces seen (by simp [source?, hreply]) (by simp [compared?, hreply]) hcurrent
        ⟨new, get?_compareAndSwap_self hcurrent new⟩
    · exact .keeps (by simp [source?, hkey]) (by simp [Displaces, compared?, hkey])
        ((get?_compareAndSwap hcurrent new key).trans (if_neg fun e => hkey e.symm))

theorem effect_compareAndRemove (map : SnapshotMap K V) (other : K) (seen : Snapshot V) (key : K) :
    Effect ⟨map, .compareAndRemove other seen⟩ key := by
  cases hcurrent : map.isCurrent other seen with
  | false =>
    have hreply := compareAndRemove_of_not_isCurrent hcurrent
    refine .keeps (by simp [source?, hreply]) (by simp [Displaces, compared?, hreply]) ?_
    change (map.compareAndRemove other seen).2.get? key = map.get? key
    rw [hreply]
  | true =>
    have hreply : (map.compareAndRemove other seen).1 = true := by
      rw [compareAndRemove_fst, hcurrent]
    by_cases hkey : other = key
    · subst hkey
      exact .removes seen (by simp [source?, hreply]) (by simp [compared?, hreply]) hcurrent
        (get?_compareAndRemove_self hcurrent)
    · exact .keeps (by simp [source?, hkey]) (by simp [Displaces, compared?, hkey])
        ((get?_compareAndRemove hcurrent key).trans (if_neg fun e => hkey e.symm))

theorem effect (use : Use K V) (key : K) : Effect use key := by
  obtain ⟨map, request⟩ := use
  cases request with
  | get other => exact effect_get map other key
  | getOrInsert other fallback => exact effect_getOrInsert map other fallback key
  | compareAndSwap other seen new => exact effect_compareAndSwap map other seen new key
  | compareAndRemove other seen => exact effect_compareAndRemove map other seen key
  | entries => exact effect_entries map key

/-- A snapshot that a reply shows is the entry that the use leaves. -/
theorem get?_after_of_shown? {use : Use K V} {key : K} {seen : Snapshot V}
    (h : use.shown? key = some seen) : use.after.get? key = some seen := by
  obtain ⟨map, request⟩ := use
  cases request with
  | get other =>
    by_cases hkey : other = key
    · subst hkey
      have hshown : map.get? other = some seen := by simpa [shown?] using h
      exact hshown
    · simp [shown?, hkey] at h
  | getOrInsert other fallback =>
    by_cases hkey : other = key
    · subst hkey
      have hshown : (map.getOrInsert other fallback).1.1 = seen := by simpa [shown?] using h
      exact (map.get?_getOrInsert_self other fallback).trans (congrArg some hshown)
    · simp [shown?, hkey] at h
  | compareAndSwap | compareAndRemove => cases h
  | entries => exact h

/-- A swap or a removal succeeds when what it is given is current. -/
theorem done_eq_isCurrent {use : Use K V} {key : K} {seen : Snapshot V} {done : Bool}
    (h : use.compared? = some (key, seen, done)) : done = use.map.isCurrent key seen := by
  obtain ⟨map, request⟩ := use
  cases request with
  | get | getOrInsert | entries => cases h
  | compareAndSwap other given new =>
    cases h
    exact map.compareAndSwap_fst key seen new
  | compareAndRemove other given =>
    cases h
    exact map.compareAndRemove_fst key seen

/-- A swap or a removal that does not succeed leaves the map as it is. -/
theorem after_of_not_done {use : Use K V} {key : K} {seen : Snapshot V}
    (h : use.compared? = some (key, seen, false)) : use.after = use.map := by
  have hcurrent : use.map.isCurrent key seen = false := (done_eq_isCurrent h).symm
  obtain ⟨map, request⟩ := use
  cases request with
  | get | getOrInsert | entries => cases h
  | compareAndSwap other given new =>
    obtain ⟨rfl, rfl, -⟩ : other = key ∧ given = seen ∧ _ := by simpa [compared?] using h
    exact congrArg Prod.snd (compareAndSwap_of_not_isCurrent hcurrent new)
  | compareAndRemove other given =>
    obtain ⟨rfl, rfl, -⟩ : other = key ∧ given = seen ∧ _ := by simpa [compared?] using h
    exact congrArg Prod.snd (compareAndRemove_of_not_isCurrent hcurrent)

/-- A use about one key leaves the others alone. -/
theorem get?_after_of_ne {use : Use K V} {key : K} (hkey : use.request.key? ≠ some key) :
    use.after.get? key = use.map.get? key := by
  have hsource : use.source? key = none := by
    obtain ⟨map, request⟩ := use
    cases request with
    | get | entries => rfl
    | getOrInsert other | compareAndSwap other | compareAndRemove other =>
      have hne : other ≠ key := fun e => hkey (congrArg some e)
      simp [source?, hne]
  cases use.effect key with
  | keeps _ _ hafter => exact hafter
  | inserts h | replaces _ h | removes _ h => simp [hsource] at h

/-- Stamps are never given out again. -/
theorem nextStamp_le_after (use : Use K V) : use.map.nextStamp ≤ use.after.nextStamp := by
  obtain ⟨map, request⟩ := use
  cases request with
  | get | entries => exact Nat.le_refl _
  | getOrInsert key fallback =>
    change map.nextStamp ≤ (map.getOrInsert key fallback).2.nextStamp
    cases hget : map.get? key with
    | some current => exact Nat.le_of_eq (by rw [getOrInsert_of_get? hget])
    | none =>
      rw [(getOrInsert_of_absent hget fallback).2]
      exact Nat.le_succ _
  | compareAndSwap key seen new =>
    change map.nextStamp ≤ (map.compareAndSwap key seen new).2.nextStamp
    cases hcurrent : map.isCurrent key seen with
    | false => exact Nat.le_of_eq (by rw [compareAndSwap_of_not_isCurrent hcurrent])
    | true =>
      rw [nextStamp_compareAndSwap hcurrent]
      exact Nat.le_succ _
  | compareAndRemove key seen =>
    exact Nat.le_of_eq (nextStamp_compareAndRemove map key seen).symm

end Use

/-- A snapshot that is no entry any more and never will be again: what comes in later has a later
stamp. -/
structure IsGone (map : SnapshotMap K V) (key : K) (seen : Snapshot V) : Prop where
  stamp_lt : seen.stamp < map.nextStamp
  not_current : map.isCurrent key seen = false

theorem isCurrent_eq_false_of_entry {map : SnapshotMap K V} {key : K} {seen : Snapshot V}
    (h : ∀ entry, map.get? key = some entry → entry.stamp ≠ seen.stamp) :
    map.isCurrent key seen = false := by
  rw [← Bool.not_eq_true, isCurrent_iff]
  rintro ⟨entry, hentry, hstamp⟩
  exact h entry hentry hstamp

/-- What is gone is not brought back by any use. -/
theorem IsGone.after {use : Use K V} {key : K} {seen : Snapshot V}
    (h : IsGone use.map key seen) : IsGone use.after key seen where
  stamp_lt := Nat.lt_of_lt_of_le h.stamp_lt use.nextStamp_le_after
  not_current := by
    refine isCurrent_eq_false_of_entry fun entry hentry hstamp => ?_
    cases use.effect key with
    | keeps _ _ hafter =>
      have hcurrent := isCurrent_iff.2 ⟨entry, hafter ▸ hentry, hstamp⟩
      simp [h.not_current] at hcurrent
    | inserts _ _ _ hafter | replaces _ _ _ _ hafter =>
      obtain ⟨value, hvalue⟩ := hafter
      obtain rfl : entry = _ := Option.some.inj (hentry.symm.trans hvalue)
      exact Nat.lt_irrefl _ (hstamp ▸ h.stamp_lt)
    | removes _ _ _ _ hafter => simp [hafter] at hentry

/-- An entry stays until a swap or a removal of its key succeeds. -/
theorem get?_after_of_not_displaces {use : Use K V} {key : K} {seen : Snapshot V}
    (hget : use.map.get? key = some seen) (hkeeps : ¬ use.Displaces key) :
    use.after.get? key = some seen := by
  cases use.effect key with
  | keeps _ _ hafter => exact hafter.trans hget
  | inserts _ _ habsent => simp [hget] at habsent
  | replaces given _ hcompared | removes given _ hcompared => exact (hkeeps ⟨given, hcompared⟩).elim

/-- An entry that is replaced or removed is gone. -/
theorem isGone_of_displaces {use : Use K V} {key : K} {seen : Snapshot V}
    (hget : use.map.get? key = some seen) (hdisplaces : use.Displaces key) :
    IsGone use.after key seen where
  stamp_lt := Nat.lt_of_lt_of_le (stamp_lt_of_get? hget) use.nextStamp_le_after
  not_current := by
    refine isCurrent_eq_false_of_entry fun entry hentry hstamp => ?_
    cases use.effect key with
    | keeps _ hkeeps | inserts _ hkeeps => exact hkeeps hdisplaces
    | replaces _ _ _ _ hafter =>
      obtain ⟨value, hvalue⟩ := hafter
      obtain rfl : entry = _ := Option.some.inj (hentry.symm.trans hvalue)
      exact Nat.lt_irrefl _ (hstamp ▸ stamp_lt_of_get? hget)
    | removes _ _ _ _ hafter => simp [hafter] at hentry

theorem IsGone.at_use {map : SnapshotMap K V} {requests : List (Request K V)}
    {between later : List (Use K V)} {use : Use K V} {key : K} {seen : Snapshot V}
    (h : IsGone map key seen) (hsplit : map.uses requests = between ++ use :: later) :
    IsGone use.map key seen := by
  induction between generalizing map requests with
  | nil =>
    cases requests with
    | nil => cases hsplit
    | cons request rest =>
      obtain ⟨rfl, -⟩ := List.cons.inj hsplit
      exact h
  | cons first between ih =>
    cases requests with
    | nil => cases hsplit
    | cons request rest =>
      have hafter : IsGone (Use.after ⟨map, request⟩) key seen := IsGone.after h
      exact ih hafter (List.cons.inj hsplit).2

/-- The entry of a key, some uses later: it is still the entry, or else a swap or a removal has
succeeded and it is gone for good. -/
theorem entry_or_gone {map : SnapshotMap K V} {requests : List (Request K V)}
    {between later : List (Use K V)} {use : Use K V} {key : K} {seen : Snapshot V}
    (hget : map.get? key = some seen) (hsplit : map.uses requests = between ++ use :: later) :
    (use.map.get? key = some seen ∧ ∀ passed ∈ between, ¬ passed.Displaces key) ∨
      IsGone use.map key seen ∧ ∃ passed ∈ between, passed.Displaces key := by
  induction between generalizing map requests with
  | nil =>
    cases requests with
    | nil => cases hsplit
    | cons request rest =>
      obtain ⟨rfl, -⟩ := List.cons.inj hsplit
      exact .inl ⟨hget, by simp⟩
  | cons first between ih =>
    cases requests with
    | nil => cases hsplit
    | cons request rest =>
      obtain ⟨rfl, hrest⟩ := List.cons.inj hsplit
      by_cases hdisplaces : (⟨map, request⟩ : Use K V).Displaces key
      · exact .inr ⟨(isGone_of_displaces hget hdisplaces).at_use hrest,
          _, List.mem_cons_self, hdisplaces⟩
      · rcases ih (get?_after_of_not_displaces hget hdisplaces) hrest with
          ⟨hstill, hnone⟩ | ⟨hgone, passed, hpassed, hdone⟩
        · exact .inl ⟨hstill, List.forall_mem_cons.2 ⟨hdisplaces, hnone⟩⟩
        · exact .inr ⟨hgone, passed, List.mem_cons_of_mem _ hpassed, hdone⟩

/-- A snapshot that was shown is current as long as no swap or removal of its key has succeeded. -/
theorem isCurrent_iff_not_displaced {map : SnapshotMap K V} {requests : List (Request K V)}
    {before between later : List (Use K V)} {obtaining use : Use K V} {key : K} {seen : Snapshot V}
    (hsplit : map.uses requests = before ++ obtaining :: (between ++ use :: later))
    (hshown : obtaining.shown? key = some seen) :
    use.map.isCurrent key seen = true ↔ ∀ passed ∈ between, ¬ passed.Displaces key := by
  obtain ⟨rest, hrest⟩ := exists_uses_of_split hsplit
  rcases entry_or_gone (Use.get?_after_of_shown? hshown) hrest.symm with
    ⟨hstill, hnone⟩ | ⟨hgone, passed, hpassed, hdisplaces⟩
  · exact ⟨fun _ => hnone, fun _ => isCurrent_of_get? hstill⟩
  · refine ⟨fun hcurrent => ?_, fun hnone => (hnone passed hpassed hdisplaces).elim⟩
    simp [hgone.not_current] at hcurrent

/-- The updates lead from one entry to another, each of them made from what the one before it has
left. -/
inductive Chain : Option (Snapshot V) → List (Update V) → Option (Snapshot V) → Prop where
  | nil (entry : Option (Snapshot V)) : Chain entry [] entry
  | cons {source target last : Option (Snapshot V)} {rest : List (Update V)}
      (hrest : Chain target rest last) : Chain source (⟨source, target⟩ :: rest) last

/-- An update is made from the entry that it finds. -/
theorem source_eq_entry {map : SnapshotMap K V} {requests : List (Request K V)}
    {before later : List (Use K V)} {use : Use K V} {key : K} {source : Option (Snapshot V)}
    (hfrom : FromMap key (map.uses requests))
    (hsplit : map.uses requests = before ++ use :: later)
    (hsource : use.source? key = some source) :
    source = use.map.get? key := by
  cases use.effect key with
  | keeps hnone => simp [hsource] at hnone
  | inserts hinserted _ habsent =>
    rw [habsent]
    exact Option.some.inj (hsource.symm.trans hinserted)
  | replaces seen hseen hcompared hcurrent | removes seen hseen hcompared hcurrent =>
    obtain rfl : source = some seen := Option.some.inj (hsource.symm.trans hseen)
    obtain ⟨obtaining, hmem, hshown⟩ := hfrom before use later seen true hsplit hcompared
    obtain ⟨earlier, between, rfl⟩ := List.append_of_mem hmem
    rw [List.append_assoc, List.cons_append] at hsplit
    obtain ⟨rest, hrest⟩ := exists_uses_of_split hsplit
    rcases entry_or_gone (Use.get?_after_of_shown? hshown) hrest.symm with ⟨hstill, -⟩ | ⟨hgone, -⟩
    · exact hstill.symm
    · simp [hgone.not_current] at hcurrent

/-- The updates of a key lead from its first entry to its last, if each is made from the entry that
it finds. -/
theorem chain_updatesOf {map : SnapshotMap K V} {requests : List (Request K V)} {key : K}
    (hsources : ∀ use ∈ map.uses requests, ∀ source,
      use.source? key = some source → source = use.map.get? key) :
    Chain (map.get? key) (updatesOf key (map.uses requests))
      ((map.afterAll requests).get? key) := by
  induction requests generalizing map with
  | nil => exact .nil _
  | cons request rest ih =>
    obtain ⟨hfirst, hlater⟩ := List.forall_mem_cons.1 hsources
    have hrest := ih hlater
    let use : Use K V := ⟨map, request⟩
    change Chain (use.map.get? key) (updatesOf key (use :: use.after.uses rest))
      ((use.after.afterAll rest).get? key)
    cases hsource : use.source? key with
    | none =>
      have hkept : use.after.get? key = use.map.get? key := by
        cases use.effect key with
        | keeps _ _ hafter => exact hafter
        | inserts h | replaces _ h | removes _ h => simp [hsource] at h
      have hnone : use.update? key = none := by simp [Use.update?, hsource]
      rw [updatesOf, List.filterMap_cons_none hnone, ← hkept]
      exact hrest
    | some source =>
      have hsome : use.update? key = some ⟨source, use.after.get? key⟩ := by
        simp [Use.update?, hsource]
      rw [updatesOf, List.filterMap_cons_some hsome, ← hfirst source hsource]
      exact .cons hrest

/-- Swaps and removals succeed exactly against the current snapshot. In every history of a map, one
that is given a snapshot that was shown before succeeds if and only if no other one of the same key
has succeeded since, whatever values have come and gone; one that fails leaves the map as it is, and
whatever is done about one key leaves the others alone. An insertion is reported when the key was
absent, else nothing happens. So if nobody makes up a snapshot, the updates of each key form a
single chain from its first entry to its last. -/
theorem swaps_succeed_against_current (map : SnapshotMap K V) (requests : List (Request K V)) :
    (∀ before obtaining between use later key seen done,
      map.uses requests = before ++ obtaining :: (between ++ use :: later) →
        obtaining.shown? key = some seen → use.compared? = some (key, seen, done) →
          (done = true ↔ ∀ passed ∈ between, ¬ passed.Displaces key)) ∧
      (∀ use ∈ map.uses requests,
        (∀ key seen, use.compared? = some (key, seen, false) → use.after = use.map) ∧
          (∀ key, use.request.key? ≠ some key → use.after.get? key = use.map.get? key) ∧
          ∀ key fallback, use.request = .getOrInsert key fallback →
            let reply := (use.map.getOrInsert key fallback).1
            (reply.2 = true ↔ use.map.get? key = none) ∧
              (reply.2 = false → use.after = use.map) ∧ use.after.get? key = some reply.1) ∧
      ∀ key, FromMap key (map.uses requests) →
        Chain (map.get? key) (updatesOf key (map.uses requests))
          ((map.afterAll requests).get? key) := by
  refine ⟨fun before obtaining between use later key seen done hsplit hshown hcompared => ?_,
    fun use _ => ⟨fun key seen => Use.after_of_not_done, fun key => Use.get?_after_of_ne, ?_⟩,
    fun key hfrom => chain_updatesOf fun use hmem source hsource => ?_⟩
  · rw [Use.done_eq_isCurrent hcompared]
    exact isCurrent_iff_not_displaced hsplit hshown
  · rintro key fallback hrequest reply
    obtain ⟨map, request⟩ := use
    obtain rfl : request = _ := hrequest
    refine ⟨map.getOrInsert_inserted_iff key fallback, fun hpresent => ?_,
      map.get?_getOrInsert_self key fallback⟩
    cases hget : map.get? key with
    | some current => exact congrArg Prod.snd (getOrInsert_of_get? hget fallback)
    | none =>
      have hinserted := (map.getOrInsert_inserted_iff key fallback).2 hget
      exact (Bool.false_ne_true (hpresent.symm.trans hinserted)).elim
  · obtain ⟨before, later, hsplit⟩ := List.append_of_mem hmem
    exact source_eq_entry hfrom hsplit hsource

/-- It is enough to look at each use with those before it. -/
theorem fromMap_of_forall [DecidableEq V] {key : K} {history : List (Use K V)}
    (h : ∀ index : Fin history.length, (history.get index).compared?.all (fun compared =>
      compared.1 ≠ key || (history.take index).any fun earlier =>
        earlier.shown? key = some compared.2.1) = true) : FromMap key history := by
  intro before use later seen done hsplit hcompared
  have hlt : before.length < history.length := by simp [hsplit]
  have hget : history.get ⟨before.length, hlt⟩ = use := by simp [hsplit]
  have htake : history.take before.length = before := by simp [hsplit]
  have hall := h ⟨before.length, hlt⟩
  rw [hget, hcompared, htake] at hall
  simpa using hall

/-- A value that is swapped for an equal one, then removed, then inserted again, is three snapshots:
neither the first nor the second is current any more. All of them were shown before they were given
back, so the four updates form a chain. -/
theorem equal_value_not_current :
    let history := (SnapshotMap.empty : SnapshotMap Nat Nat).uses
      [.getOrInsert 7 1, .compareAndSwap 7 ⟨0, 1⟩ 1, .get 7, .compareAndRemove 7 ⟨1, 1⟩,
        .getOrInsert 7 1, .compareAndSwap 7 ⟨0, 1⟩ 5]
    (∃ first swap last, history[0]? = some first ∧ history[1]? = some swap ∧
      history[5]? = some last ∧ first.shown? 7 = some ⟨0, 1⟩ ∧
      last.map.get? 7 = some ⟨2, 1⟩ ∧ swap.Displaces 7 ∧
      ∀ done, last.compared? = some (7, ⟨0, 1⟩, done) → ¬ done = true) ∧
    FromMap 7 history ∧ (updatesOf 7 history).length = 4 ∧
      Chain none (updatesOf 7 history) (some ⟨2, 1⟩) := by
  intro history
  obtain ⟨hcompares, -, hchain⟩ := swaps_succeed_against_current (SnapshotMap.empty : SnapshotMap
    Nat Nat) [.getOrInsert 7 1, .compareAndSwap 7 ⟨0, 1⟩ 1, .get 7, .compareAndRemove 7 ⟨1, 1⟩,
      .getOrInsert 7 1, .compareAndSwap 7 ⟨0, 1⟩ 5]
  have hfrom : FromMap 7 history := fromMap_of_forall (by decide)
  refine ⟨?_, hfrom, by decide, hchain 7 hfrom⟩
  have hdisplaces : (history.get ⟨1, by decide⟩).Displaces 7 := ⟨⟨0, 1⟩, by decide⟩
  refine ⟨history.get ⟨0, by decide⟩, history.get ⟨1, by decide⟩, history.get ⟨5, by decide⟩,
    rfl, rfl, rfl, by decide, by decide, hdisplaces, fun done hcompared hdone => ?_⟩
  have hiff := hcompares []
    (history.get ⟨0, by decide⟩) ((history.drop 1).take 4) (history.get ⟨5, by decide⟩) [] 7 ⟨0, 1⟩
    done (show history = _ from rfl) (by decide) hcompared
  exact hiff.1 hdone _ List.mem_cons_self hdisplaces

end EventSourcing.SnapshotMap
