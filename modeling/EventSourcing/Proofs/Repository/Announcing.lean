import EventSourcing.Proofs.Repository.Laws

namespace EventSourcing.Repository

open Interleaving

variable {E : Type}

/-- The window of `key` covers the range from right behind `tail` to `last` while the log ends at
`tail`. -/
def Announced (key : AggregateKey) (tail last : SequenceId) (world : World E) : Prop :=
  (streamOf world key).tail = tail → ∃ window, (streamOf world key).window = some window ∧
    window.value.first = tail + 1 ∧ last ≤ window.value.last

theorem Announced.later {key : AggregateKey} {tail last : SequenceId} {world later : World E}
    (hannounced : Announced key tail last world) (htail : tail ≤ (streamOf world key).tail)
    (hfollows : Follows world later) : Announced key tail last later := by
  intro heq
  have hle := (hfollows key).tail_le
  have hworld : (streamOf world key).tail = tail := by lia
  obtain ⟨window, hwindow, hfirst, hlast⟩ := hannounced hworld
  obtain ⟨window', hwindow', hfirst', hlast'⟩ :=
    (hfollows key).announced (by lia) window hwindow (by lia)
  exact ⟨window', hwindow', by lia, by lia⟩

/-- How the announcement of a range by call number `id` has ended, for a log that ended at `tail`
when the range was checked. -/
def AnnounceEnds (id : Nat) (key : AggregateKey) (tail last : SequenceId) (result : Result Unit)
    (world : World E) : Prop :=
  ∃ met, History.met? world.history id = some met ∧
    match result with
    | .ok _ => ¬ (tail + 1 < met.value.first ∧ met.value.last ≤ last) ∧
      Announced key tail last world
    | .error error => (tail + 1 < met.value.first ∧ met.value.last ≤ last) ∧
      error = .beforeWindow (tail + 1) met.value.first ∧ tail < (streamOf world key).tail

section

variable {config : RepositoryConfig} {id : Nat} {key : AggregateKey}
  {batch : List (RecordedEvent E)} {tail last : SequenceId} {start world : World E}

/-- No window is there, and the batch opens one. -/
private theorem keeps_open (hstart : Sound start) (hsince : Since id 0 start world)
    (htail : tail ≤ (streamOf world key).tail) (hle : tail + 1 ≤ last)
    (habsent : world.state.windows.get? key = none)
    {next : Snapshot Window × Bool → Operation E (Result Unit)}
    (hnext : next (⟨world.state.windows.nextStamp, .opened (tail + 1) last⟩, true) =
      .done (.ok ())) :
    (calls config).Keeps laws id (.append key batch)
      (fun result later => Since id 1 start later ∧ AnnounceEnds id key tail last result later)
      (step (.windows (.getOrInsert key (.opened (tail + 1) last))) >>= next) world := by
  have hvalid := hsince.sound key
  refine hsince.keeps_change hstart (answer_openWindow habsent _) rfl
    (Changes.opened hvalid habsent _ _) (hvalid.opened habsent (Nat.succ_le_succ htail) hle)
    (.opened habsent _ _) (Nat.zero_le _) (Nat.le_refl _) ?_
  intro after hhistory hafter hstream
  rw [hnext]
  refine ⟨hafter, ⟨world.state.windows.nextStamp, .opened (tail + 1) last⟩, ?_, ?_, ?_⟩
  · rw [hhistory]
    exact History.met?_concat hsince.within (by simp [Entry.met?])
  · rintro ⟨hlt, -⟩
    exact Nat.lt_irrefl _ hlt
  · intro _
    rw [hstream]
    exact ⟨_, rfl, rfl, Nat.le_refl _⟩

/-- A window that is kept for a batch reaches past it and begins where the batch begins, unless the
log has grown. -/
theorem announced_of_kept {current : Snapshot Window} (hsound : Sound world)
    (hwindow : (streamOf world key).window = some current) (hle : tail + 1 ≤ last)
    (hlast : last < current.value.last) (hkept : ¬ current.value.isSpeculative tail = true) :
    Announced key tail last world := by
  intro htail
  have hfirst := (hsound key).first_le current hwindow
  rw [Window.isSpeculative_iff] at hkept
  exact ⟨current, hwindow, by lia, Nat.le_of_lt hlast⟩

/-- The window that was met is replaced by one that begins with the batch. -/
private theorem keeps_widen {current : Snapshot Window} (hstart : Sound start)
    (htail : (streamOf start key).tail = tail) (hsince : Since id 1 start world)
    (hle : tail + 1 ≤ last) (hwindow : world.state.windows.get? key = some current)
    (hmet : History.met? world.history id = some current)
    (hkept : ¬ (last < current.value.last ∧ ¬ current.value.isSpeculative tail = true))
    (hfirst : current.value.first ≤ tail + 1) {next : Bool → Operation E (Result Unit)}
    (hnext : next true = .done (.ok ())) :
    (calls config).Keeps laws id (.append key batch)
      (fun result later => Since id 1 start later ∧ AnnounceEnds id key tail last result later)
      (step (.windows (.compareAndSwap key current (current.value.widened (tail + 1) last))) >>=
        next) world := by
  have hvalid := hsince.sound key
  have hlater := hsince.follows key
  have hgrown : tail ≤ (streamOf world key).tail := by
    rw [← htail]
    exact hlater.tail_le
  have hcurrent : world.state.windows.isCurrent key current = true :=
    SnapshotMap.isCurrent_iff.2 ⟨current, hwindow, rfl⟩
  -- A window that has come since the log grew begins behind what was the tail.
  have hahead : ¬ (streamOf world key).isReopened → tail < (streamOf world key).tail →
      tail < current.value.first := by
    intro hreopened hlt
    rw [← htail] at hlt ⊢
    exact hlater.overtaken hreopened hlt current hwindow
  refine hsince.keeps_change hstart (answer_swapWindow hcurrent _) rfl
    (Changes.rewindowed (fun _ => ⟨rfl, rfl, rfl, rfl, rfl⟩) hcurrent _)
    (hvalid.widened hwindow hgrown hle hkept hahead) (.widened hwindow hgrown hfirst hkept)
    (Nat.le_refl _) (Nat.le_refl _) ?_
  intro after hhistory hafter hstream
  rw [hnext]
  refine ⟨hafter, current, ?_, ?_, ?_⟩
  · rw [hhistory]
    exact History.met?_of_extends (List.prefix_append _ _) hmet
  · rintro ⟨hlt, -⟩
    exact Nat.not_le_of_lt hlt hfirst
  · intro _
    rw [hstream]
    exact ⟨_, rfl, rfl, Nat.le_refl _⟩

/-- The first pass of widening a window is also the last, because nothing comes between meeting the
window and replacing it. -/
theorem keeps_widenWindow (hstart : Sound start) (htail : (streamOf start key).tail = tail)
    (hsince : Since id 0 start world) (hle : tail + 1 ≤ last) (passes : Nat)
    {checkpoint : Checkpoint} (hcheckpoint : checkpoint ≠ .markDeliveredEnded) :
    (calls config).Keeps laws id (.append key batch)
      (fun result later => Since id 1 start later ∧ AnnounceEnds id key tail last result later)
      (widenWindow key tail (tail + 1) last (passes + 1) checkpoint) world := by
  refine hsince.keeps_reached hstart hcheckpoint ?_
  intro started hstarted _
  have hgrown : tail ≤ (streamOf started key).tail := by
    rw [← htail]
    exact (hstarted.follows key).tail_le
  cases hwindow : started.state.windows.get? key with
  | none => exact keeps_open hstart hstarted hgrown hle hwindow rfl
  | some current =>
    have hvalid := hstarted.sound key
    refine hstarted.keeps_same hstart (answer_meetWindow hwindow _) rfl (fun _ => rfl)
      (fun _ => ⟨rfl, rfl, rfl, rfl, rfl⟩) (Nat.zero_le _) (Nat.le_refl _) ?_
    intro met hstate hhistory hsincemet hsame
    have hmet : History.met? met.history id = some current := by
      rw [hhistory]
      exact History.met?_concat hstarted.within (by simp [Entry.met?])
    rw [← hstate] at hwindow
    rw [← hsame key] at hgrown
    dsimp only
    rw [if_neg Bool.false_ne_true]
    split
    · next hkept =>
      simp only [Bool.and_eq_true, decide_eq_true_eq, Bool.not_eq_true'] at hkept
      obtain ⟨hlast, hspeculative⟩ := hkept
      have hannounced :=
        announced_of_kept hsincemet.sound hwindow hle hlast (by simp [hspeculative])
      refine hsincemet.keeps_reached hstart (by simp) ?_
      intro later hlater hpassed
      refine ⟨hlater, current, History.met?_of_extends hpassed.history hmet, ?_,
        hannounced.later hgrown hpassed.follows⟩
      rintro ⟨-, hle⟩
      lia
    · next hkept =>
      simp only [Bool.and_eq_true, decide_eq_true_eq, Bool.not_eq_true',
        ← Bool.not_eq_true] at hkept
      split
      · next hbefore =>
        have hlast := Window.last_le_of_not_kept hkept (Nat.lt_of_succ_lt hbefore)
        have hfirst := (hsincemet.sound key).first_le current hwindow
        exact ⟨hsincemet, current, hmet, ⟨hbefore, hlast⟩, rfl, by lia⟩
      · next hfirst =>
        have hfirst := Nat.le_of_not_lt hfirst
        exact keeps_widen hstart htail hsincemet hle hwindow hmet hkept hfirst rfl

/-- The range of a batch that is the next one for the log is never refused as one that does not lie
behind it. -/
theorem keeps_markUndelivered (hstart : Sound start) (htail : (streamOf start key).tail = tail)
    (hsince : Since id 0 start world) (hle : tail + 1 ≤ last) :
    (calls config).Keeps laws id (.append key batch)
      (fun result later => Since id 1 start later ∧ AnnounceEnds id key tail last result later)
      (markUndelivered config key tail (tail + 1) last) world := by
  have hrange : ¬ (decide (last < tail + 1) || decide (tail + 1 ≤ tail)) = true := by
    simp only [Bool.or_eq_true, decide_eq_true_eq]
    lia
  rw [markUndelivered, if_neg hrange]
  obtain ⟨passes, hpasses⟩ := config.liveLockLimit.exists_value_eq_succ
  rw [hpasses]
  exact keeps_widenWindow hstart htail hsince hle passes (by simp)

end

end EventSourcing.Repository
