import EventSourcing.Proofs.Repository.Conduct

namespace EventSourcing.Repository

open Interleaving

variable {E : Type} {id passes : Nat} {key : AggregateKey} {delivered : SequenceId}

/-- A delivery has begun some passes and has not taken effect on a window so far. -/
structure History.Pending (history : History E) (id passes : Nat) : Prop where
  unsettled : Unsettled history id
  passes_eq : History.passes history id = passes

namespace History.Pending

variable {history later : History E} {entry : Entry E}

private theorem unsettled_step (hpending : Pending history id passes)
    (hown : own later id = own history id ++ [entry])
    (hsettling : ∀ current, entry.settling? ≠ some (current, true)) : Unsettled later id := by
  intro other hother
  rw [hown] at hother
  rcases List.mem_append.1 hother with h | h
  · exact hpending.unsettled other h
  · rw [List.mem_singleton.1 h]
    exact hsettling

theorem step (hpending : Pending history id passes)
    (hown : own later id = own history id ++ [entry])
    (hsettling : ∀ current, entry.settling? ≠ some (current, true))
    (hbegins : entry.beginsPass = false) : Pending later id passes := by
  refine ⟨hpending.unsettled_step hown hsettling, ?_⟩
  rw [History.passes, hown, List.countP_append, List.countP_singleton, hbegins]
  exact hpending.passes_eq

theorem concat (hpending : Pending history id passes) (hlater : later = history ++ [entry])
    (hid : entry.id = id) (hsettling : ∀ current, entry.settling? ≠ some (current, true))
    (hbegins : entry.beginsPass = false) : Pending later id passes := by
  subst hlater
  exact hpending.step (own_concat hid) hsettling hbegins

/-- A pass begins. -/
theorem begin (hpending : Pending history id passes)
    (hown : own later id = own history id ++ [entry])
    (hsettling : ∀ current, entry.settling? ≠ some (current, true))
    (hbegins : entry.beginsPass = true) : Pending later id (passes + 1) := by
  refine ⟨hpending.unsettled_step hown hsettling, ?_⟩
  rw [History.passes, hown, List.countP_append, List.countP_singleton, hbegins]
  exact congrArg (· + 1) hpending.passes_eq

/-- A call that has just begun has not done anything yet. -/
theorem of_called {call : Call E} (hfresh : ∀ entry ∈ history, entry.id ≠ id) :
    Pending (history ++ [⟨id, call, .called⟩]) id 0 := by
  have hown : own (history ++ [⟨id, call, .called⟩]) id = [⟨id, call, .called⟩] := by
    have hnil : own history id = [] := by simpa [own] using hfresh
    rw [own_concat rfl, hnil]
    rfl
  constructor
  · rw [Unsettled, hown]
    cases call <;> simp [Entry.settling?]
  · rw [History.passes, hown]
    cases call <;> rfl

end History.Pending

theorem History.watermark_mono {history later : History E} (hextends : history <+: later) :
    watermark history key ≤ watermark later key := by
  obtain ⟨rest, rfl⟩ := hextends
  induction rest using List.reverseRecOn with
  | nil => exact Nat.le_of_eq (by rw [List.append_nil])
  | append_singleton rest entry ih =>
    rw [← List.append_assoc, watermark_concat]
    exact Nat.le_trans ih (Nat.le_max_left _ _)

/-- How a pass of a delivery comes to its end: in vain, or with its position acknowledged, or with
an error that is no live lock. -/
def PassEnds (id passes : Nat) (key : AggregateKey) (delivered : SequenceId)
    (result : Result Bool) (world : World E) : Prop :=
  match result with
  | .ok true => Sound world ∧ delivered ≤ History.watermark world.history key
  | .ok false => Sound world ∧ History.Pending world.history id passes ∧
      History.LostPasses id key delivered passes world.history
  | .error error => History.Unsettled world.history id ∧
      (∀ other, error ≠ .duplicateId other) ∧ ∀ other, error ≠ .liveLock other

section

variable {config : RepositoryConfig} {tail : SequenceId} {earlier world : World E}
  {current : Snapshot Window}

/-- While the window is the one that was looked at, the log ends where it ended then. -/
def Unchanged (key : AggregateKey) (current : Snapshot Window) (tail : SequenceId)
    (world : World E) : Prop :=
  ∀ window, (streamOf world key).window = some window → window.stamp = current.stamp →
    window = current ∧ (streamOf world key).tail = tail

private theorem PassEnds.settled {after : World E} {entry : Entry E} (hsound : Sound after)
    (hhistory : after.history = world.history ++ [entry])
    (hacknowledged : entry.acknowledged key = delivered) :
    PassEnds id passes key delivered (.ok true) after := by
  refine ⟨hsound, ?_⟩
  rw [hhistory, History.watermark_concat, hacknowledged]
  exact Nat.le_max_right _ _

private theorem PassEnds.inVain {after : World E} {entry : Entry E} (hsound : Sound after)
    (hhistory : after.history = world.history ++ [entry])
    (hpending : History.Pending world.history id passes) (hid : entry.id = id)
    (hsettling : entry.settling? = some (current, false)) (hbegins : entry.beginsPass = false)
    (hlost : History.LostPasses id key delivered passes (world.history ++ [entry])) :
    PassEnds id passes key delivered (.ok false) after := by
  refine ⟨hsound, hpending.concat hhistory hid (by simp [hsettling]) hbegins, ?_⟩
  rw [hhistory]
  exact hlost

private theorem conducts_settleWindow (hearlier : Sound earlier) (hsince : Since id 5 earlier world)
    (hpending : History.Pending world.history id passes)
    (hunchanged : Unchanged key current tail world)
    (hwatermark : current.value.delivered ≤ History.watermark world.history key)
    (hlost : ∀ attempt : Entry E, world.state.windows.get? key ≠ some current → attempt.id = id →
      attempt.settling? = some (current, false) →
      History.LostPasses id key delivered passes (world.history ++ [attempt])) :
    Conducts config id (.markDelivered key delivered) (PassEnds id passes key delivered)
      (settleWindow key current ((current.value.clamped tail).acknowledged delivered)) world := by
  have hsettled : world.state.windows.isCurrent key current = true →
      world.state.windows.get? key = some current ∧
        (current.value.clamped tail).acknowledged delivered =
          (streamOf world key).settled current.value delivered := by
    intro hcurrent
    obtain ⟨window, hwindow, hstamp⟩ := SnapshotMap.isCurrent_iff.1 hcurrent
    obtain ⟨rfl, rfl⟩ := hunchanged window hwindow hstamp
    exact ⟨hwindow, rfl⟩
  have hgone : world.state.windows.isCurrent key current = false →
      world.state.windows.get? key ≠ some current := by
    intro hcurrent hwindow
    have hcurrent' := SnapshotMap.isCurrent_iff.2 ⟨current, hwindow, rfl⟩
    simp [hcurrent] at hcurrent'
  unfold settleWindow
  split
  · next hsame =>
    have hmax : max (current.value.clamped tail).delivered delivered = current.value.delivered :=
      congrArg Window.delivered hsame
    refine ⟨hsince.sound, ?_⟩
    lia
  split
  · next hdone =>
    have hremoves : ∀ reply, IsWarranted config world ⟨id, .markDelivered key delivered,
        .answered (.windows (.compareAndRemove key current)) reply⟩ := by
      refine fun reply => .remove reply hpending.unsettled fun hcurrent => ?_
      obtain ⟨hwindow, hupdated⟩ := hsettled hcurrent
      exact ⟨hwindow, hupdated ▸ hdone⟩
    cases hcurrent : world.state.windows.isCurrent key current with
    | true =>
      refine hsince.conducts_step hearlier (answer_removeWindow hcurrent) rfl (Nat.le_refl _)
        (Entry.stage_le _) (hremoves _) ?_
      intro after _ hhistory _ hafter
      exact .settled hafter.sound hhistory (if_pos rfl)
    | false =>
      refine hsince.conducts_step hearlier (answer_removeWindow_of_not hcurrent) rfl
        (Nat.le_refl _) (Entry.stage_le _) (hremoves _) ?_
      intro after _ hhistory _ hafter
      exact .inVain hafter.sound hhistory hpending rfl rfl rfl (hlost _ (hgone hcurrent) rfl rfl)
  split
  · next hbehind =>
    have hadvances : ∀ reply, IsWarranted config world ⟨id, .markDelivered key delivered,
        .answered (.windows (.compareAndSwap key current
          ((current.value.clamped tail).acknowledged delivered))) reply⟩ := by
      refine fun reply => .advance reply hpending.unsettled fun hcurrent => ?_
      obtain ⟨hwindow, hupdated⟩ := hsettled hcurrent
      exact ⟨hwindow, hupdated, hbehind⟩
    cases hcurrent : world.state.windows.isCurrent key current with
    | true =>
      refine hsince.conducts_step hearlier (answer_swapWindow hcurrent _) rfl (Nat.le_refl _)
        (Entry.stage_le _) (hadvances _) ?_
      intro after _ hhistory _ hafter
      exact .settled hafter.sound hhistory (if_pos rfl)
    | false =>
      refine hsince.conducts_step hearlier (answer_swapWindow_of_not hcurrent _) rfl
        (Nat.le_refl _) (Entry.stage_le _) (hadvances _) ?_
      intro after _ hhistory _ hafter
      exact .inVain hafter.sound hhistory hpending rfl rfl rfl (hlost _ (hgone hcurrent) rfl rfl)
  · refine ⟨hpending.unsettled, ?_, ?_⟩
    all_goals exact fun other => RepositoryError.ne_of_initial?_ne (by simp)

/-- What is known of a window that has been read holds on while the clamping is reported, or else
the window is another by then. -/
private theorem conducts_reportClamping (hearlier : Sound earlier)
    (hsince : Since id 5 earlier world) (hpending : History.Pending world.history id passes)
    (hwindow : (streamOf world key).window = some current) {α : Type} {post : α → World E → Prop}
    {next : Unit → Operation E α}
    (hnext : ∀ later, Since id 5 earlier later → world.history <+: later.history →
      History.Pending later.history id passes →
      (world = History.world world.history → later = History.world later.history) →
      Unchanged key current (streamOf world key).tail later →
      Conducts config id (.markDelivered key delivered) post (next ()) later) :
    Conducts config id (.markDelivered key delivered) post
      (reportClamping key current.value (streamOf world key).tail >>= next) world := by
  unfold reportClamping
  split
  · next hspeculative =>
    rw [Window.isSpeculative_iff] at hspeculative
    refine hsince.conducts_step hearlier (answer_report _) rfl (Nat.le_refl _) (Entry.stage_le _)
      (.report _) ?_
    intro reported hstate hhistory _ hreported
    have hextends : world.history <+: reported.history := ⟨_, hhistory.symm⟩
    have hpending := hpending.concat hhistory rfl (by simp [Entry.settling?]) rfl
    have hsame : streamOf reported key = streamOf world key :=
      streamOf_eq_of_silent ⟨rfl, rfl, rfl, rfl, rfl⟩ hstate hhistory
    refine hreported.conducts_reached hearlier (.reached (by simp)) ?_
    intro later _ hown hreplayed hlater hpassed
    refine hnext later hlater (hextends.trans hpassed.history)
      (hpending.step hown (by simp [Entry.settling?]) rfl) (fun _ => hreplayed) ?_
    intro window hwindow' hstamp
    have hfollows := hpassed.follows key
    rw [hsame] at hfollows
    exact hfollows.unchanged (hsince.sound key) hwindow hspeculative.1 hwindow' hstamp
  · refine hnext world hsince (List.prefix_refl _) hpending (fun h => h) ?_
    intro window hwindow' hstamp
    exact ⟨Option.some.inj (hwindow'.symm.trans hwindow), rfl⟩

private theorem conducts_advanceWatermark (hearlier : Sound earlier)
    (hsince : Since id 5 earlier world) (hreplayed : world = History.world world.history)
    (hpending : History.Pending world.history id (passes + 1))
    (hle : delivered ≤ (streamOf world key).tail) {before : History E} {first : Entry E}
    (hlost : History.LostPasses id key delivered passes before) (hfirst : first.id = id)
    (hbegins : first.beginsPass = true) (hbegun : before ++ [first] <+: world.history) :
    Conducts config id (.markDelivered key delivered) (PassEnds id (passes + 1) key delivered)
      (advanceWatermark key (streamOf world key).tail delivered) world := by
  cases hwindow : world.state.windows.get? key with
  | none =>
    have hanswer : world.state.answer (.windows (.get key)) = (none, world.state) := by
      rw [answer_getWindow, hwindow]
    refine hsince.conducts_step hearlier hanswer rfl (Nat.le_refl _) (Entry.stage_le _)
      (.readWindow _) ?_
    intro after _ hhistory _ hafter
    have hwatermark : (streamOf world key).tail ≤ History.watermark world.history key :=
      (hsince.sound key).tail_le_watermark hwindow
    have hextends : world.history <+: after.history := ⟨_, hhistory.symm⟩
    exact ⟨hafter.sound,
      Nat.le_trans (Nat.le_trans hle hwatermark) (History.watermark_mono hextends)⟩
  | some current =>
    have hanswer : world.state.answer (.windows (.get key)) = (some current, world.state) := by
      rw [answer_getWindow, hwindow]
    refine hsince.conducts_step hearlier hanswer rfl (Nat.le_refl _) (Entry.stage_le _)
      (.readWindow _) ?_
    intro read hstate hhistory hreplayed' hread
    have hpending := hpending.concat hhistory rfl (by simp [Entry.settling?]) rfl
    have hsame : streamOf read key = streamOf world key :=
      streamOf_eq_of_silent ⟨rfl, rfl, rfl, rfl, rfl⟩ hstate hhistory
    have hwindow' : (streamOf read key).window = some current := by
      rw [hsame]
      exact hwindow
    rw [← hsame] at hle ⊢
    change Conducts config id (.markDelivered key delivered) _
      (if current.value.last < (streamOf read key).tail then _ else _) _
    split
    · refine ⟨hpending.unsettled, ?_, ?_⟩
      all_goals exact fun other => RepositoryError.ne_of_initial?_ne (by simp)
    · refine conducts_reportClamping hearlier hread hpending hwindow' ?_
      intro later hlater hextends hpending hreplay hunchanged
      have hwatermark := (hread.sound key).delivered_le current hwindow'
      refine conducts_settleWindow hearlier hlater hpending hunchanged
        (Nat.le_trans hwatermark (History.watermark_mono hextends)) ?_
      intro attempt hgone hid hsettling
      rw [hreplayed] at hwindow
      rw [hreplay hreplayed'] at hgone
      rw [hhistory] at hextends
      exact .more hlost hfirst hbegins hbegun hwindow hextends hgone hid hsettling
        (List.prefix_refl _)

/-- The error of a delivery that has not taken effect, and that has not run out of passes. -/
private theorem isWarranted_refusal {error : RepositoryError}
    (hunsettled : History.Unsettled world.history id)
    (hduplicate : ∀ other, error ≠ .duplicateId other)
    (hliveLock : ∀ other, error ≠ .liveLock other) :
    IsWarranted config world ⟨id, .markDelivered key delivered, .returned (.error error)⟩ :=
  .fail hunsettled hduplicate fun other heq => absurd heq (hliveLock other)

private theorem conducts_recordDelivery (hsound : Sound world) {limit lost : Nat}
    (hlimit : config.liveLockLimit.value = lost + limit)
    (hpending : History.Pending world.history id lost)
    (hlost : History.LostPasses id key delivered lost world.history) {checkpoint : Checkpoint}
    (hcheckpoint : checkpoint = .markDeliveredStarted ∨ checkpoint = .markDeliveredConflicted) :
    Conducts config id (.markDelivered key delivered)
      (fun outcome later =>
        IsWarranted config later ⟨id, .markDelivered key delivered, .returned outcome⟩)
      (recordDelivery key delivered limit checkpoint) world := by
  -- Every pass that is in vain is counted, so there are as many of them as there may be in the end.
  induction limit generalizing world checkpoint lost with
  | zero =>
    refine .fail hpending.unsettled (fun other => RepositoryError.ne_of_initial?_ne (by simp))
      fun _ _ => ?_
    rw [hlimit]
    exact ⟨hpending.passes_eq, hlost⟩
  | succ limit ih =>
    have hsince : Since id 5 world world := .refl hsound fun entry _ _ => entry.stage_le
    have hended : checkpoint ≠ .markDeliveredEnded := by
      rcases hcheckpoint with rfl | rfl <;> simp
    refine hsince.conducts_reached hsound (.reached fun h => absurd h hended) ?_
    intro started hextends hown _ hstarted _
    have hpending : History.Pending started.history id (lost + 1) := by
      refine hpending.begin hown (by simp [Entry.settling?]) ?_
      rcases hcheckpoint with rfl | rfl <;> rfl
    refine hstarted.conducts_step hsound answer_getLog rfl (Nat.le_refl _) (Entry.stage_le _)
      (.readLog _) ?_
    intro read hstate hhistory hreplayed hread
    have hpending := hpending.concat hhistory rfl (by simp [Entry.settling?]) rfl
    have htail : (streamOf read key).tail =
        ((started.state.logs.get? key).map fun current => current.value.tail).getD 0 := by
      rw [← hstate]
      rfl
    dsimp only
    rw [← htail]
    split
    · exact isWarranted_refusal hpending.unsettled nofun nofun
    · next hle =>
      have hself : Since id 5 read read := .refl hread.sound fun entry _ _ => entry.stage_le
      have hbegun := hextends.trans (List.prefix_append started.history
        [⟨id, .markDelivered key delivered, .answered (.logs (.get key))
          (started.state.logs.get? key)⟩])
      rw [← hhistory] at hbegun
      refine (conducts_advanceWatermark hread.sound hself hreplayed hpending
        (Nat.le_of_not_lt hle) hlost rfl ?_ hbegun).bind ?_
      · rcases hcheckpoint with rfl | rfl <;> rfl
      intro result later hends
      match result with
      | .error error => exact isWarranted_refusal hends.1 hends.2.1 hends.2.2
      | .ok true =>
        have hlater : Since id 5 later later := .refl hends.1 fun entry _ _ => entry.stage_le
        refine hlater.conducts_reached hends.1 (.reached fun _ => hends.2) ?_
        intro ended _ _ _ _ _
        exact .succeed
      | .ok false =>
        exact ih hends.1 (by rw [hlimit]; lia) hends.2.1 hends.2.2 (.inr rfl)

end

/-- All that a delivery does is warranted. -/
theorem conducts_markDelivered (config : RepositoryConfig) (key : AggregateKey)
    (delivered : SequenceId) {world : World E} (hsound : Sound world)
    (hpending : History.Pending world.history id 0) :
    Conducts config id (.markDelivered key delivered)
      (fun outcome later =>
        IsWarranted config later ⟨id, .markDelivered key delivered, .returned outcome⟩)
      (markDelivered config key delivered) world := by
  unfold markDelivered
  split
  · exact .succeed
  · exact conducts_recordDelivery hsound (Nat.zero_add _).symm hpending (.none _) (.inl rfl)

end EventSourcing.Repository
