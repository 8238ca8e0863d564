import EventSourcing.Proofs.Repository.Laws

namespace EventSourcing.Repository

open Interleaving

variable {E : Type}

section

variable {config : RepositoryConfig} {id : Nat} {key : AggregateKey} {tail delivered : SequenceId}
  {earlier world : World E} {current : Snapshot Window}

private theorem keeps_settleWindow (hearlier : Sound earlier) (hsince : Since id 5 earlier world)
    (hunchanged : ∀ window, (streamOf world key).window = some window →
      window.stamp = current.stamp → window = current ∧ (streamOf world key).tail = tail)
    (hlast : tail ≤ current.value.last) (hle : delivered ≤ (streamOf world key).tail) :
    (calls config).Keeps laws id (.markDelivered key delivered)
      (fun _ later => Since id 5 earlier later)
      (settleWindow key current ((current.value.clamped tail).acknowledged delivered)) world := by
  unfold settleWindow
  split
  · exact hsince
  cases hcurrent : world.state.windows.isCurrent key current with
  | false =>
    split
    · exact hsince.keeps_same hearlier (answer_removeWindow_of_not hcurrent) rfl (fun _ => rfl)
        (fun _ => ⟨rfl, rfl, rfl, rfl, rfl⟩) (Nat.le_refl _) (Entry.stage_le _)
        fun _ _ _ hafter _ => hafter
    split
    · exact hsince.keeps_same hearlier (answer_swapWindow_of_not hcurrent _) rfl (fun _ => rfl)
        (fun _ => ⟨rfl, rfl, rfl, rfl, rfl⟩) (Nat.le_refl _) (Entry.stage_le _)
        fun _ _ _ hafter _ => hafter
    · exact hsince
  | true =>
    obtain ⟨window, hwindow, hstamp⟩ := SnapshotMap.isCurrent_iff.1 hcurrent
    obtain ⟨rfl, rfl⟩ := hunchanged window hwindow hstamp
    have hvalid := hsince.sound key
    split
    · next hdone =>
      exact hsince.keeps_change hearlier (answer_removeWindow hcurrent) rfl
        (Changes.removed hcurrent) (hvalid.removed hwindow hlast hle hdone)
        (.removed hvalid hwindow hle hdone) (Nat.le_refl _) (Entry.stage_le _)
        fun _ _ hafter _ => hafter
    split
    · exact hsince.keeps_change hearlier (answer_swapWindow hcurrent _) rfl
        (Changes.advanced hcurrent _) (hvalid.advanced hwindow hlast hle) (.advanced hwindow)
        (Nat.le_refl _) (Entry.stage_le _) fun _ _ hafter _ => hafter
    · exact hsince

/-- While a window that reaches past the log is about to be cut back, others may put another in its
place, but as long as it stays the same, so does the end of the log. -/
private theorem keeps_reportClamping (hearlier : Sound earlier) (hsince : Since id 5 earlier world)
    (hwindow : (streamOf world key).window = some current) {α : Type} {post : α → World E → Prop}
    {next : Unit → Operation E α}
    (hnext : ∀ later, Since id 5 earlier later → Follows world later →
      (∀ window, (streamOf later key).window = some window → window.stamp = current.stamp →
        window = current ∧ (streamOf later key).tail = (streamOf world key).tail) →
      (calls config).Keeps laws id (.markDelivered key delivered) post (next ()) later) :
    (calls config).Keeps laws id (.markDelivered key delivered) post
      (reportClamping key current.value (streamOf world key).tail >>= next) world := by
  unfold reportClamping
  split
  · next hspeculative =>
    rw [Window.isSpeculative_iff] at hspeculative
    refine hsince.keeps_same hearlier (answer_report _) rfl (fun _ => rfl)
      (fun _ => ⟨rfl, rfl, rfl, rfl, rfl⟩) (Nat.le_refl _) (Entry.stage_le _) ?_
    intro reported _ _ hreported hsame
    refine hreported.keeps_reached hearlier (by simp) ?_
    intro later hlater hpassed
    have hfollows : Follows world later := fun other => hsame other ▸ hpassed.follows other
    refine hnext later hlater hfollows ?_
    intro window hwindow' hstamp
    exact (hfollows key).unchanged (hsince.sound key) hwindow hspeculative.1 hwindow' hstamp
  · refine hnext world hsince (laws.refl hsince.sound) ?_
    intro window hwindow' hstamp
    exact ⟨Option.some.inj (hwindow'.symm.trans hwindow), rfl⟩

private theorem keeps_advanceWatermark (hearlier : Sound earlier)
    (hsince : Since id 5 earlier world) (hle : delivered ≤ (streamOf world key).tail) :
    (calls config).Keeps laws id (.markDelivered key delivered)
      (fun _ later => Since id 5 earlier later)
      (advanceWatermark key (streamOf world key).tail delivered) world := by
  cases hwindow : world.state.windows.get? key with
  | none =>
    have hanswer : world.state.answer (.windows (.get key)) = (none, world.state) := by
      rw [answer_getWindow, hwindow]
    exact hsince.keeps_same hearlier hanswer rfl (fun _ => rfl)
      (fun _ => ⟨rfl, rfl, rfl, rfl, rfl⟩) (Nat.le_refl _) (Entry.stage_le _)
      fun _ _ _ hread _ => hread
  | some current =>
    have hanswer : world.state.answer (.windows (.get key)) = (some current, world.state) := by
      rw [answer_getWindow, hwindow]
    refine hsince.keeps_same hearlier hanswer rfl (fun _ => rfl)
      (fun _ => ⟨rfl, rfl, rfl, rfl, rfl⟩) (Nat.le_refl _) (Entry.stage_le _) ?_
    intro read _ _ hread hsame
    rw [← hsame key] at hle ⊢
    have hwindow' : (streamOf read key).window = some current := by
      rw [hsame key]
      exact hwindow
    change (calls config).Keeps laws id (.markDelivered key delivered) _
      (if current.value.last < (streamOf read key).tail then _ else _) _
    split
    · exact hread
    · next hlast =>
      refine keeps_reportClamping hearlier hread hwindow' ?_
      intro later hlater hfollows hunchanged
      exact keeps_settleWindow hearlier hlater hunchanged (Nat.le_of_not_lt hlast)
        (Nat.le_trans hle (hfollows key).tail_le)

/-- A delivery that comes to its end counts from then on. -/
private theorem keeps_ended (hsound : Sound world) (hle : delivered ≤ (streamOf world key).tail) :
    (calls config).Keeps laws id (.markDelivered key delivered) (fun _ later => Sound later)
      (reached .markDeliveredEnded key >>= fun _ => .done (Except.ok () : Result Unit)) world := by
  have hchanges : Changes world ⟨world.state, world.history ++ [⟨id, .markDelivered key delivered,
      .answered (.reached .markDeliveredEnded key) ()⟩]⟩ key
        ((streamOf world key).acknowledged delivered) := Changes.acknowledged
  have hparked : (calls (E := E) config).isCheckpoint (.reached .markDeliveredEnded key) = true :=
    rfl
  refine ⟨hchanges.sound hsound ((hsound key).acknowledged hle),
    hchanges.follows (.acknowledged _ _), ?_⟩
  rw [if_pos hparked]
  intro later hrely
  exact hrely.inv

private theorem keeps_recordDelivery (hsound : Sound world) (passes : Nat)
    (checkpoint : Checkpoint) (hcheckpoint : checkpoint ≠ .markDeliveredEnded) :
    (calls config).Keeps laws id (.markDelivered key delivered) (fun _ later => Sound later)
      (recordDelivery key delivered passes checkpoint) world := by
  -- Nothing is carried from one pass to the next but that the laws hold.
  induction passes generalizing world checkpoint with
  | zero => exact hsound
  | succ passes ih =>
    have hsince : Since id 5 world world := .refl hsound fun entry _ _ => entry.stage_le
    refine hsince.keeps_reached hsound hcheckpoint ?_
    intro started hstarted _
    refine hstarted.keeps_same hsound answer_getLog rfl (fun _ => rfl)
      (fun _ => ⟨rfl, rfl, rfl, rfl, rfl⟩) (Nat.le_refl _) (Entry.stage_le _) ?_
    intro read _ _ hread hsame
    have htail : (streamOf read key).tail =
        ((started.state.logs.get? key).map fun current => current.value.tail).getD 0 := by
      rw [hsame key]
      rfl
    dsimp only
    rw [← htail]
    split
    · exact hread.sound
    · next hle =>
      have hself : Since id 5 read read := .refl hread.sound fun entry _ _ => entry.stage_le
      refine (keeps_advanceWatermark hread.sound hself (Nat.le_of_not_lt hle)).bind ?_
      intro result later hlater
      match result with
      | .error error => exact hlater.sound
      | .ok true =>
        have htail := (hlater.follows key).tail_le
        exact keeps_ended hlater.sound (Nat.le_trans (Nat.le_of_not_lt hle) htail)
      | .ok false => exact ih hlater.sound .markDeliveredConflicted (by simp)

end

/-- Recording a delivery keeps the laws, however far it comes. -/
theorem keeps_markDelivered (config : RepositoryConfig) (id : Nat) (key : AggregateKey)
    (delivered : SequenceId) {world : World E} (hsound : Sound world) :
    (calls config).Keeps laws id (.markDelivered key delivered) (fun _ later => Sound later)
      (markDelivered config key delivered) world := by
  unfold markDelivered
  split
  · exact hsound
  · exact keeps_recordDelivery hsound _ _ (by simp)

end EventSourcing.Repository
