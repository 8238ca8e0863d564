import EventSourcing.Proofs.Repository.Conducted

namespace EventSourcing.Repository

open Interleaving

variable {E : Type} {config : RepositoryConfig} {id : Nat} {key : AggregateKey}
  {delivered : SequenceId}

/-- What a delivery up to `delivered` makes of the window that it finds. The watermark moves
forward, the end stays where it is unless the window is speculative, which is then cut back to the
end of the log, and a window that has nothing left to deliver goes away. Nothing else changes. -/
structure Settles (key : AggregateKey) (delivered : SequenceId) (before after : World E) :
    Prop where
  logs : after.state.logs = before.state.logs
  indexes : after.state.indexes = before.state.indexes
  others : ∀ other, other ≠ key →
    after.state.windows.get? other = before.state.windows.get? other
  window : ∃ current last, before.state.windows.get? key = some current ∧
    (current.value.isSpeculative (streamOf before key).tail = true ∧
        last = (streamOf before key).tail ∨
      current.value.isSpeculative (streamOf before key).tail = false ∧
        last = current.value.last) ∧
    (max current.value.delivered delivered = last ∧ after.state.windows.get? key = none ∨
      max current.value.delivered delivered < last ∧ ∃ stamp, after.state.windows.get? key =
        some ⟨stamp, max current.value.delivered delivered, current.value.first, last⟩)

/-- An entry made behind `before` has changed the repository. -/
def TakesEffect (before : History E) (entry : Entry E) : Prop :=
  (History.world (before ++ [entry])).state ≠ (History.world before).state

/-- The end of a window when it is settled. -/
private theorem last_settled_cases (s : Stream E) (window : Window) (delivered : SequenceId) :
    window.isSpeculative s.tail = true ∧ (s.settled window delivered).last = s.tail ∨
      window.isSpeculative s.tail = false ∧ (s.settled window delivered).last = window.last := by
  unfold Stream.settled Window.clamped
  split
  · next hspeculative => exact .inl ⟨hspeculative, rfl⟩
  · next hspeculative => exact .inr ⟨by simpa using hspeculative, rfl⟩

private theorem settled_eq (s : Stream E) (window : Window) (delivered : SequenceId) :
    s.settled window delivered =
      ⟨max window.delivered delivered, window.first, (s.settled window delivered).last⟩ := by
  simp only [Stream.settled, Window.acknowledged, Window.first_clamped, Window.delivered_clamped]

section Effect

variable {before : History E} {current : Snapshot Window}

private theorem settles_of_advance {new : Window}
    (hcurrent : (History.world before).state.windows.get? key = some current)
    (hnew : new = (streamOf (History.world before) key).settled current.value delivered)
    (hlt : new.delivered < new.last) :
    Settles key delivered (History.world before) (History.world (before ++
      [⟨id, .markDelivered key delivered,
        .answered (.windows (.compareAndSwap key current new)) true⟩])) := by
  have hswap := SnapshotMap.isCurrent_iff.2 ⟨current, hcurrent, rfl⟩
  rw [History.world_answered, answer_swapWindow hswap]
  rw [hnew, settled_eq] at hlt
  refine ⟨rfl, rfl, fun other hne => ?_, current, _, hcurrent,
    last_settled_cases _ _ delivered,
    .inr ⟨hlt, (History.world before).state.windows.nextStamp, ?_⟩⟩
  · simp [SnapshotMap.get?_compareAndSwap hswap, hne]
  · rw [← settled_eq, ← hnew]
    simp [SnapshotMap.get?_compareAndSwap hswap]

private theorem settles_of_remove
    (hcurrent : (History.world before).state.windows.get? key = some current)
    (hdone : ((streamOf (History.world before) key).settled current.value delivered).delivered =
      ((streamOf (History.world before) key).settled current.value delivered).last) :
    Settles key delivered (History.world before) (History.world (before ++
      [⟨id, .markDelivered key delivered,
        .answered (.windows (.compareAndRemove key current)) true⟩])) := by
  have hremove := SnapshotMap.isCurrent_iff.2 ⟨current, hcurrent, rfl⟩
  rw [History.world_answered, answer_removeWindow hremove]
  rw [settled_eq] at hdone
  refine ⟨rfl, rfl, fun other hne => ?_, current, _, hcurrent,
    last_settled_cases _ _ delivered, .inl ⟨hdone, ?_⟩⟩
  · simp [SnapshotMap.get?_compareAndRemove hremove, hne]
  · simp [SnapshotMap.get?_compareAndRemove hremove]

/-- A step of a delivery that changes anything settles the window, and no step has done so before.
-/
private theorem DeliveryStep.effect {action : (Call.markDelivered (E := E) key delivered).Action}
    (hstep : DeliveryStep config id key delivered (History.world before) action)
    (hfaithful : (calls config).IsFaithful (History.world before)
      ⟨id, .markDelivered key delivered, action⟩)
    (heffect : TakesEffect before ⟨id, .markDelivered key delivered, action⟩) :
    History.Unsettled before id ∧
      (∃ current, Entry.settling? (E := E) ⟨id, .markDelivered key delivered, action⟩ =
        some (current, true)) ∧
      Settles key delivered (History.world before)
        (History.world (before ++ [⟨id, .markDelivered key delivered, action⟩])) := by
  rcases hstep.quiet_or_settles hfaithful with
    ⟨hstate, -⟩ | ⟨current, hwindow, hunsettled, new, hnew, ⟨hlt, rfl⟩ | ⟨hdone, rfl⟩⟩
  · exact absurd hstate heffect
  · exact ⟨hunsettled, ⟨current, rfl⟩, settles_of_advance hwindow hnew hlt⟩
  · subst hnew
    exact ⟨hunsettled, ⟨current, rfl⟩, settles_of_remove hwindow hdone⟩

end Effect

section Run

variable {moment : Moment E} (hreach : Reachable config moment)

include hreach

/-- A call that has returned does nothing after that. -/
private theorem own_of_returned {before after : History E} {call : Call E} {outcome : call.Outcome}
    (hsplit : moment.world.history = before ++ ⟨id, call, .returned outcome⟩ :: after) :
    History.own moment.world.history id =
      History.own before id ++ [⟨id, call, .returned outcome⟩] := by
  have hafter := ((System.Reaches.numbered hreach).returned _ _ _ _ _ hsplit).1
  rw [hsplit, List.append_cons, History.own_append_of_ne hafter]
  exact History.own_concat rfl

variable (hcalled : ⟨id, .markDelivered key delivered, .called⟩ ∈ moment.world.history)

include hcalled

private theorem effect_of_split {before after : History E} {entry : Entry E}
    (hsplit : moment.world.history = before ++ entry :: after) (hid : entry.id = id)
    (heffect : TakesEffect before entry) : History.Unsettled before id ∧
      (∃ current, entry.settling? = some (current, true)) ∧
        Settles key delivered (History.world before) (History.world (before ++ [entry])) := by
  have hmem : entry ∈ moment.world.history := by
    rw [hsplit]
    exact List.mem_append_right _ List.mem_cons_self
  have hcall := System.Reaches.call_eq hreach hmem hcalled hid
  have hwarranted := hreach.warranted hsplit
  have hfaithful := hreach.faithful hsplit
  obtain ⟨number, call, action⟩ := entry
  obtain rfl : number = id := hid
  obtain rfl : call = .markDelivered key delivered := hcall
  exact hwarranted.effect hfaithful heffect

/-- What has taken effect once does not take effect again. -/
private theorem not_effect_later {before between after : History E} {entry other : Entry E}
    (hsplit : moment.world.history = before ++ entry :: (between ++ other :: after))
    (hid : entry.id = id) (heffect : TakesEffect before entry) (hother : other.id = id) :
    ¬ TakesEffect (before ++ entry :: between) other := by
  intro hlater
  obtain ⟨-, ⟨current, hsettling⟩, -⟩ := effect_of_split hreach hcalled hsplit hid heffect
  have hsplit' : moment.world.history = (before ++ entry :: between) ++ other :: after := by
    rw [hsplit, List.append_assoc, List.cons_append]
  obtain ⟨hunsettled, -⟩ := effect_of_split hreach hcalled hsplit' hother hlater
  refine hunsettled entry (History.mem_own.2 ⟨?_, hid⟩) current hsettling
  exact List.mem_append_right _ List.mem_cons_self

/-- No delivery loses what others have done to a window. At every moment of every run the steps of a
delivery have changed nothing but the window of its aggregate, once at most; and what they put in
its place was made from the window as it was at that instant. A delivery that returns an error has
changed nothing. It reports a live lock only if it has used up all its passes, and each time the
window that it had read was replaced or removed by others before it could settle it. -/
theorem delivery_settles_once : moment.world = History.world moment.world.history ∧
    (∀ before entry after, moment.world.history = before ++ entry :: after → entry.id = id →
      TakesEffect before entry →
        Settles key delivered (History.world before) (History.world (before ++ [entry])) ∧
          ∀ before' entry' after', moment.world.history = before' ++ entry' :: after' →
            entry'.id = id → TakesEffect before' entry' → before' = before) ∧
    ∀ error, ⟨id, .markDelivered key delivered, .returned (.error error)⟩ ∈ moment.world.history →
      (∀ before entry after, moment.world.history = before ++ entry :: after → entry.id = id →
        ¬ TakesEffect before entry) ∧
      ∀ other, error = .liveLock other →
        History.passes moment.world.history id = config.liveLockLimit.value ∧
          History.LostPasses id key delivered config.liveLockLimit.value moment.world.history := by
  refine ⟨hreach.replayed, ?_, ?_⟩
  · intro before entry after hsplit hid heffect
    refine ⟨(effect_of_split hreach hcalled hsplit hid heffect).2.2, ?_⟩
    intro before' entry' after' hsplit' hid' heffect'
    rcases append_cons_eq_append_cons (hsplit.symm.trans hsplit') with
      ⟨rfl, -⟩ | ⟨between, rfl, rfl⟩ | ⟨between, rfl, rfl⟩
    · rfl
    · exact absurd heffect' (not_effect_later hreach hcalled hsplit hid heffect hid')
    · exact absurd heffect (not_effect_later hreach hcalled hsplit' hid' heffect' hid)
  · intro error hreturned
    obtain ⟨early, late, hreturn⟩ := List.append_of_mem hreturned
    have hown := own_of_returned hreach hreturn
    have hstep : DeliveryStep config id key delivered (History.world early)
        (.returned (.error error)) := hreach.warranted hreturn
    cases hstep with
    | fail hunsettled _ hliveLock =>
      refine ⟨fun before entry after hsplit hid heffect => ?_, fun other heq => ?_⟩
      · obtain ⟨-, ⟨current, hsettling⟩, -⟩ := effect_of_split hreach hcalled hsplit hid heffect
        have hmem : entry ∈ History.own moment.world.history id := by
          refine History.mem_own.2 ⟨?_, hid⟩
          rw [hsplit]
          exact List.mem_append_right _ List.mem_cons_self
        rw [hown] at hmem
        rcases List.mem_append.1 hmem with h | h
        · exact hunsettled entry h current hsettling
        · rw [List.mem_singleton.1 h] at hsettling
          cases hsettling
      · obtain ⟨hpasses, hlost⟩ := hliveLock other heq
        refine ⟨?_, hlost.mono ⟨_, hreturn.symm⟩⟩
        rw [← hpasses, History.passes, hown, List.countP_append]
        rfl

end Run

/-- Every loop has one pass only. -/
def onePass : RepositoryConfig where
  liveLockLimit := ⟨1, Nat.le_refl 1, by decide⟩

/-- A window reaches past the log. One delivery has read it and is parked, because it is about to
cut it back, while another one does so; then the first goes on. -/
def outpaced : List (Move (Call Unit)) :=
  lostRace ++ .call (.markDelivered sampleKey 1) :: .replicate 5 .proceed ++
    .call (.markDelivered sampleKey 1) :: .replicate 8 .proceed ++ .replicate 2 .proceed

/-- The first delivery has changed nothing when it reports a live lock, and its only pass was lost
to the other one. -/
theorem delivery_settles_once_of_outpaced : ∃ moment : Moment Unit,
    (calls onePass).run? (.start .empty) outpaced = some moment ∧ moment.frames = [] ∧
      ⟨2, .markDelivered sampleKey 1, .returned (.error (.liveLock sampleKey))⟩ ∈
        moment.world.history ∧
      History.LostPasses 2 sampleKey 1 1 moment.world.history := by
  have hrun : (calls onePass).run? (.start .empty) outpaced = some _ := rfl
  have hsettles := delivery_settles_once ⟨outpaced, hrun⟩ (List.mem_of_getElem? (i := 21) rfl)
  refine ⟨_, hrun, rfl, List.mem_of_getElem? (i := 37) rfl, ?_⟩
  obtain ⟨-, -, hrefused⟩ := hsettles
  exact ((hrefused (.liveLock sampleKey) (List.mem_of_getElem? (i := 37) rfl)).2 sampleKey rfl).2

end EventSourcing.Repository
