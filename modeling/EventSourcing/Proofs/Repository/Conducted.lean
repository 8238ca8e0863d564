import EventSourcing.Proofs.Repository.AppendConduct
import EventSourcing.Proofs.Repository.DeliveryConduct
import EventSourcing.Proofs.Repository.Reachable
import EventSourcing.Proofs.Repository.Sequential

namespace EventSourcing.Repository

open Interleaving

variable {E : Type} {config : RepositoryConfig}

/-- The calls that only read, each with the program that does so. -/
def Call.Lists : Call E → Prop
  | .append _ _ | .markDelivered _ _ => False
  | .listEvents _ _ _ | .listUndelivered _ | .listIds _ _ _ => True

theorem isWarranted_of_lists {world : World E} {entry : Entry E} (hlists : entry.call.Lists)
    (hstep : ListingStep world entry) : IsWarranted config world entry := by
  obtain ⟨id, call, action⟩ := entry
  cases call with
  | append key batch => exact hlists.elim
  | markDelivered key delivered => exact hlists.elim
  | listEvents | listUndelivered | listIds => exact hstep

/-- A call that has not returned has not failed. -/
theorem ListingStep.of_answered {world : World E} {id : Nat} {call : Call E} {request : Request E}
    {reply : request.Reply} (hstate : (world.state.answer request).2 = world.state) :
    ListingStep world ⟨id, call, .answered request reply⟩ where
  unchanged := by
    rintro _ _ ⟨⟩
    exact hstate
  fault := fun other => by cases call <;> simp [Entry.fault?]

theorem ListingStep.of_called {world : World E} {id : Nat} {call : Call E} :
    ListingStep world ⟨id, call, .called⟩ where
  unchanged := by rintro _ _ ⟨⟩
  fault := fun other => by cases call <;> simp [Entry.fault?]

theorem ListingStep.of_returned {world : World E} {id : Nat} {call : Call E}
    {outcome : call.Outcome}
    (hfault : ∀ other, Entry.fault? (E := E) ⟨id, call, .returned outcome⟩ ≠
      some (.duplicateId other)) : ListingStep world ⟨id, call, .returned outcome⟩ where
  unchanged := by rintro _ _ ⟨⟩
  fault := hfault

/-- Whatever only reads is warranted in a listing. -/
theorem OnlyReads.conducts {α : Type} {program : Operation E α} (hreads : OnlyReads program)
    {id : Nat} {call : Call E} (hlists : call.Lists) {world : World E} (hsound : Sound world) :
    Conducts config id call (fun value _ => value = (runAlone program world.state).1) program
      world := by
  induction program generalizing world with
  | done value => rfl
  | ask request next ih =>
    obtain ⟨⟨hcheckpoint, hstate⟩, hnext⟩ := hreads
    have hsince : Since id 5 world world := .refl hsound fun entry _ _ => entry.stage_le
    have hanswer : world.state.answer request = ((world.state.answer request).1, world.state) :=
      Prod.ext rfl (hstate world.state)
    refine hsince.conducts_step hsound hanswer hcheckpoint (Nat.le_refl _) (Entry.stage_le _)
      (isWarranted_of_lists hlists (.of_answered (hstate world.state))) ?_
    intro after hafterState _ _ hafter
    refine (ih _ (hnext _) hafter.sound).mono ?_
    rintro value later rfl
    have hrun : runAlone (.ask request next) world.state =
        runAlone (next (world.state.answer request).1) (world.state.answer request).2 := rfl
    rw [hrun, hstate, hafterState]

theorem conducts_listEvents (id : Nat) (key : AggregateKey) (after : SequenceId)
    (max : Option Nat) {world : World E} (hsound : Sound world) :
    Conducts config id (.listEvents key after max)
      (fun outcome later =>
        IsWarranted config later ⟨id, .listEvents key after max, .returned outcome⟩)
      (listEvents key after max) world := by
  have hlists : (Call.listEvents (E := E) key after max).Lists := trivial
  refine ((onlyReads_listEvents key after max).conducts hlists hsound).mono ?_
  rintro outcome later rfl
  rw [runAlone_listEvents_limit]
  exact ListingStep.of_returned nofun

theorem conducts_listUndelivered (id : Nat) (max : Option Nat) {world : World E}
    (hsound : Sound world) :
    Conducts config id (.listUndelivered max)
      (fun outcome later => IsWarranted config later ⟨id, .listUndelivered max, .returned outcome⟩)
      (listUndelivered max) world := by
  have hlists : (Call.listUndelivered (E := E) max).Lists := trivial
  refine ((onlyReads_listUndelivered max).conducts hlists hsound).mono ?_
  rintro outcome later rfl
  by_cases hmax : max = some 0
  · rw [hmax]
    exact ListingStep.of_returned fun other heq => nomatch Option.some.inj heq
  · rw [runAlone_listUndelivered_limit _ hmax]
    exact ListingStep.of_returned nofun

theorem conducts_listIds (id : Nat) (type : AggregateType) (after : Option AggregateId)
    (max : Option Nat) {world : World E} (hsound : Sound world) :
    Conducts config id (.listIds type after max)
      (fun outcome later =>
        IsWarranted config later ⟨id, .listIds type after max, .returned outcome⟩)
      (listIds type after max) world := by
  have hlists : (Call.listIds (E := E) type after max).Lists := trivial
  refine ((onlyReads_listIds type after max).conducts hlists hsound).mono ?_
  rintro outcome later rfl
  rw [runAlone_listIds]
  exact ListingStep.of_returned nofun

/-- Every call keeps the laws, and all that it does is warranted. -/
theorem upholds_rules (config : RepositoryConfig) :
    (calls (E := E) config).Upholds (rules config) := by
  refine (upholds config).warranting ?_ ?_
  · intro world id call hfresh
    cases call with
    | append key batch =>
      refine ⟨.called, .inr (.inl fun entry hentry => ?_)⟩
      obtain ⟨hmem, hid⟩ := History.mem_own.1 hentry
      exact absurd hid (hfresh entry hmem)
    | markDelivered key delivered => exact .called
    | listEvents | listUndelivered | listIds => exact ListingStep.of_called
  · intro world id call hfresh hbegun
    cases call with
    | append key batch =>
      exact conducts_append config key batch hbegun.1 (History.unread_of_called hfresh)
        (.of_called hfresh)
    | markDelivered key delivered =>
      exact conducts_markDelivered config key delivered hbegun.1 (.of_called hfresh)
    | listEvents key after max => exact conducts_listEvents id key after max hbegun.1
    | listUndelivered max => exact conducts_listUndelivered id max hbegun.1
    | listIds type after max => exact conducts_listIds id type after max hbegun.1

namespace History

@[simp]
theorem world_history (history : History E) : (world history).history = history :=
  rfl

theorem state_world_concat (before : History E) (entry : Entry E) :
    (world (before ++ [entry])).state =
      (calls .standard).replayEntry (world before).state entry := by
  rw [world, System.worldAfter_concat]
  rfl

theorem world_answered (before : History E) (id : Nat) (call : Call E) (request : Request E)
    (reply : request.Reply) :
    world (before ++ [⟨id, call, .answered request reply⟩]) =
      ⟨((world before).state.answer request).2,
        before ++ [⟨id, call, .answered request reply⟩]⟩ :=
  System.worldAfter_concat _

end History

theorem ListingStep.state_eq {before : History E} {entry : Entry E}
    (hstep : ListingStep (History.world before) entry) :
    (History.world (before ++ [entry])).state = (History.world before).state := by
  rw [History.state_world_concat]
  obtain ⟨id, call, action⟩ := entry
  cases action with
  | called => rfl
  | answered request reply => exact hstep.unchanged request reply rfl
  | returned outcome => rfl

/-- What the steps of a delivery come to. Almost all of them leave the repository as it is, and tell
of no event that it is acknowledged if it was not; but one may advance the current window or remove
it. -/
theorem DeliveryStep.quiet_or_settles {before : History E} {id : Nat} {key : AggregateKey}
    {delivered : SequenceId} {action : (Call.markDelivered (E := E) key delivered).Action}
    (hstep : DeliveryStep config id key delivered (History.world before) action)
    (hfaithful : (calls config).IsFaithful (History.world before)
      ⟨id, .markDelivered key delivered, action⟩) :
    ((History.world (before ++ [⟨id, .markDelivered key delivered, action⟩])).state =
        (History.world before).state ∧
      ∀ other, Entry.acknowledged other ⟨id, .markDelivered key delivered, action⟩ ≤
        History.watermark before other) ∨
    ∃ current, (History.world before).state.windows.get? key = some current ∧
      History.Unsettled before id ∧ ∃ new,
        new = (streamOf (History.world before) key).settled current.value delivered ∧
        (new.delivered < new.last ∧
            action = .answered (.windows (.compareAndSwap key current new)) true ∨
          new.delivered = new.last ∧
            action = .answered (.windows (.compareAndRemove key current)) true) := by
  cases hstep with
  | called | readLog | readWindow | report | succeed | fail =>
    refine .inl ⟨?_, fun _ => Nat.zero_le _⟩
    rw [History.state_world_concat]
    rfl
  | @reached checkpoint hended =>
    refine .inl ⟨?_, fun other => ?_⟩
    · rw [History.state_world_concat]
      rfl
    · cases checkpoint with
      | markDeliveredEnded =>
        by_cases hother : key = other
        · subst hother
          simpa [Entry.acknowledged] using hended rfl
        · simp [Entry.acknowledged, hother]
      | _ => exact Nat.zero_le _
  | @advance current new reply hunsettled hsettled =>
    cases hcurrent : (History.world before).state.windows.isCurrent key current with
    | false =>
      obtain rfl : reply = false :=
        (hfaithful _ _ rfl).trans (congrArg Prod.fst (answer_swapWindow_of_not hcurrent new))
      refine .inl ⟨?_, fun _ => Nat.zero_le _⟩
      rw [History.world_answered, answer_swapWindow_of_not hcurrent]
    | true =>
      obtain rfl : reply = true :=
        (hfaithful _ _ rfl).trans (congrArg Prod.fst (answer_swapWindow hcurrent new))
      obtain ⟨hwindow, hnew, hlt⟩ := hsettled hcurrent
      exact .inr ⟨current, hwindow, hunsettled, new, hnew, .inl ⟨hlt, rfl⟩⟩
  | @remove current reply hunsettled hsettled =>
    cases hcurrent : (History.world before).state.windows.isCurrent key current with
    | false =>
      obtain rfl : reply = false :=
        (hfaithful _ _ rfl).trans (congrArg Prod.fst (answer_removeWindow_of_not hcurrent))
      refine .inl ⟨?_, fun _ => Nat.zero_le _⟩
      rw [History.world_answered, answer_removeWindow_of_not hcurrent]
    | true =>
      obtain rfl : reply = true :=
        (hfaithful _ _ rfl).trans (congrArg Prod.fst (answer_removeWindow hcurrent))
      obtain ⟨hwindow, hdone⟩ := hsettled hcurrent
      exact .inr ⟨current, hwindow, hunsettled, _, rfl, .inr ⟨hdone, rfl⟩⟩

namespace Reachable

variable {moment : Moment E} {before after : History E} {entry : Entry E}

private theorem ruled (hreach : Reachable config moment) : (rules config).Inv moment.world :=
  (upholds_rules config).inv ⟨sound_start, rfl, by simp⟩ hreach

/-- A history tells the world that it leads to. -/
theorem replayed (hreach : Reachable config moment) :
    moment.world = History.world moment.world.history :=
  hreach.ruled.2.1

section Split

variable (hreach : Reachable config moment)
  (hsplit : moment.world.history = before ++ entry :: after)

include hreach hsplit

/-- The laws hold all along. -/
theorem sound_before : Sound (History.world before) :=
  (hreach.ruled.2.2 before entry after hsplit).1

/-- A reply is what the state as it was gives to the request. -/
theorem faithful : (calls config).IsFaithful (History.world before) entry :=
  (hreach.ruled.2.2 before entry after hsplit).2.1

/-- Every entry was warranted when it was made. -/
theorem warranted : IsWarranted config (History.world before) entry :=
  (hreach.ruled.2.2 before entry after hsplit).2.2

end Split

/-- What holds in the beginning and is kept by every entry holds at every moment. -/
theorem history_induct (hreach : Reachable config moment) {P : World E → Prop}
    (hstart : P (History.world [])) (hentry : ∀ before entry after,
      moment.world.history = before ++ entry :: after → P (History.world before) →
      P (History.world (before ++ [entry]))) : P moment.world := by
  rw [hreach.replayed]
  exact System.worldAfter_induct hstart hentry

end Reachable

end EventSourcing.Repository
