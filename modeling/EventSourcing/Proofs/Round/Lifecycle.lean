import EventSourcing.Proofs.Round.Rules

namespace EventSourcing.Round

/-- The events that a command leads to. A command that is refused leads to none, and neither does
one that makes the processor fail. -/
def newEvents (state : State) (command : Command) : List Event :=
  match process command state with
  | .ok (.success events) => events
  | .ok (.failure _) | .error _ => []

/-- The state after a command. -/
def State.step (state : State) (command : Command) : State :=
  (newEvents state command).foldl State.apply state

/-- All events that some commands lead to, processed one after the other. -/
def history (state : State) : List Command → List Event
  | [] => []
  | command :: rest => newEvents state command ++ history (state.step command) rest

/-- The state of a new round after some commands. -/
def after (commands : List Command) : State :=
  commands.foldl State.step .initial

variable {state : State}

theorem foldl_history (commands : List Command) (state : State) :
    (history state commands).foldl State.apply state = commands.foldl State.step state := by
  induction commands generalizing state with
  | nil => rfl
  | cons command rest ih =>
    rw [history, List.foldl_append, List.foldl_cons]
    exact ih (state.step command)

/-- A command changes nothing, or it leads to the one event that the state allows. -/
theorem step_cases (state : State) (command : Command) :
    state.step command = state ∨
      ∃ event, Allows state command.action event ∧ state.step command = state.apply event := by
  unfold State.step newEvents
  split
  · next events haccepted =>
    obtain ⟨event, rfl, hallows⟩ := (process_eq_success_iff command state events).1 haccepted
    exact .inr ⟨event, hallows, rfl⟩
  · exact .inl rfl
  · exact .inl rfl

/-- What is true of a round at any time. -/
structure State.Valid (state : State) : Prop where
  nodup : (state.inputs.map (·.id)).Nodup
  minInputSats_le : ∀ input ∈ state.inputs, state.minInputSats ≤ input.sats
  new : state.status = .new → state.inputs = [] ∧ state.minInputSats = 0
  inputs_ne_nil : state.status = .signing ∨ state.status = .succeeded → state.inputs ≠ []
  txId_iff : state.txId.isSome = true ↔ state.status = .succeeded
  failureReason_iff : state.failureReason.isSome = true ↔ state.status = .failed

theorem valid_initial : State.initial.Valid := by
  constructor <;> simp [State.initial]

theorem Allows.valid {action : Action} {event : Event} (hallows : Allows state action event)
    (hvalid : state.Valid) : (state.apply event).Valid := by
  obtain ⟨hnodup, hmin, hnew, hinputs, htxId, hreason⟩ := hvalid
  cases hallows with
  | start hstatus =>
    obtain ⟨hnone, -⟩ := hnew hstatus
    constructor <;> simp_all [State.apply]
  | @register inputId sats hstatus hlarge hfresh =>
    refine ⟨?_, ?_, ?_, ?_, htxId, hreason⟩
    · simp only [State.apply, List.map_append, List.map_cons, List.map_nil]
      refine List.nodup_append.2 ⟨hnodup, List.pairwise_singleton _ _, ?_⟩
      intro id hid newId hnewId
      obtain ⟨input, hmem, rfl⟩ := List.mem_map.1 hid
      obtain rfl := List.mem_singleton.1 hnewId
      exact hfresh input hmem
    · intro input hmem
      rcases List.mem_append.1 hmem with hmem | hmem
      · exact hmin input hmem
      · obtain rfl := List.mem_singleton.1 hmem
        exact hlarge
    · simp [State.apply, hstatus]
    · simp [State.apply]
  | @unregister inputId hstatus hinput =>
    have hsublist := List.filter_sublist (l := state.inputs) (p := fun input => input.id ≠ inputId)
    refine ⟨(hsublist.map _).nodup hnodup, ?_, ?_, ?_, htxId, hreason⟩
    · exact fun input hmem => hmin input (hsublist.subset hmem)
    · simp [State.apply, hstatus]
    · simp [State.apply, hstatus]
  | sign hstatus hne => constructor <;> simp_all [State.apply]
  | succeed hstatus => constructor <;> simp_all [State.apply]
  | fail hsucceeded hfailed => constructor <;> simp_all [State.apply]

theorem State.Valid.step (hvalid : state.Valid) (command : Command) :
    (state.step command).Valid := by
  obtain hsame | ⟨event, hallows, hstep⟩ := step_cases state command
  · rwa [hsame]
  · rw [hstep]
    exact hallows.valid hvalid

theorem valid_after (commands : List Command) : (after commands).Valid := by
  suffices h : ∀ state : State, state.Valid → (commands.foldl State.step state).Valid from
    h .initial valid_initial
  induction commands with
  | nil => exact fun _ hvalid => hvalid
  | cons command rest ih => exact fun _ hvalid => ih _ (hvalid.step command)

/-- The inputs that are registered and not unregistered afterwards, in the order of their
registration. -/
def standing : List Event → List Input
  | [] => []
  | .inputRegistered inputId sats :: later =>
    if .inputUnregistered inputId ∈ later then standing later
    else ⟨inputId, sats⟩ :: standing later
  | _ :: later => standing later

/-- Inputs stay as long as no event unregisters them, and those that events register and do not
unregister come behind them. This is so for all events, allowed or not. -/
theorem inputs_foldl_apply (events : List Event) (state : State) :
    (events.foldl State.apply state).inputs =
      (state.inputs.filter fun input => .inputUnregistered input.id ∉ events) ++
        standing events := by
  induction events generalizing state with
  | nil =>
    have hall : state.inputs.filter (fun input => Event.inputUnregistered input.id ∉ []) =
        state.inputs := List.filter_eq_self.2 fun _ _ => rfl
    rw [hall, standing, List.append_nil, List.foldl_nil]
  | cons event later ih =>
    rw [List.foldl_cons, ih]
    cases event with
    | inputRegistered inputId sats =>
      by_cases hlater : .inputUnregistered inputId ∈ later
      · simp [State.apply, standing, hlater]
      · simp [State.apply, standing, hlater]
    | inputUnregistered inputId =>
      simp [State.apply, standing, List.filter_filter, Bool.and_comm]
    | _ => simp [State.apply, standing]

theorem inputs_after (commands : List Command) :
    (after commands).inputs = standing (history .initial commands) := by
  rw [after, ← foldl_history, inputs_foldl_apply]
  rfl

/-- The steps from one phase to the next. -/
inductive Status.Leads : Status → Status → Prop
  | start : Leads .new .started
  | sign : Leads .started .signing
  | succeed : Leads .signing .succeeded
  | fail {status} : status ≠ .succeeded → status ≠ .failed → Leads status .failed

theorem Allows.status {action : Action} {event : Event} (hallows : Allows state action event) :
    (state.apply event).status = state.status ∨
      state.status.Leads (state.apply event).status := by
  cases hallows with
  | register | unregister => exact .inl rfl
  | start hstatus => exact .inr (hstatus ▸ .start)
  | sign hstatus => exact .inr (hstatus ▸ .sign)
  | succeed hstatus => exact .inr (hstatus ▸ .succeed)
  | fail hsucceeded hfailed => exact .inr (.fail hsucceeded hfailed)

theorem status_step (state : State) (command : Command) :
    (state.step command).status = state.status ∨
      state.status.Leads (state.step command).status := by
  obtain hsame | ⟨event, hallows, hstep⟩ := step_cases state command
  · exact .inl (congrArg State.status hsame)
  · rw [hstep]
    exact hallows.status

/-- A round in one of these phases takes no inputs and gives none back any more. -/
def Status.isSettled : Status → Bool
  | .new | .started => false
  | .signing | .succeeded | .failed => true

theorem Allows.settled {action : Action} {event : Event} (hallows : Allows state action event)
    (hsettled : state.status.isSettled = true) :
    (state.apply event).status.isSettled = true ∧ (state.apply event).inputs = state.inputs ∧
      (state.apply event).minInputSats = state.minInputSats := by
  cases hallows with
  | succeed | fail => exact ⟨rfl, rfl, rfl⟩
  | start hstatus | register hstatus | unregister hstatus | sign hstatus =>
    rw [hstatus] at hsettled
    cases hsettled

theorem foldl_step_of_isSettled (hsettled : state.status.isSettled = true)
    (later : List Command) :
    (later.foldl State.step state).inputs = state.inputs ∧
      (later.foldl State.step state).minInputSats = state.minInputSats := by
  induction later generalizing state with
  | nil => exact ⟨rfl, rfl⟩
  | cons command rest ih =>
    rw [List.foldl_cons]
    obtain hsame | ⟨event, hallows, hstep⟩ := step_cases state command
    · rw [hsame]
      exact ih hsettled
    · rw [hstep]
      obtain ⟨hstill, hinputs, hmin⟩ := hallows.settled hsettled
      obtain ⟨hinputs', hmin'⟩ := ih hstill
      exact ⟨hinputs'.trans hinputs, hmin'.trans hmin⟩

/-- A round that has ended. -/
def Status.hasEnded : Status → Bool
  | .new | .started | .signing => false
  | .succeeded | .failed => true

theorem Allows.not_hasEnded {action : Action} {event : Event}
    (hallows : Allows state action event) : state.status.hasEnded ≠ true := by
  intro hended
  cases hallows with
  | start hstatus | register hstatus | unregister hstatus | sign hstatus | succeed hstatus =>
    rw [hstatus] at hended
    cases hended
  | fail hsucceeded hfailed => cases hstatus : state.status <;> simp_all [Status.hasEnded]

theorem foldl_step_of_hasEnded (hended : state.status.hasEnded = true) (later : List Command) :
    later.foldl State.step state = state := by
  induction later with
  | nil => rfl
  | cons command rest ih =>
    obtain hsame | ⟨event, hallows, -⟩ := step_cases state command
    · rw [List.foldl_cons, hsame]
      exact ih
    · exact absurd hended hallows.not_hasEnded

/-- Whatever commands have been processed: the state is well formed, and its inputs are those
registered and not unregistered since, in this order. The next command keeps the phase or leads to
the next one. From the beginning of signing the inputs and the least amount stay as they are,
and when the round has ended, no command is accepted any more. -/
theorem lifecycle (earlier later : List Command) :
    (after earlier).Valid ∧
    (after earlier).inputs = standing (history .initial earlier) ∧
    (∀ command, (after (earlier ++ [command])).status = (after earlier).status ∨
      (after earlier).status.Leads (after (earlier ++ [command])).status) ∧
    ((after earlier).status.isSettled = true →
      (after (earlier ++ later)).inputs = (after earlier).inputs ∧
        (after (earlier ++ later)).minInputSats = (after earlier).minInputSats) ∧
    ((after earlier).status.hasEnded = true → ∀ command events,
      process command (after (earlier ++ later)) ≠ .ok (.success events)) := by
  have hafter : ∀ more, after (earlier ++ more) = more.foldl State.step (after earlier) :=
    fun more => List.foldl_append
  refine ⟨valid_after earlier, inputs_after earlier, ?_, ?_, ?_⟩
  · intro command
    rw [hafter]
    exact status_step (after earlier) command
  · intro hsettled
    rw [hafter]
    exact foldl_step_of_isSettled hsettled later
  · intro hended command events haccepted
    rw [hafter, foldl_step_of_hasEnded hended] at haccepted
    obtain ⟨event, -, hallows⟩ := (process_eq_success_iff command _ events).1 haccepted
    exact hallows.not_hasEnded hended

/-- One of two inputs leaves the round before signing; another is refused because it is there
already. -/
def signedRound : List Command :=
  [⟨.nil, .startRound 10⟩, ⟨.nil, .registerInput "a" 10⟩, ⟨.nil, .registerInput "b" 20⟩,
    ⟨.nil, .registerInput "b" 30⟩, ⟨.nil, .unregisterInput "a"⟩, ⟨.nil, .startSigning⟩]

/-- After signing has begun, no input is taken any more, and nothing at all once it is over. -/
def lateCommands : List Command :=
  [⟨.nil, .registerInput "c" 40⟩, ⟨.nil, .setSucceeded "t"⟩, ⟨.nil, .setFailed "late"⟩]

theorem lifecycle_of_signedRound :
    (after signedRound).status = .signing ∧ (after signedRound).inputs = [⟨"b", 20⟩] ∧
    (after (signedRound ++ lateCommands)).inputs = [⟨"b", 20⟩] ∧
    (after (signedRound ++ lateCommands)).status = .succeeded ∧
    ∀ command events,
      process command (after (signedRound ++ lateCommands)) ≠ .ok (.success events) := by
  have hsigning : (after signedRound).status = .signing ∧
      (after signedRound).inputs = [⟨"b", 20⟩] := by decide
  have hended : (after (signedRound ++ lateCommands)).status = .succeeded := by decide
  obtain ⟨-, -, -, hkept, -⟩ := lifecycle signedRound lateCommands
  obtain ⟨-, -, -, -, hrefused⟩ := lifecycle (signedRound ++ lateCommands) []
  have hinputs := (hkept (congrArg Status.isSettled hsigning.1)).1
  exact ⟨hsigning.1, hsigning.2, hinputs.trans hsigning.2, hended,
    List.append_nil (signedRound ++ lateCommands) ▸ hrefused (congrArg Status.hasEnded hended)⟩

end EventSourcing.Round
