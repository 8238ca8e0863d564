import EventSourcing.Round.Command

namespace EventSourcing.Round

variable {state : State}

theorem hasInput_iff {inputId : String} :
    state.hasInput inputId = true ↔ ∃ input ∈ state.inputs, input.id = inputId := by
  simp [State.hasInput]

/-- A state lets an action lead to an event. -/
inductive Allows (state : State) : Action → Event → Prop
  | start {minInputSats} : state.status = .new →
      Allows state (.startRound minInputSats) (.roundStarted minInputSats)
  | register {inputId sats} : state.status = .started → state.minInputSats ≤ sats →
      (∀ input ∈ state.inputs, input.id ≠ inputId) →
        Allows state (.registerInput inputId sats) (.inputRegistered inputId sats)
  | unregister {inputId} : state.status = .started →
      (∃ input ∈ state.inputs, input.id = inputId) →
        Allows state (.unregisterInput inputId) (.inputUnregistered inputId)
  | sign : state.status = .started → state.inputs ≠ [] → Allows state .startSigning .signingStarted
  | succeed {txId} : state.status = .signing →
      Allows state (.setSucceeded txId) (.roundSucceeded txId)
  | fail {reason} : state.status ≠ .succeeded → state.status ≠ .failed →
      Allows state (.setFailed reason) (.roundFailed reason)

section Rules

variable {events : List Event}

theorem requireStatus_bind_eq_ok {expected : Status}
    {rule : Unit → Except DomainError (List Event)} :
    requireStatus state expected >>= rule = .ok events ↔
      state.status = expected ∧ rule () = .ok events := by
  unfold requireStatus
  split
  · next hstatus => exact (and_iff_right hstatus).symm
  · next hstatus => exact ⟨nofun, fun h => absurd h.1 hstatus⟩

theorem startRound_eq_ok {minInputSats : Nat} : startRound state minInputSats = .ok events ↔
    state.status = .new ∧ events = [.roundStarted minInputSats] := by
  rw [startRound, requireStatus_bind_eq_ok]
  exact and_congr_right fun _ => by simp [pure, Except.pure, eq_comm]

theorem registerInput_eq_ok {inputId : String} {sats : Nat} :
    registerInput state inputId sats = .ok events ↔ state.status = .started ∧
      (state.minInputSats ≤ sats ∧ ∀ input ∈ state.inputs, input.id ≠ inputId) ∧
        events = [.inputRegistered inputId sats] := by
  rw [registerInput, requireStatus_bind_eq_ok]
  apply and_congr_right
  intro _
  dsimp only
  split
  · next hsmall => simp [Nat.not_le_of_lt hsmall]
  · next hlarge =>
    split
    · next hinput =>
      obtain ⟨input, hmem, hid⟩ := hasInput_iff.1 hinput
      exact ⟨nofun, fun h => absurd hid (h.1.2 input hmem)⟩
    · next hnone =>
      have hnew : ∀ input ∈ state.inputs, input.id ≠ inputId :=
        fun input hmem hid => hnone (hasInput_iff.2 ⟨input, hmem, hid⟩)
      rw [and_iff_right ⟨Nat.le_of_not_lt hlarge, hnew⟩]
      simp [eq_comm]

theorem unregisterInput_eq_ok {inputId : String} :
    unregisterInput state inputId = .ok events ↔ state.status = .started ∧
      (∃ input ∈ state.inputs, input.id = inputId) ∧ events = [.inputUnregistered inputId] := by
  rw [unregisterInput, requireStatus_bind_eq_ok]
  apply and_congr_right
  intro _
  rw [← hasInput_iff]
  split
  · next hinput => simp [hinput, eq_comm]
  · next hnone => exact ⟨nofun, fun h => absurd h.1 hnone⟩

theorem startSigning_eq_ok : startSigning state = .ok events ↔
    state.status = .started ∧ state.inputs ≠ [] ∧ events = [.signingStarted] := by
  rw [startSigning, requireStatus_bind_eq_ok]
  apply and_congr_right
  intro _
  cases state.inputs <;> simp [eq_comm]

theorem setSucceeded_eq_ok {txId : String} : setSucceeded state txId = .ok events ↔
    state.status = .signing ∧ events = [.roundSucceeded txId] := by
  rw [setSucceeded, requireStatus_bind_eq_ok]
  exact and_congr_right fun _ => by simp [pure, Except.pure, eq_comm]

theorem setFailed_eq_ok {reason : String} : setFailed state reason = .ok events ↔
    (state.status ≠ .succeeded ∧ state.status ≠ .failed) ∧ events = [.roundFailed reason] := by
  unfold setFailed
  cases state.status <;> simp [eq_comm]

end Rules

theorem outcomeOf_eq_success {result : Except DomainError (List Event)} {events : List Event} :
    Except.ok (ε := String) (outcomeOf result) = .ok (.success events) ↔ result = .ok events := by
  cases result <;> simp [outcomeOf]

/-- A command is accepted with the event that the state allows its action to lead to, and with
nothing else. -/
theorem process_eq_success_iff (command : Command) (state : State) (events : List Event) :
    process command state = .ok (.success events) ↔
      ∃ event, events = [event] ∧ Allows state command.action event := by
  obtain ⟨id, action⟩ := command
  constructor
  · intro haccepted
    cases action with
    | startRound minInputSats =>
      obtain ⟨hstatus, rfl⟩ := startRound_eq_ok.1 (outcomeOf_eq_success.1 haccepted)
      exact ⟨_, rfl, .start hstatus⟩
    | registerInput inputId sats =>
      obtain ⟨hstatus, ⟨hlarge, hnew⟩, rfl⟩ :=
        registerInput_eq_ok.1 (outcomeOf_eq_success.1 haccepted)
      exact ⟨_, rfl, .register hstatus hlarge hnew⟩
    | unregisterInput inputId =>
      obtain ⟨hstatus, hinput, rfl⟩ := unregisterInput_eq_ok.1 (outcomeOf_eq_success.1 haccepted)
      exact ⟨_, rfl, .unregister hstatus hinput⟩
    | startSigning =>
      obtain ⟨hstatus, hinputs, rfl⟩ := startSigning_eq_ok.1 (outcomeOf_eq_success.1 haccepted)
      exact ⟨_, rfl, .sign hstatus hinputs⟩
    | setSucceeded txId =>
      obtain ⟨hstatus, rfl⟩ := setSucceeded_eq_ok.1 (outcomeOf_eq_success.1 haccepted)
      exact ⟨_, rfl, .succeed hstatus⟩
    | setFailed reason =>
      obtain ⟨⟨hsucceeded, hfailed⟩, rfl⟩ := setFailed_eq_ok.1 (outcomeOf_eq_success.1 haccepted)
      exact ⟨_, rfl, .fail hsucceeded hfailed⟩
    | explode => cases haccepted
  · rintro ⟨event, rfl, hallows⟩
    cases hallows with
    | start hstatus => exact outcomeOf_eq_success.2 (startRound_eq_ok.2 ⟨hstatus, rfl⟩)
    | register hstatus hlarge hnew =>
      exact outcomeOf_eq_success.2 (registerInput_eq_ok.2 ⟨hstatus, ⟨hlarge, hnew⟩, rfl⟩)
    | unregister hstatus hinput =>
      exact outcomeOf_eq_success.2 (unregisterInput_eq_ok.2 ⟨hstatus, hinput, rfl⟩)
    | sign hstatus hinputs =>
      exact outcomeOf_eq_success.2 (startSigning_eq_ok.2 ⟨hstatus, hinputs, rfl⟩)
    | succeed hstatus => exact outcomeOf_eq_success.2 (setSucceeded_eq_ok.2 ⟨hstatus, rfl⟩)
    | fail hsucceeded hfailed =>
      exact outcomeOf_eq_success.2 (setFailed_eq_ok.2 ⟨⟨hsucceeded, hfailed⟩, rfl⟩)

end EventSourcing.Round
