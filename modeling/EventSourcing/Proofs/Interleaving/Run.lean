import EventSourcing.Program
import Mathlib.Logic.Function.Basic

namespace EventSourcing.Interleaving

/-- The calls of a library, as programs over one shared state. -/
structure System (Request : Type) (Reply : Request → Type) (State Call : Type)
    (Outcome : Call → Type) where
  answer : State → (request : Request) → Reply request × State
  /-- Whether other calls may run before the reply is used. -/
  isCheckpoint : Request → Bool
  program : (call : Call) → Program Request Reply (Outcome call)

/-- What a call does at one moment of a run. -/
inductive Action {Request Call : Type} (Reply : Request → Type) (Outcome : Call → Type)
    (call : Call) where
  | called
  | answered (request : Request) (reply : Reply request)
  | returned (outcome : Outcome call)

/-- An action with the call that it belongs to. Calls are numbered as they begin, which tells equal
ones apart. -/
structure Entry {Request Call : Type} (Reply : Request → Type) (Outcome : Call → Type) where
  id : Nat
  call : Call
  action : Action Reply Outcome call

/-- The shared state with everything that has happened, oldest first. -/
structure World {Request Call : Type} (State : Type) (Reply : Request → Type)
    (Outcome : Call → Type) where
  state : State
  history : List (Entry Reply Outcome)

/-- A call that has begun and not yet returned. It is parked when it has just passed a checkpoint,
so that others may run before it goes on. -/
structure Frame {Request Call : Type} (Reply : Request → Type) (Outcome : Call → Type) where
  id : Nat
  call : Call
  rest : Program Request Reply (Outcome call)
  isParked : Bool

/-- A moment of a run; the innermost call comes first. -/
structure Moment {Request Call : Type} (State : Type) (Reply : Request → Type)
    (Outcome : Call → Type) where
  world : World State Reply Outcome
  frames : List (Frame Reply Outcome)
  nextId : Nat

/-- How a run may go on: another call begins, or the innermost one does what it does next. -/
inductive Move (Call : Type) where
  | call (call : Call)
  | proceed

variable {Request : Type} {Reply : Request → Type} {State Call : Type} {Outcome : Call → Type}

namespace World

def record (world : World State Reply Outcome) (entry : Entry Reply Outcome) :
    World State Reply Outcome :=
  { world with history := world.history ++ [entry] }

@[simp]
theorem record_state (world : World State Reply Outcome) (entry : Entry Reply Outcome) :
    (world.record entry).state = world.state :=
  rfl

@[simp]
theorem record_history (world : World State Reply Outcome) (entry : Entry Reply Outcome) :
    (world.record entry).history = world.history ++ [entry] :=
  rfl

end World

namespace Moment

/-- The moment before anything has happened. -/
def start (state : State) : Moment State Reply Outcome :=
  ⟨⟨state, []⟩, [], 0⟩

/-- A call is about to return, with everything else done. -/
def Returns (moment : Moment State Reply Outcome) (id : Nat) (call : Call)
    (outcome : Outcome call) : Prop :=
  ∃ isParked frames, moment.frames = ⟨id, call, .done outcome, isParked⟩ :: frames

end Moment

namespace System

variable (S : System Request Reply State Call Outcome)

/-- What is left of the world when a call has its request answered. -/
def after (world : World State Reply Outcome) (id : Nat) (call : Call) (request : Request) :
    World State Reply Outcome :=
  ⟨(S.answer world.state request).2,
    world.history ++ [⟨id, call, .answered request (S.answer world.state request).1⟩]⟩

/-- The moment after a move, if the move is possible. -/
def next? (moment : Moment State Reply Outcome) :
    Move Call → Option (Moment State Reply Outcome)
  | .call call =>
    if moment.frames.head?.all (·.isParked) then
      some ⟨moment.world.record ⟨moment.nextId, call, .called⟩,
        ⟨moment.nextId, call, S.program call, false⟩ :: moment.frames, moment.nextId + 1⟩
    else
      none
  | .proceed =>
    match moment.frames with
    | [] => none
    | ⟨id, call, .done outcome, _⟩ :: frames =>
      some ⟨moment.world.record ⟨id, call, .returned outcome⟩, frames, moment.nextId⟩
    | ⟨id, call, .ask request next, _⟩ :: frames =>
      some ⟨S.after moment.world id call request,
        ⟨id, call, next (S.answer moment.world.state request).1, S.isCheckpoint request⟩ :: frames,
        moment.nextId⟩

/-- The moment after some moves, if all of them are possible. -/
def run? : Moment State Reply Outcome → List (Move Call) → Option (Moment State Reply Outcome)
  | moment, [] => some moment
  | moment, move :: moves => (S.next? moment move).bind fun next => run? next moves

/-- Some moves lead from one moment to another. -/
def Reaches (moment later : Moment State Reply Outcome) : Prop :=
  ∃ moves, S.run? moment moves = some later

variable {S}

/-- A move lets a call begin while the innermost one is parked, has a request answered, or lets a
call return. The cases are told apart here, once for all invariants of runs. -/
theorem next?_cases {motive : Moment State Reply Outcome → Moment State Reply Outcome → Prop}
    {moment next : Moment State Reply Outcome} {move : Move Call}
    (hnext : S.next? moment move = some next)
    (called : ∀ world frames nextId call,
      (∀ frame : Frame Reply Outcome, frames.head? = some frame → frame.isParked = true) →
      motive ⟨world, frames, nextId⟩
        ⟨world.record ⟨nextId, call, .called⟩, ⟨nextId, call, S.program call, false⟩ :: frames,
          nextId + 1⟩)
    (answered : ∀ world id call request rest isParked frames nextId,
      motive ⟨world, ⟨id, call, .ask request rest, isParked⟩ :: frames, nextId⟩
        ⟨S.after world id call request,
          ⟨id, call, rest (S.answer world.state request).1, S.isCheckpoint request⟩ :: frames,
          nextId⟩)
    (returned : ∀ world id call outcome isParked frames nextId,
      motive ⟨world, ⟨id, call, .done outcome, isParked⟩ :: frames, nextId⟩
        ⟨world.record ⟨id, call, .returned outcome⟩, frames, nextId⟩) :
    motive moment next := by
  obtain ⟨world, frames, nextId⟩ := moment
  cases move with
  | call call =>
    simp only [next?] at hnext
    split at hnext
    · next hparked =>
      cases hnext
      refine called world frames nextId call fun frame hframe => ?_
      simpa [hframe] using hparked
    · cases hnext
  | proceed =>
    cases frames with
    | nil => cases hnext
    | cons frame frames =>
      obtain ⟨id, call, rest, isParked⟩ := frame
      cases rest with
      | done outcome =>
        cases hnext
        exact returned world id call outcome isParked frames nextId
      | ask request rest =>
        cases hnext
        exact answered world id call request rest isParked frames nextId

/-- What every move keeps holds at every moment that can be reached. -/
theorem Reaches.induct {P : Moment State Reply Outcome → Prop}
    {moment later : Moment State Reply Outcome} (hreach : S.Reaches moment later)
    (hstart : P moment)
    (hstep : ∀ {moment next move}, P moment → S.next? moment move = some next → P next) :
    P later := by
  obtain ⟨moves, hrun⟩ := hreach
  induction moves generalizing moment with
  | nil =>
    cases hrun
    exact hstart
  | cons move moves ih =>
    obtain ⟨next, hnext, hrun⟩ := Option.bind_eq_some_iff.1 hrun
    exact ih (hstep hstart hnext) hrun

theorem run?_append (moment : Moment State Reply Outcome) (first second : List (Move Call)) :
    S.run? moment (first ++ second) = (S.run? moment first).bind fun mid => S.run? mid second := by
  induction first generalizing moment with
  | nil => rfl
  | cons move first ih =>
    simp only [List.cons_append, run?, Option.bind_assoc]
    congr 1
    funext next
    exact ih next

/-- A call that has one request answered and then returns, with nothing else in between. -/
theorem run?_of_single {moment : Moment State Reply Outcome} (call : Call) {request : Request}
    {next : Reply request → Program Request Reply (Outcome call)} {outcome : Outcome call}
    (hparked : moment.frames.head?.all (·.isParked) = true)
    (hprogram : S.program call = .ask request next)
    (hdone : next (S.answer moment.world.state request).1 = .done outcome) :
    S.run? moment (.call call :: .replicate 2 .proceed) =
      some ⟨⟨(S.answer moment.world.state request).2, moment.world.history ++
        [⟨moment.nextId, call, .called⟩,
          ⟨moment.nextId, call, .answered request (S.answer moment.world.state request).1⟩,
          ⟨moment.nextId, call, .returned outcome⟩]⟩, moment.frames, moment.nextId + 1⟩ := by
  simp [List.replicate, run?, next?, hparked, hprogram, after, hdone, World.record]

theorem Reaches.trans {moment mid later : Moment State Reply Outcome}
    (hfirst : S.Reaches moment mid) (hsecond : S.Reaches mid later) : S.Reaches moment later := by
  obtain ⟨first, hfirst⟩ := hfirst
  obtain ⟨second, hsecond⟩ := hsecond
  exact ⟨first ++ second, by rw [run?_append, hfirst]; exact hsecond⟩

theorem Reaches.of_next? {moment next later : Moment State Reply Outcome} {move : Move Call}
    (hnext : S.next? moment move = some next) (hreach : S.Reaches next later) :
    S.Reaches moment later := by
  obtain ⟨moves, hrun⟩ := hreach
  exact ⟨move :: moves, by rw [run?, hnext]; exact hrun⟩

/-- The innermost call comes to its end if it goes on alone. -/
theorem exists_done {moment : Moment State Reply Outcome} {id : Nat} {call : Call}
    {rest : Program Request Reply (Outcome call)} {isParked : Bool}
    {frames : List (Frame Reply Outcome)}
    (hframes : moment.frames = ⟨id, call, rest, isParked⟩ :: frames) :
    ∃ later outcome isParked, S.Reaches moment later ∧
      later.frames = ⟨id, call, .done outcome, isParked⟩ :: frames := by
  induction rest generalizing moment isParked with
  | done outcome => exact ⟨moment, outcome, isParked, ⟨[], rfl⟩, hframes⟩
  | ask request next ih =>
    obtain ⟨world, _, nextId⟩ := moment
    cases hframes
    let after : Moment State Reply Outcome := ⟨S.after world id call request,
      ⟨id, call, next (S.answer world.state request).1, S.isCheckpoint request⟩ :: frames, nextId⟩
    have hnext : S.next? ⟨world, ⟨id, call, .ask request next, isParked⟩ :: frames, nextId⟩
      .proceed = some after := rfl
    obtain ⟨later, outcome, isParked', hreach, hlater⟩ := ih _ (rfl : after.frames = _)
    exact ⟨later, outcome, isParked', hreach.of_next? hnext, hlater⟩

/-- Every call that has begun can return. -/
theorem exists_returns {moment : Moment State Reply Outcome} {frame : Frame Reply Outcome}
    (hframe : frame ∈ moment.frames) :
    ∃ later outcome, S.Reaches moment later ∧ later.Returns frame.id frame.call outcome := by
  obtain ⟨world, frames, nextId⟩ := moment
  induction frames generalizing world nextId with
  | nil => cases hframe
  | cons top frames ih =>
    let now : Moment State Reply Outcome := ⟨world, top :: frames, nextId⟩
    obtain ⟨⟨world', _, nextId'⟩, outcome, isParked, hreach, hdone⟩ :=
      exists_done (S := S) (rfl : now.frames = top :: frames)
    cases hdone
    rcases List.mem_cons.1 hframe with rfl | hframe
    · exact ⟨_, outcome, hreach, isParked, frames, rfl⟩
    · -- The call on top returns, and what is below goes on from there.
      have hnext : S.next? ⟨world', ⟨top.id, top.call, .done outcome, isParked⟩ :: frames, nextId'⟩
          .proceed =
            some ⟨world'.record ⟨top.id, top.call, .returned outcome⟩, frames, nextId'⟩ := rfl
      obtain ⟨later, outcome', hlater, hreturns⟩ := ih _ nextId' hframe
      exact ⟨later, outcome', hreach.trans (hlater.of_next? hnext), hreturns⟩

/-- Nothing that has happened is ever forgotten. -/
theorem Reaches.history_extends {moment later : Moment State Reply Outcome}
    (hreach : S.Reaches moment later) : moment.world.history <+: later.world.history := by
  refine hreach.induct (P := fun next => moment.world.history <+: next.world.history)
    (List.prefix_refl _) ?_
  intro before next move hextends hnext
  revert hextends
  refine next?_cases (motive := fun before next => moment.world.history <+: before.world.history →
    moment.world.history <+: next.world.history) hnext ?_ ?_ ?_
  · intro world frames nextId call _ hextends
    exact hextends.trans (List.prefix_append _ _)
  · intro world id call request rest isParked frames nextId hextends
    exact hextends.trans (List.prefix_append _ _)
  · intro world id call outcome isParked frames nextId hextends
    exact hextends.trans (List.prefix_append _ _)

/-- A run that begins with a call tells of it. -/
theorem mem_history_of_run? {state : State} {call : Call} {moves : List (Move Call)}
    {moment : Moment State Reply Outcome}
    (hrun : S.run? (.start state) (.call call :: moves) = some moment) :
    ⟨0, call, .called⟩ ∈ moment.world.history := by
  have hbegun : S.Reaches ⟨⟨state, [⟨0, call, .called⟩]⟩, [⟨0, call, S.program call, false⟩], 1⟩
      moment :=
    ⟨moves, hrun⟩
  exact hbegun.history_extends.subset List.mem_cons_self

end System

/-- A list with one more entry, split at some entry: that entry is an earlier one, or the last. -/
theorem concat_eq_append_cons {α : Type} {entries before after : List α} {last entry : α}
    (h : entries ++ [last] = before ++ entry :: after) :
    (∃ rest, after = rest ++ [last] ∧ entries = before ++ entry :: rest) ∨
      after = [] ∧ entry = last ∧ before = entries := by
  rcases List.eq_nil_or_concat after with rfl | ⟨rest, other, rfl⟩
  · obtain ⟨rfl, hlast⟩ := List.append_inj' h rfl
    exact .inr ⟨rfl, (List.singleton_inj.1 hlast).symm, rfl⟩
  · rw [List.concat_eq_append, ← List.cons_append, ← List.append_assoc] at h
    obtain ⟨rfl, hlast⟩ := List.append_inj' h rfl
    obtain rfl := List.singleton_inj.1 hlast
    exact .inl ⟨rest, List.concat_eq_append, rfl⟩

/-- A list split at two entries: they are the same, or one of them comes first. -/
theorem append_cons_eq_append_cons {α : Type} {before before' after after' : List α}
    {entry entry' : α} (h : before ++ entry :: after = before' ++ entry' :: after') :
    before = before' ∧ entry = entry' ∨
      (∃ between, before' = before ++ entry :: between ∧ after = between ++ entry' :: after') ∨
      ∃ between, before = before' ++ entry' :: between ∧ after' = between ++ entry :: after := by
  rcases List.append_eq_append_iff.1 h with ⟨between, rfl, hafter⟩ | ⟨between, rfl, hafter⟩
  · cases between with
    | nil => exact .inl ⟨(List.append_nil _).symm, (List.cons.inj hafter).1⟩
    | cons first between =>
      obtain ⟨rfl, hrest⟩ := List.cons.inj hafter
      exact .inr (.inl ⟨between, rfl, hrest⟩)
  · cases between with
    | nil => exact .inl ⟨List.append_nil _, (List.cons.inj hafter).1.symm⟩
    | cons first between =>
      obtain ⟨rfl, hrest⟩ := List.cons.inj hafter
      exact .inr (.inr ⟨between, rfl, hrest⟩)

/-- There is one entry only of which something is true, so a list is split there in one way. -/
theorem append_cons_unique {α : Type} {p : α → Bool} {before before' after after' : List α}
    {entry entry' : α} (h : before ++ entry :: after = before' ++ entry' :: after')
    (hbefore : ∀ other ∈ before', p other = false) (hafter : ∀ other ∈ after', p other = false)
    (hentry : p entry = true) : before = before' ∧ entry = entry' ∧ after = after' := by
  rcases append_cons_eq_append_cons h with ⟨rfl, rfl⟩ | ⟨between, rfl, -⟩ | ⟨between, -, rfl⟩
  · exact ⟨rfl, rfl, (List.cons.inj (List.append_cancel_left h)).2⟩
  · exact absurd (hbefore entry (by simp)) (by simp [hentry])
  · exact absurd (hafter entry (by simp)) (by simp [hentry])

/-- Calls have numbers of their own, smaller than the next one to be given out, and a call that has
returned does nothing any more. -/
structure Moment.Numbered (moment : Moment State Reply Outcome) : Prop where
  nodup : (moment.frames.map (·.id)).Nodup
  frame_lt : ∀ frame ∈ moment.frames, frame.id < moment.nextId
  entry_lt : ∀ entry ∈ moment.world.history, entry.id < moment.nextId
  returned : ∀ before id call outcome after,
    moment.world.history = before ++ ⟨id, call, .returned outcome⟩ :: after →
      (∀ entry ∈ after, entry.id ≠ id) ∧ ∀ frame ∈ moment.frames, frame.id ≠ id

namespace Moment.Numbered

variable {world later : World State Reply Outcome} {frames : List (Frame Reply Outcome)}
  {nextId : Nat} {entry : Entry Reply Outcome}

private theorem concat {frame : Frame Reply Outcome} {rest : List (Frame Reply Outcome)}
    (hnumbered : Numbered ⟨world, frame :: rest, nextId⟩)
    (hhistory : later.history = world.history ++ [entry]) (hentry : entry.id = frame.id)
    (hframes : frames = rest ∨ ∃ next, frames = next :: rest ∧ next.id = frame.id)
    (hreturned : ∀ call outcome, entry = ⟨frame.id, call, .returned outcome⟩ → frames = rest) :
    Numbered ⟨later, frames, nextId⟩ := by
  have hlt : frame.id < nextId := hnumbered.frame_lt frame List.mem_cons_self
  obtain ⟨hnotMem, hnodup⟩ := List.nodup_cons.1 hnumbered.nodup
  have hid : ∀ other ∈ frames, ∃ same ∈ frame :: rest, other.id = same.id := by
    intro other hother
    rcases hframes with rfl | ⟨next, rfl, hnext⟩
    · exact ⟨other, List.mem_cons_of_mem _ hother, rfl⟩
    · rcases List.mem_cons.1 hother with rfl | hother
      · exact ⟨frame, List.mem_cons_self, hnext⟩
      · exact ⟨other, List.mem_cons_of_mem _ hother, rfl⟩
  refine ⟨?_, ?_, ?_, ?_⟩
  · rcases hframes with rfl | ⟨next, rfl, hnext⟩
    · exact hnodup
    · rw [List.map_cons, hnext]
      exact hnumbered.nodup
  · intro other hother
    obtain ⟨same, hsame, heq⟩ := hid other hother
    exact heq ▸ hnumbered.frame_lt same hsame
  · intro other hother
    rw [hhistory] at hother
    rcases List.mem_append.1 hother with hother | hother
    · exact hnumbered.entry_lt other hother
    · obtain rfl := List.mem_singleton.1 hother
      exact hentry ▸ hlt
  · intro before id call outcome after hsplit
    rcases concat_eq_append_cons (hhistory.symm.trans hsplit) with
      ⟨between, rfl, hbefore⟩ | ⟨rfl, heq, rfl⟩
    · -- The call had returned before, so it is not the one that does something now.
      obtain ⟨hafter, hne⟩ := hnumbered.returned _ _ _ _ _ hbefore
      refine ⟨fun other hother => ?_, fun other hother => ?_⟩
      · rcases List.mem_append.1 hother with hother | hother
        · exact hafter other hother
        · obtain rfl := List.mem_singleton.1 hother
          exact hentry ▸ hne frame List.mem_cons_self
      · obtain ⟨same, hsame, hother⟩ := hid other hother
        exact hother ▸ hne same hsame
    · subst heq
      obtain rfl : id = frame.id := hentry
      obtain rfl := hreturned call outcome rfl
      exact ⟨by simp, fun other hother heq => hnotMem (List.mem_map.2 ⟨other, hother, heq⟩)⟩

/-- Every move keeps the numbers apart. -/
theorem next {S : System Request Reply State Call Outcome}
    {moment next : Moment State Reply Outcome} {move : Move Call} (hnumbered : moment.Numbered)
    (hnext : S.next? moment move = some next) : next.Numbered := by
  revert hnumbered
  refine System.next?_cases (motive := fun moment next => moment.Numbered → next.Numbered) hnext
    ?_ ?_ ?_
  · intro world frames nextId call _ hnumbered
    refine ⟨?_, ?_, ?_, ?_⟩
    · refine List.nodup_cons.2 ⟨fun hmem => ?_, hnumbered.nodup⟩
      obtain ⟨frame, hframe, hid⟩ := List.mem_map.1 hmem
      exact Nat.ne_of_lt (hnumbered.frame_lt frame hframe) hid
    · intro frame hframe
      rcases List.mem_cons.1 hframe with rfl | hframe
      · exact Nat.lt_succ_self _
      · exact Nat.lt_succ_of_lt (hnumbered.frame_lt frame hframe)
    · intro entry hentry
      rcases List.mem_append.1 hentry with hentry | hentry
      · exact Nat.lt_succ_of_lt (hnumbered.entry_lt entry hentry)
      · obtain rfl := List.mem_singleton.1 hentry
        exact Nat.lt_succ_self _
    · intro before id other outcome after hsplit
      rcases concat_eq_append_cons hsplit with ⟨between, rfl, hbefore⟩ | ⟨-, heq, -⟩
      · obtain ⟨hafter, hne⟩ := hnumbered.returned _ _ _ _ _ hbefore
        have hid : id < nextId := hnumbered.entry_lt ⟨id, other, .returned outcome⟩
          (hbefore ▸ List.mem_append_right _ List.mem_cons_self)
        refine ⟨fun entry hentry => ?_, fun frame hframe => ?_⟩
        · rcases List.mem_append.1 hentry with hentry | hentry
          · exact hafter entry hentry
          · obtain rfl := List.mem_singleton.1 hentry
            exact Nat.ne_of_gt hid
        · rcases List.mem_cons.1 hframe with rfl | hframe
          · exact Nat.ne_of_gt hid
          · exact hne frame hframe
      · cases heq
  · intro world id call request rest isParked frames nextId hnumbered
    exact hnumbered.concat rfl rfl (.inr ⟨_, rfl, rfl⟩) fun _ _ h => by cases h
  · intro world id call outcome isParked frames nextId hnumbered
    exact hnumbered.concat rfl rfl (.inl rfl) fun _ _ _ => rfl

end Moment.Numbered

/-- At every moment of a run the numbers tell calls apart. -/
theorem System.Reaches.numbered {S : System Request Reply State Call Outcome} {state : State}
    {moment : Moment State Reply Outcome} (hreach : S.Reaches (.start state) moment) :
    moment.Numbered := by
  refine hreach.induct ⟨?_, ?_, ?_, ?_⟩ fun hnumbered hnext => hnumbered.next hnext
  all_goals simp [Moment.start]

/-- What the numbers of calls stand for. -/
def Moment.Names (moment : Moment State Reply Outcome) (callOf : Nat → Option Call) : Prop :=
  (∀ entry ∈ moment.world.history, callOf entry.id = some entry.call) ∧
    ∀ frame ∈ moment.frames, callOf frame.id = some frame.call

/-- No move gives a number that is in use to another call. -/
theorem Moment.Names.next {S : System Request Reply State Call Outcome}
    {moment next : Moment State Reply Outcome} {move : Move Call} {callOf : Nat → Option Call}
    (hnumbered : moment.Numbered) (hnames : moment.Names callOf)
    (hnext : S.next? moment move = some next) : ∃ callOf, next.Names callOf := by
  revert hnumbered hnames
  refine System.next?_cases (motive := fun moment next => moment.Numbered → moment.Names callOf →
    ∃ callOf, next.Names callOf) hnext ?_ ?_ ?_
  · intro world frames nextId call _ hnumbered ⟨hentries, hframes⟩
    refine ⟨Function.update callOf nextId (some call), ?_, ?_⟩
    · intro entry hentry
      rcases List.mem_append.1 hentry with h | h
      · rw [Function.update_of_ne (Nat.ne_of_lt (hnumbered.entry_lt entry h))]
        exact hentries entry h
      · rw [List.mem_singleton.1 h]
        exact Function.update_self ..
    · intro frame hframe
      rcases List.mem_cons.1 hframe with rfl | h
      · exact Function.update_self ..
      · rw [Function.update_of_ne (Nat.ne_of_lt (hnumbered.frame_lt frame h))]
        exact hframes frame h
  · intro world id call request rest isParked frames nextId _ ⟨hentries, hframes⟩
    have hcall : callOf id = some call := hframes _ List.mem_cons_self
    refine ⟨callOf, fun entry hentry => ?_, fun frame hframe => ?_⟩
    · rcases List.mem_append.1 hentry with h | h
      · exact hentries entry h
      · rw [List.mem_singleton.1 h]
        exact hcall
    · rcases List.mem_cons.1 hframe with rfl | h
      · exact hcall
      · exact hframes frame (List.mem_cons_of_mem _ h)
  · intro world id call outcome isParked frames nextId _ ⟨hentries, hframes⟩
    have hcall : callOf id = some call := hframes _ List.mem_cons_self
    refine ⟨callOf, fun entry hentry => ?_, fun frame h => hframes frame (List.mem_cons_of_mem _ h)⟩
    rcases List.mem_append.1 hentry with h | h
    · exact hentries entry h
    · rw [List.mem_singleton.1 h]
      exact hcall

private theorem System.Reaches.names {S : System Request Reply State Call Outcome} {state : State}
    {moment : Moment State Reply Outcome} (hreach : S.Reaches (.start state) moment) :
    ∃ callOf, moment.Names callOf := by
  have hnames : moment.Numbered ∧ ∃ callOf, moment.Names callOf := by
    refine hreach.induct (P := fun moment => moment.Numbered ∧ ∃ callOf, moment.Names callOf)
      ⟨Reaches.numbered (S := S) ⟨[], rfl⟩, fun _ => none, ?_⟩ ?_
    · constructor <;> simp [Moment.start]
    rintro moment next move ⟨hnumbered, callOf, hnames⟩ hnext
    exact ⟨hnumbered.next hnext, hnames.next hnumbered hnext⟩
  exact hnames.2

/-- Entries with the same number belong to the same call. -/
theorem System.Reaches.call_eq {S : System Request Reply State Call Outcome} {state : State}
    {moment : Moment State Reply Outcome} (hreach : S.Reaches (.start state) moment)
    {entry other : Entry Reply Outcome} (hentry : entry ∈ moment.world.history)
    (hother : other ∈ moment.world.history) (hid : entry.id = other.id) :
    entry.call = other.call := by
  obtain ⟨callOf, hentries, -⟩ := hreach.names
  exact Option.some.inj ((hentries entry hentry).symm.trans (hid ▸ hentries other hother))

/-- A call in flight has the number of its entries. -/
theorem System.Reaches.frame_call_eq {S : System Request Reply State Call Outcome} {state : State}
    {moment : Moment State Reply Outcome} (hreach : S.Reaches (.start state) moment)
    {frame : Frame Reply Outcome} (hframe : frame ∈ moment.frames) {entry : Entry Reply Outcome}
    (hentry : entry ∈ moment.world.history) (hid : frame.id = entry.id) :
    frame.call = entry.call := by
  obtain ⟨callOf, hentries, hframes⟩ := hreach.names
  exact Option.some.inj ((hframes frame hframe).symm.trans (hid ▸ hentries entry hentry))

/-- A moment at which other calls may begin: no call has run on from a checkpoint since it was there
last. -/
def Moment.AtRest (moment : Moment State Reply Outcome) : Prop :=
  ∀ frame, moment.frames.head? = some frame → frame.isParked = true

namespace System

variable {S : System Request Reply State Call Outcome} {state : State}
  {moment next : Moment State Reply Outcome}

section GoesOn

/-- Whether others may run behind an entry. -/
def pausesAt (S : System Request Reply State Call Outcome) (entry : Entry Reply Outcome) : Bool :=
  match entry.action with
  | .called => false
  | .answered request _ => S.isCheckpoint request
  | .returned _ => true

variable {entry : Entry Reply Outcome}

/-- Behind an entry its call has gone on straight away, or else the entry is the last one, and its
call the innermost one and not parked. -/
private def GoesOn (entry : Entry Reply Outcome) (moment : Moment State Reply Outcome) : Prop :=
  ∀ before after, moment.world.history = before ++ entry :: after →
    (∃ next rest, after = next :: rest ∧ next.id = entry.id) ∨
      after = [] ∧ ∃ frame, moment.frames.head? = some frame ∧ frame.id = entry.id ∧
        frame.isParked = false

private theorem GoesOn.concat {last : Entry Reply Outcome} (hgoes : GoesOn entry moment)
    (hhistory : next.world.history = moment.world.history ++ [last])
    (hrunning : ∀ frame, moment.frames.head? = some frame → frame.isParked = false →
      frame.id = last.id)
    (hlast : entry = last →
      ∃ frame, next.frames.head? = some frame ∧ frame.id = entry.id ∧ frame.isParked = false) :
    GoesOn entry next := by
  intro before after hsplit
  rw [hhistory] at hsplit
  rcases concat_eq_append_cons hsplit with ⟨rest, rfl, hbefore⟩ | ⟨rfl, heq, -⟩
  · rcases hgoes before rest hbefore with
      ⟨other, later, rfl, hid⟩ | ⟨rfl, frame, htop, hid, hparked⟩
    · exact .inl ⟨other, later ++ [last], rfl, hid⟩
    · exact .inl ⟨last, [], rfl, (hrunning frame htop hparked).symm.trans hid⟩
  · exact .inr ⟨rfl, hlast heq⟩

private theorem GoesOn.move {move : Move Call} (hgoes : GoesOn entry moment)
    (hpause : S.pausesAt entry = false) (hnext : S.next? moment move = some next) :
    GoesOn entry next := by
  revert hgoes
  refine next?_cases (motive := fun moment next => GoesOn entry moment → GoesOn entry next) hnext
    ?_ ?_ ?_
  · intro world frames nextId other hparked hgoes
    refine hgoes.concat rfl (fun frame htop hrunning => ?_) ?_
    · exact absurd (hparked frame htop) (by simp [hrunning])
    · rintro rfl
      exact ⟨_, rfl, rfl, rfl⟩
  · intro world number other asked rest isParked frames nextId hgoes
    refine hgoes.concat rfl (fun frame htop _ => ?_) ?_
    · cases htop
      rfl
    · rintro rfl
      exact ⟨_, rfl, rfl, hpause⟩
  · intro world number other outcome isParked frames nextId hgoes
    refine hgoes.concat rfl (fun frame htop _ => ?_) ?_
    · cases htop
      rfl
    · rintro rfl
      cases hpause

private theorem Reaches.goesOn (hreach : S.Reaches (.start state) moment)
    (hpause : S.pausesAt entry = false) : GoesOn entry moment :=
  hreach.induct (fun before after hnil => by simp [Moment.start] at hnil)
    fun hgoes hnext => hgoes.move hpause hnext

/-- Where no others may run the call goes straight on. -/
theorem Reaches.goes_straight_on (hreach : S.Reaches (.start state) moment)
    {before after : List (Entry Reply Outcome)} {next : Entry Reply Outcome}
    (hsplit : moment.world.history = before ++ entry :: next :: after)
    (hpause : S.pausesAt entry = false) : next.id = entry.id := by
  rcases hreach.goesOn hpause before _ hsplit with ⟨other, rest, hrest, hid⟩ | ⟨hnil, -⟩
  · obtain ⟨rfl, -⟩ := List.cons.inj hrest
    exact hid
  · cases hnil

/-- At rest, a call that has had a request answered which is no checkpoint has gone on since. -/
theorem Reaches.goes_on {id : Nat} {call : Call} {request : Request} {reply : Reply request}
    (hreach : S.Reaches (.start state) moment) (hrest : moment.AtRest)
    {before after : List (Entry Reply Outcome)}
    (hsplit : moment.world.history = before ++ ⟨id, call, .answered request reply⟩ :: after)
    (hcheckpoint : S.isCheckpoint request = false) : ∃ entry ∈ after, entry.id = id := by
  have hgoes : GoesOn ⟨id, call, .answered request reply⟩ moment := hreach.goesOn hcheckpoint
  rcases hgoes before after hsplit with ⟨next, later, rfl, hid⟩ | ⟨-, frame, htop, -, hrunning⟩
  · exact ⟨next, List.mem_cons_self, hid⟩
  · exact absurd (hrest frame htop) (by simp [hrunning])

end GoesOn

/-- All calls that have done something are in flight or have returned. -/
private def Accounted (moment : Moment State Reply Outcome) : Prop :=
  ∀ entry ∈ moment.world.history, (∃ frame ∈ moment.frames, frame.id = entry.id) ∨
    ∃ call outcome, ⟨entry.id, call, .returned outcome⟩ ∈ moment.world.history

private theorem Accounted.concat {entry : Entry Reply Outcome} (haccounted : Accounted moment)
    (hhistory : next.world.history = moment.world.history ++ [entry])
    (hframes : ∀ frame ∈ moment.frames, frame.id ≠ entry.id →
      ∃ same ∈ next.frames, same.id = frame.id)
    (hlast : (∃ frame ∈ next.frames, frame.id = entry.id) ∨
      ∃ call outcome, entry = ⟨entry.id, call, .returned outcome⟩) : Accounted next := by
  have hself : (∃ frame ∈ next.frames, frame.id = entry.id) ∨
      ∃ call outcome, ⟨entry.id, call, .returned outcome⟩ ∈ next.world.history := by
    rcases hlast with h | ⟨call, outcome, heq⟩
    · exact .inl h
    · refine .inr ⟨call, outcome, ?_⟩
      rw [hhistory, ← heq]
      exact List.mem_append_right _ List.mem_cons_self
  intro other hother
  rw [hhistory] at hother
  rcases List.mem_append.1 hother with h | h
  · by_cases hid : other.id = entry.id
    · rw [hid]
      exact hself
    rcases haccounted other h with ⟨frame, hframe, hsame⟩ | ⟨call, outcome, hreturned⟩
    · obtain ⟨same, hmem, hsame'⟩ := hframes frame hframe fun heq => hid (hsame.symm.trans heq)
      exact .inl ⟨same, hmem, hsame'.trans hsame⟩
    · refine .inr ⟨call, outcome, ?_⟩
      rw [hhistory]
      exact List.mem_append_left _ hreturned
  · rw [List.mem_singleton.1 h]
    exact hself

private theorem Accounted.move {move : Move Call} (haccounted : Accounted moment)
    (hnext : S.next? moment move = some next) : Accounted next := by
  revert haccounted
  refine next?_cases (motive := fun moment next => Accounted moment → Accounted next) hnext
    ?_ ?_ ?_
  · intro world frames nextId call _ haccounted
    exact haccounted.concat rfl
      (fun frame hframe _ => ⟨frame, List.mem_cons_of_mem _ hframe, rfl⟩)
      (.inl ⟨_, List.mem_cons_self, rfl⟩)
  · intro world id call request rest isParked frames nextId haccounted
    refine haccounted.concat rfl (fun frame hframe hne => ?_) (.inl ⟨_, List.mem_cons_self, rfl⟩)
    rcases List.mem_cons.1 hframe with rfl | h
    · exact absurd rfl hne
    · exact ⟨frame, List.mem_cons_of_mem _ h, rfl⟩
  · intro world id call outcome isParked frames nextId haccounted
    refine haccounted.concat rfl (fun frame hframe hne => ?_) (.inr ⟨call, outcome, rfl⟩)
    rcases List.mem_cons.1 hframe with rfl | h
    · exact absurd rfl hne
    · exact ⟨frame, h, rfl⟩

/-- A call that has done something is in flight or has returned. -/
theorem Reaches.in_flight_or_returned (hreach : S.Reaches (.start state) moment)
    {entry : Entry Reply Outcome} (hentry : entry ∈ moment.world.history) :
    (∃ frame ∈ moment.frames, frame.id = entry.id) ∨
      ∃ call outcome, ⟨entry.id, call, .returned outcome⟩ ∈ moment.world.history := by
  have haccounted : Accounted moment :=
    hreach.induct (fun entry hentry => by cases hentry) fun haccounted hnext =>
      haccounted.move hnext
  exact haccounted entry hentry

end System

end EventSourcing.Interleaving
