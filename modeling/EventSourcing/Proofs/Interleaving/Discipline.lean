import EventSourcing.Proofs.Interleaving.Run

namespace EventSourcing.Interleaving

variable {Request : Type} {Reply : Request → Type} {State Call : Type} {Outcome : Call → Type}

/-- What all calls keep, what every step respects, and what is true when a call returns. -/
structure Discipline (State : Type) (Reply : Request → Type) (Outcome : Call → Type) where
  Inv : World State Reply Outcome → Prop
  Rel : World State Reply Outcome → World State Reply Outcome → Prop
  Post : Nat → (call : Call) → Outcome call → World State Reply Outcome → Prop
  refl : ∀ {world}, Inv world → Rel world world
  trans : ∀ {first second third}, Inv first → Inv second → Rel first second → Rel second third →
    Rel first third

namespace Discipline

variable (D : Discipline State Reply Outcome)

/-- What a parked call may rely on when it goes on. -/
structure Rely (id : Nat) (before after : World State Reply Outcome) : Prop where
  inv : D.Inv after
  rel : D.Rel before after
  others : ∃ entries, after.history = before.history ++ entries ∧ ∀ entry ∈ entries, entry.id ≠ id

/-- An entry may be added to the history without a change of the state. -/
def Records (world : World State Reply Outcome) (entry : Entry Reply Outcome) : Prop :=
  D.Inv (world.record entry) ∧ D.Rel world (world.record entry)

variable {D}

theorem Rely.refl {id : Nat} {world : World State Reply Outcome} (hinv : D.Inv world) :
    D.Rely id world world :=
  ⟨hinv, D.refl hinv, [], by simp, by simp⟩

/-- A step of one call is one that all other calls may rely on. -/
theorem Rely.of_step {id other : Nat} {before after : World State Reply Outcome}
    {entry : Entry Reply Outcome} (hinv : D.Inv after) (hrel : D.Rel before after)
    (hhistory : after.history = before.history ++ [entry]) (hid : entry.id = other)
    (hne : other ≠ id) : D.Rely id before after := by
  refine ⟨hinv, hrel, [entry], hhistory, ?_⟩
  intro e he
  obtain rfl : e = entry := by simpa using he
  rwa [hid]

theorem Rely.trans {id : Nat} {first second third : World State Reply Outcome}
    (hinv : D.Inv first) (hfirst : D.Rely id first second) (hsecond : D.Rely id second third) :
    D.Rely id first third := by
  obtain ⟨early, hearly, hne⟩ := hfirst.others
  obtain ⟨late, hlate, hne'⟩ := hsecond.others
  refine ⟨hsecond.inv, D.trans hinv hfirst.inv hfirst.rel hsecond.rel, early ++ late, ?_, ?_⟩
  · rw [hlate, hearly, List.append_assoc]
  · intro entry hentry
    rcases List.mem_append.1 hentry with h | h
    · exact hne entry h
    · exact hne' entry h

end Discipline

namespace System

variable (S : System Request Reply State Call Outcome) (D : Discipline State Reply Outcome)

/-- From a world on, a program keeps the discipline as a part of call number `id`, and `post` is
true when it is done. -/
def Keeps (id : Nat) (call : Call) {α : Type} (post : α → World State Reply Outcome → Prop) :
    Program Request Reply α → World State Reply Outcome → Prop
  | .done value, world => post value world
  | .ask request next, world =>
    D.Inv (S.after world id call request) ∧ D.Rel world (S.after world id call request) ∧
      if S.isCheckpoint request then
        ∀ later, D.Rely id (S.after world id call request) later →
          Keeps id call post (next (S.answer world.state request).1) later
      else
        Keeps id call post (next (S.answer world.state request).1) (S.after world id call request)

/-- What has to be true when a call is about to return. -/
def Ends (id : Nat) (call : Call) (outcome : Outcome call) (world : World State Reply Outcome) :
    Prop :=
  D.Post id call outcome world ∧ D.Records world ⟨id, call, .returned outcome⟩

/-- Every call, begun in any world with a number of its own, keeps the discipline to its end. -/
def Upholds : Prop :=
  ∀ world id call, D.Inv world → (∀ entry ∈ world.history, entry.id ≠ id) →
    D.Records world ⟨id, call, .called⟩ ∧
      S.Keeps D id call (Ends D id call) (S.program call) (world.record ⟨id, call, .called⟩)

variable {S D}

/-- A program in two parts keeps the discipline if the second part does so wherever the first may
end. -/
theorem Keeps.bind {id : Nat} {call : Call} {α β : Type}
    {mid : α → World State Reply Outcome → Prop} {post : β → World State Reply Outcome → Prop}
    {first : Program Request Reply α} {second : α → Program Request Reply β}
    {world : World State Reply Outcome} (hfirst : S.Keeps D id call mid first world)
    (hsecond : ∀ value later, mid value later → S.Keeps D id call post (second value) later) :
    S.Keeps D id call post (first >>= second) world := by
  -- The world is general: behind a checkpoint the program goes on in one that others have changed.
  induction first generalizing world with
  | done value => exact hsecond value world hfirst
  | ask request next ih =>
    obtain ⟨hinv, hrel, hnext⟩ := hfirst
    refine ⟨hinv, hrel, ?_⟩
    split at hnext
    · next hcheckpoint =>
      rw [if_pos hcheckpoint]
      intro later hrely
      exact ih _ (hnext later hrely)
    · next hcheckpoint =>
      rw [if_neg hcheckpoint]
      exact ih _ hnext

theorem Keeps.mono {id : Nat} {call : Call} {α : Type}
    {weak strong : α → World State Reply Outcome → Prop} {program : Program Request Reply α}
    {world : World State Reply Outcome} (hkeeps : S.Keeps D id call strong program world)
    (himp : ∀ value later, strong value later → weak value later) :
    S.Keeps D id call weak program world := by
  have h : S.Keeps D id call weak (program >>= .done) world := hkeeps.bind himp
  rwa [Program.bind_done] at h

/-- A frame keeps the discipline from a world on. -/
private def Continues (S : System Request Reply State Call Outcome)
    (D : Discipline State Reply Outcome) (frame : Frame Reply Outcome)
    (world : World State Reply Outcome) : Prop :=
  S.Keeps D frame.id frame.call (Ends D frame.id frame.call) frame.rest world

/-- A frame keeps the discipline whatever other calls do first. -/
private def Waits (S : System Request Reply State Call Outcome)
    (D : Discipline State Reply Outcome) (frame : Frame Reply Outcome)
    (world : World State Reply Outcome) : Prop :=
  ∀ later, D.Rely frame.id world later → Continues S D frame later

private theorem Waits.of_rely {frame : Frame Reply Outcome}
    {before after : World State Reply Outcome} (hinv : D.Inv before)
    (hwaits : Waits S D frame before) (hrely : D.Rely frame.id before after) :
    Waits S D frame after :=
  fun later hlater => hwaits later (hrely.trans hinv hlater)

/-- The invariant of a run: the innermost call can go on at once, and those that others may come
before can go on after them. -/
private structure Secure (S : System Request Reply State Call Outcome)
    (D : Discipline State Reply Outcome) (moment : Moment State Reply Outcome) : Prop where
  inv : D.Inv moment.world
  top : ∀ frame, moment.frames.head? = some frame → Continues S D frame moment.world ∧
    (frame.isParked = true → Waits S D frame moment.world)
  below : ∀ frame ∈ moment.frames.tail, Waits S D frame moment.world
  numbered : moment.Numbered

namespace Secure

variable {world : World State Reply Outcome} {frames : List (Frame Reply Outcome)} {nextId : Nat}

/-- The frames below the innermost one belong to other calls, so they may go on after it. -/
private theorem waits_below {frame : Frame Reply Outcome} {later : World State Reply Outcome}
    {entry : Entry Reply Outcome} (hsecure : Secure S D ⟨world, frame :: frames, nextId⟩)
    (hinv : D.Inv later) (hrel : D.Rel world later)
    (hhistory : later.history = world.history ++ [entry]) (hentry : entry.id = frame.id) :
    ∀ other ∈ frames, Waits S D other later := by
  intro other hother
  obtain ⟨hnotMem, -⟩ := List.nodup_cons.1 hsecure.numbered.nodup
  have hne : frame.id ≠ other.id := fun h => hnotMem (List.mem_map.2 ⟨other, hother, h.symm⟩)
  have hwaits : Waits S D other world := hsecure.below other hother
  exact hwaits.of_rely hsecure.inv (.of_step hinv hrel hhistory hentry hne)

private theorem called (hupholds : S.Upholds D) (call : Call)
    (hparked : ∀ frame, frames.head? = some frame → frame.isParked = true)
    (hnumbered : Moment.Numbered ⟨world.record ⟨nextId, call, .called⟩,
      ⟨nextId, call, S.program call, false⟩ :: frames, nextId + 1⟩)
    (hsecure : Secure S D ⟨world, frames, nextId⟩) :
    Secure S D ⟨world.record ⟨nextId, call, .called⟩,
      ⟨nextId, call, S.program call, false⟩ :: frames, nextId + 1⟩ := by
  obtain ⟨⟨hinv, hrel⟩, hkeeps⟩ := hupholds world nextId call hsecure.inv
    fun entry hentry => Nat.ne_of_lt (hsecure.numbered.entry_lt entry hentry)
  have hwaits : ∀ frame ∈ frames, Waits S D frame world := by
    intro frame hframe
    cases frames with
    | nil => cases hframe
    | cons top rest =>
      rcases List.mem_cons.1 hframe with rfl | hframe
      · exact (hsecure.top frame rfl).2 (hparked frame rfl)
      · exact hsecure.below frame hframe
  refine ⟨hinv, ?_, ?_, hnumbered⟩
  · intro frame hframe
    cases hframe
    exact ⟨hkeeps, by simp⟩
  · intro frame hframe
    have hlt := hsecure.numbered.frame_lt frame hframe
    exact (hwaits frame hframe).of_rely hsecure.inv
      (.of_step hinv hrel rfl rfl (Nat.ne_of_gt hlt))

private theorem answered {id : Nat} {call : Call} {request : Request}
    {rest : Reply request → Program Request Reply (Outcome call)} {isParked : Bool}
    (hnumbered : Moment.Numbered ⟨S.after world id call request,
      ⟨id, call, rest (S.answer world.state request).1, S.isCheckpoint request⟩ :: frames, nextId⟩)
    (hsecure : Secure S D ⟨world, ⟨id, call, .ask request rest, isParked⟩ :: frames, nextId⟩) :
    Secure S D ⟨S.after world id call request,
      ⟨id, call, rest (S.answer world.state request).1, S.isCheckpoint request⟩ :: frames,
      nextId⟩ := by
  obtain ⟨⟨hinv, hrel, hrest⟩, -⟩ := hsecure.top _ rfl
  refine ⟨hinv, ?_, hsecure.waits_below hinv hrel rfl rfl, hnumbered⟩
  intro frame hframe
  cases hframe
  split at hrest
  · next hcheckpoint => exact ⟨hrest _ (.refl hinv), fun _ => hrest⟩
  · next hcheckpoint => exact ⟨hrest, fun h => absurd h hcheckpoint⟩

private theorem returned {id : Nat} {call : Call} {outcome : Outcome call} {isParked : Bool}
    (hnumbered : Moment.Numbered ⟨world.record ⟨id, call, .returned outcome⟩, frames, nextId⟩)
    (hsecure : Secure S D ⟨world, ⟨id, call, .done outcome, isParked⟩ :: frames, nextId⟩) :
    Secure S D ⟨world.record ⟨id, call, .returned outcome⟩, frames, nextId⟩ := by
  obtain ⟨⟨-, hinv, hrel⟩, -⟩ := hsecure.top _ rfl
  have hwaits := hsecure.waits_below hinv hrel rfl rfl
  refine ⟨hinv, ?_, ?_, hnumbered⟩
  · intro frame hframe
    have h := hwaits frame (List.mem_of_mem_head? hframe)
    exact ⟨h _ (.refl hinv), fun _ => h⟩
  · intro frame hframe
    exact hwaits frame (List.mem_of_mem_tail hframe)

private theorem next (hupholds : S.Upholds D) {moment next : Moment State Reply Outcome}
    {move : Move Call} (hsecure : Secure S D moment) (hnext : S.next? moment move = some next) :
    Secure S D next := by
  have hnumbered := hsecure.numbered.next hnext
  revert hsecure hnumbered
  refine next?_cases (motive := fun moment next => Secure S D moment → next.Numbered →
    Secure S D next) hnext ?_ ?_ ?_
  · intro world frames nextId call hparked hsecure hnumbered
    exact hsecure.called hupholds call hparked hnumbered
  · intro world id call request rest isParked frames nextId hsecure hnumbered
    exact hsecure.answered hnumbered
  · intro world id call outcome isParked frames nextId hsecure hnumbered
    exact hsecure.returned hnumbered

end Secure

private theorem Upholds.secure (hupholds : S.Upholds D) {state : State}
    (hstart : D.Inv ⟨state, []⟩) {moment : Moment State Reply Outcome}
    (hreach : S.Reaches (.start state) moment) : Secure S D moment := by
  have hnumbered : (Moment.start state : Moment State Reply Outcome).Numbered :=
    Reaches.numbered (S := S) ⟨[], rfl⟩
  refine hreach.induct ⟨hstart, ?_, ?_, hnumbered⟩ fun hsecure hnext => hsecure.next hupholds hnext
  all_goals simp [Moment.start]

/-- If every call alone keeps a discipline, then its invariant holds at every moment of every nested
run, however deep the calls are nested. -/
theorem Upholds.inv (hupholds : S.Upholds D) {state : State} (hstart : D.Inv ⟨state, []⟩)
    {moment : Moment State Reply Outcome} (hreach : S.Reaches (.start state) moment) :
    D.Inv moment.world :=
  (hupholds.secure hstart hreach).inv

/-- What the discipline promises of a call is true whenever the call returns. -/
theorem Upholds.post (hupholds : S.Upholds D) {state : State} (hstart : D.Inv ⟨state, []⟩)
    {moment : Moment State Reply Outcome} (hreach : S.Reaches (.start state) moment) {id : Nat}
    {call : Call} {outcome : Outcome call} (hreturns : moment.Returns id call outcome) :
    D.Post id call outcome moment.world := by
  obtain ⟨isParked, frames, hframes⟩ := hreturns
  exact ((hupholds.secure hstart hreach).top ⟨id, call, .done outcome, isParked⟩
    (by rw [hframes]; rfl)).1.1

private theorem Secure.rel (hupholds : S.Upholds D) {moment next : Moment State Reply Outcome}
    {move : Move Call} (hsecure : Secure S D moment) (hnext : S.next? moment move = some next) :
    D.Rel moment.world next.world := by
  revert hsecure
  refine next?_cases (motive := fun moment next => Secure S D moment →
    D.Rel moment.world next.world) hnext ?_ ?_ ?_
  · intro world frames nextId call _ hsecure
    exact (hupholds world nextId call hsecure.inv fun entry hentry =>
      Nat.ne_of_lt (hsecure.numbered.entry_lt entry hentry)).1.2
  · intro world id call request rest isParked frames nextId hsecure
    exact (hsecure.top _ rfl).1.2.1
  · intro world id call outcome isParked frames nextId hsecure
    exact (hsecure.top _ rfl).1.2.2

/-- Whatever happens from one moment of a run to another respects the relation of a discipline. -/
theorem Upholds.rel (hupholds : S.Upholds D) {state : State} (hstart : D.Inv ⟨state, []⟩)
    {moment later : Moment State Reply Outcome} (hreach : S.Reaches (.start state) moment)
    (hlater : S.Reaches moment later) : D.Rel moment.world later.world := by
  have hsecure := hupholds.secure hstart hreach
  have hrel : Secure S D later ∧ D.Rel moment.world later.world := by
    refine hlater.induct (P := fun later => Secure S D later ∧ D.Rel moment.world later.world)
      ⟨hsecure, D.refl hsecure.inv⟩ ?_
    rintro mid next move ⟨hmid, hrel⟩ hnext
    exact ⟨hmid.next hupholds hnext,
      D.trans hsecure.inv hmid.inv hrel (hmid.rel hupholds hnext)⟩
  exact hrel.2

end System

end EventSourcing.Interleaving
