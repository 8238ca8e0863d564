import EventSourcing.Proofs.Interleaving.Tracing

namespace EventSourcing.Interleaving.System

variable {Request : Type} {Reply : Request → Type} {State Call : Type} {Outcome : Call → Type}
  {S : System Request Reply State Call Outcome} {state : State}
  {moment next : Moment State Reply Outcome}

theorem Reaches.concat {start : Moment State Reply Outcome} {move : Move Call}
    (hreach : S.Reaches start moment) (hnext : S.next? moment move = some next) :
    S.Reaches start next :=
  hreach.trans (.of_next? hnext ⟨[], rfl⟩)

/-- Every move is told by one entry. -/
theorem exists_history_next? {move : Move Call} (hnext : S.next? moment move = some next) :
    ∃ entry, next.world.history = moment.world.history ++ [entry] :=
  next?_cases (motive := fun moment next =>
      ∃ entry, next.world.history = moment.world.history ++ [entry]) hnext
    (fun _ _ _ _ _ => ⟨_, rfl⟩) (fun _ _ _ _ _ _ _ _ => ⟨_, rfl⟩) fun _ _ _ _ _ _ _ => ⟨_, rfl⟩

/-- Every entry was made by a move, at an earlier moment of the run. -/
theorem Reaches.exists_next? (hreach : S.Reaches (.start state) moment)
    {before after : List (Entry Reply Outcome)} {entry : Entry Reply Outcome}
    (hsplit : moment.world.history = before ++ entry :: after) :
    ∃ mid next move, S.Reaches (.start state) mid ∧ mid.world.history = before ∧
      S.next? mid move = some next ∧ next.world.history = before ++ [entry] ∧
      S.Reaches next moment := by
  have hentries : S.Reaches (.start state) moment ∧
      ∀ before entry after, moment.world.history = before ++ entry :: after →
        ∃ mid next move, S.Reaches (.start state) mid ∧ mid.world.history = before ∧
          S.next? mid move = some next ∧ next.world.history = before ++ [entry] ∧
          S.Reaches next moment := by
    refine hreach.induct (P := fun moment => S.Reaches (.start state) moment ∧
      ∀ before entry after, moment.world.history = before ++ entry :: after →
        ∃ mid next move, S.Reaches (.start state) mid ∧ mid.world.history = before ∧
          S.next? mid move = some next ∧ next.world.history = before ++ [entry] ∧
          S.Reaches next moment) ⟨⟨[], rfl⟩, fun before entry after hnil => ?_⟩ ?_
    · simp [Moment.start] at hnil
    · rintro moment next move ⟨hmoment, hold⟩ hnext
      refine ⟨hmoment.concat hnext, fun before entry after hsplit => ?_⟩
      obtain ⟨last, hhistory⟩ := exists_history_next? hnext
      rcases concat_eq_append_cons (hhistory.symm.trans hsplit) with
        ⟨rest, -, hbefore⟩ | ⟨-, rfl, rfl⟩
      · obtain ⟨mid, later, first, hmid, hhere, hfirst, hlater, hrest⟩ :=
          hold before entry rest hbefore
        exact ⟨mid, later, first, hmid, hhere, hfirst, hlater, hrest.concat hnext⟩
      · exact ⟨moment, next, move, hmoment, rfl, hnext, hhistory, ⟨[], rfl⟩⟩
  exact hentries.2 before entry after hsplit

/-- A request was answered from the state of its moment. -/
theorem Reaches.exists_answer (hreach : S.Reaches (.start state) moment)
    {before after : List (Entry Reply Outcome)} {id : Nat} {call : Call} {request : Request}
    {reply : Reply request}
    (hsplit : moment.world.history = before ++ ⟨id, call, .answered request reply⟩ :: after) :
    ∃ mid next, S.Reaches (.start state) mid ∧ mid.world.history = before ∧
      S.answer mid.world.state request = (reply, next.world.state) ∧
      next.world.history = before ++ [⟨id, call, .answered request reply⟩] ∧
      S.Reaches (.start state) next ∧ S.Reaches next moment := by
  obtain ⟨mid, next, move, hmid, rfl, hnext, hhistory, hrest⟩ := hreach.exists_next? hsplit
  refine ⟨mid, next, hmid, rfl, ?_, hhistory, hmid.concat hnext, hrest⟩
  revert hhistory
  refine next?_cases (motive := fun mid next =>
    next.world.history = mid.world.history ++ [⟨id, call, .answered request reply⟩] →
      S.answer mid.world.state request = (reply, next.world.state)) hnext ?_ ?_ ?_
  · intro world frames nextId other _ hlast
    cases List.singleton_inj.1 (List.append_cancel_left hlast)
  · intro world number other asked rest isParked frames nextId hlast
    cases List.singleton_inj.1 (List.append_cancel_left hlast)
    rfl
  · intro world number other outcome isParked frames nextId hlast
    cases List.singleton_inj.1 (List.append_cancel_left hlast)

/-- Every beginning of the history of a run is the history of an earlier moment of it. -/
theorem Reaches.exists_before (hreach : S.Reaches (.start state) moment)
    {before : List (Entry Reply Outcome)} (hpart : before <+: moment.world.history) :
    ∃ mid, S.Reaches (.start state) mid ∧ mid.world.history = before ∧ S.Reaches mid moment := by
  obtain ⟨rest, hsplit⟩ := hpart
  cases rest with
  | nil => exact ⟨moment, hreach, (List.append_nil before).symm.trans hsplit |>.symm, ⟨[], rfl⟩⟩
  | cons entry rest =>
    obtain ⟨mid, next, move, hmid, hhere, hnext, -, hrest⟩ := hreach.exists_next? hsplit.symm
    exact ⟨mid, hmid, hhere, hrest.of_next? hnext⟩

/-- Numbers grow from the outermost call in flight to the innermost, and since a call in flight has
begun, only it and calls that began later have done something. -/
private structure Nested (moment : Moment State Reply Outcome) : Prop where
  numbered : moment.Numbered
  sorted : moment.frames.Pairwise fun inner outer => outer.id < inner.id
  since : ∀ frame ∈ moment.frames, ∀ before call after,
    moment.world.history = before ++ ⟨frame.id, call, .called⟩ :: after →
      ∀ entry ∈ after, frame.id ≤ entry.id

/-- The innermost call does something, or returns. -/
private theorem Nested.concat {world later : World State Reply Outcome}
    {frame : Frame Reply Outcome} {rest frames : List (Frame Reply Outcome)} {nextId : Nat}
    {last : Entry Reply Outcome} (hnested : Nested ⟨world, frame :: rest, nextId⟩)
    (hnumbered : Moment.Numbered ⟨later, frames, nextId⟩)
    (hhistory : later.history = world.history ++ [last]) (hid : last.id = frame.id)
    (hframes : frames = rest ∨ ∃ next, frames = next :: rest ∧ next.id = frame.id) :
    Nested ⟨later, frames, nextId⟩ := by
  obtain ⟨hinner, hrest⟩ := List.pairwise_cons.1 hnested.sorted
  have hsame : ∀ other ∈ frames, ∃ same ∈ frame :: rest, other.id = same.id := by
    intro other hother
    rcases hframes with rfl | ⟨next, rfl, hnext⟩
    · exact ⟨other, List.mem_cons_of_mem _ hother, rfl⟩
    · rcases List.mem_cons.1 hother with rfl | hother
      · exact ⟨frame, List.mem_cons_self, hnext⟩
      · exact ⟨other, List.mem_cons_of_mem _ hother, rfl⟩
  have hle : ∀ same ∈ frame :: rest, same.id ≤ last.id := by
    intro same hmem
    rw [hid]
    rcases List.mem_cons.1 hmem with rfl | hmem
    · exact Nat.le_refl _
    · exact Nat.le_of_lt (hinner same hmem)
  refine ⟨hnumbered, ?_, ?_⟩
  · rcases hframes with rfl | ⟨next, rfl, hnext⟩
    · exact hrest
    · refine List.pairwise_cons.2 ⟨fun outer houter => ?_, hrest⟩
      rw [hnext]
      exact hinner outer houter
  · intro other hother before call after hsplit entry hentry
    obtain ⟨same, hmem, heq⟩ := hsame other hother
    rw [heq] at hsplit ⊢
    rcases concat_eq_append_cons (hhistory.symm.trans hsplit) with
      ⟨between, rfl, hbefore⟩ | ⟨rfl, -, -⟩
    · rcases List.mem_append.1 hentry with h | h
      · exact hnested.since same hmem before call between hbefore entry h
      · rw [List.mem_singleton.1 h]
        exact hle same hmem
    · cases hentry

private theorem Nested.move {move : Move Call} (hnested : Nested moment)
    (hnext : S.next? moment move = some next) : Nested next := by
  have hnumbered := hnested.numbered.next hnext
  revert hnested hnumbered
  refine next?_cases (motive := fun moment next => Nested moment → next.Numbered → Nested next)
    hnext ?_ ?_ ?_
  · intro world frames nextId call _ hnested hnumbered
    refine ⟨hnumbered, List.pairwise_cons.2 ⟨hnested.numbered.frame_lt, hnested.sorted⟩, ?_⟩
    intro frame hframe before other after hsplit entry hentry
    rcases concat_eq_append_cons hsplit with ⟨between, rfl, hbefore⟩ | ⟨rfl, -, -⟩
    · rcases List.mem_cons.1 hframe with rfl | hframe
      · have hold : (⟨nextId, other, .called⟩ : Entry Reply Outcome) ∈ world.history := by
          simp [hbefore]
        exact absurd (hnested.numbered.entry_lt _ hold) (Nat.lt_irrefl _)
      · rcases List.mem_append.1 hentry with h | h
        · exact hnested.since frame hframe before other between hbefore entry h
        · rw [List.mem_singleton.1 h]
          exact Nat.le_of_lt (hnested.numbered.frame_lt frame hframe)
    · cases hentry
  · intro world id call request rest isParked frames nextId hnested hnumbered
    exact hnested.concat hnumbered rfl rfl (.inr ⟨_, rfl, rfl⟩)
  · intro world id call outcome isParked frames nextId hnested hnumbered
    exact hnested.concat hnumbered rfl rfl (.inl rfl)

private theorem Reaches.isNested (hreach : S.Reaches (.start state) moment) : Nested moment := by
  refine hreach.induct ⟨Reaches.numbered (S := S) ⟨[], rfl⟩, ?_, ?_⟩ fun hnested hnext =>
    hnested.move hnext
  all_goals simp [Moment.start]

/-- Calls are numbered in the order in which they begin. -/
theorem Reaches.id_lt_of_called (hreach : S.Reaches (.start state) moment) {id : Nat} {call : Call}
    {before after : List (Entry Reply Outcome)}
    (hsplit : moment.world.history = before ++ ⟨id, call, .called⟩ :: after) :
    ∀ entry ∈ before, entry.id < id := by
  obtain ⟨mid, next, move, hmid, rfl, hnext, hhistory, -⟩ := hreach.exists_next? hsplit
  have hnumbered := hmid.numbered
  revert hhistory hnumbered
  refine next?_cases (motive := fun mid next =>
    next.world.history = mid.world.history ++ [⟨id, call, .called⟩] → mid.Numbered →
      ∀ entry ∈ mid.world.history, entry.id < id) hnext ?_ ?_ ?_
  · intro world frames nextId other _ hlast hnumbered
    cases List.singleton_inj.1 (List.append_cancel_left hlast)
    exact hnumbered.entry_lt
  · intro world number other asked rest isParked frames nextId hlast
    cases List.singleton_inj.1 (List.append_cancel_left hlast)
  · intro world number other outcome isParked frames nextId hlast
    cases List.singleton_inj.1 (List.append_cancel_left hlast)

/-- Nested calls come to their ends first: from its beginning up to whatever it does later, no call
that began before a call does anything. -/
theorem Reaches.id_le_of_between (hreach : S.Reaches (.start state) moment) {id : Nat} {call : Call}
    {before between after : List (Entry Reply Outcome)} {entry : Entry Reply Outcome}
    (hsplit : moment.world.history = before ++ ⟨id, call, .called⟩ :: (between ++ entry :: after))
    (hid : entry.id = id) : ∀ other ∈ between, id ≤ other.id := by
  rw [← List.cons_append, ← List.append_assoc] at hsplit
  obtain ⟨mid, next, move, hmid, hhere, hnext, hhistory, -⟩ := hreach.exists_next? hsplit
  have hnested := hmid.isNested
  rw [← hhere] at hhistory
  revert hhere hhistory hnested
  refine next?_cases (motive := fun mid next =>
    mid.world.history = before ++ ⟨id, call, .called⟩ :: between →
      next.world.history = mid.world.history ++ [entry] → Nested mid →
        ∀ other ∈ between, id ≤ other.id) hnext ?_ ?_ ?_
  · intro world frames nextId other _ hhere hlast hnested
    obtain rfl := List.singleton_inj.1 (List.append_cancel_left hlast)
    have hbegun : (⟨id, call, .called⟩ : Entry Reply Outcome) ∈ world.history := by
      rw [(hhere : world.history = _)]
      simp
    have hlt := hnested.numbered.entry_lt _ hbegun
    exact absurd hid (Nat.ne_of_gt hlt)
  · intro world number other asked rest isParked frames nextId hhere hlast hnested
    obtain rfl := List.singleton_inj.1 (List.append_cancel_left hlast)
    obtain rfl : number = id := hid
    exact hnested.since _ List.mem_cons_self before call between hhere
  · intro world number other outcome isParked frames nextId hhere hlast hnested
    obtain rfl := List.singleton_inj.1 (List.append_cancel_left hlast)
    obtain rfl : number = id := hid
    exact hnested.since _ List.mem_cons_self before call between hhere

/-- Every call in flight has begun. -/
private theorem Reaches.called_of_frame (hreach : S.Reaches (.start state) moment) :
    ∀ frame ∈ moment.frames, ⟨frame.id, frame.call, .called⟩ ∈ moment.world.history := by
  refine hreach.induct (P := fun moment => ∀ frame ∈ moment.frames,
    ⟨frame.id, frame.call, .called⟩ ∈ moment.world.history) (by simp [Moment.start]) ?_
  intro moment next move hcalled hnext
  revert hcalled
  refine next?_cases (motive := fun moment next =>
    (∀ frame ∈ moment.frames, ⟨frame.id, frame.call, .called⟩ ∈ moment.world.history) →
      ∀ frame ∈ next.frames, ⟨frame.id, frame.call, .called⟩ ∈ next.world.history) hnext ?_ ?_ ?_
  · intro world frames nextId call _ hcalled frame hframe
    rcases List.mem_cons.1 hframe with rfl | hframe
    · exact List.mem_append_right _ List.mem_cons_self
    · exact List.mem_append_left _ (hcalled frame hframe)
  · intro world id call request rest isParked frames nextId hcalled frame hframe
    refine List.mem_append_left _ ?_
    rcases List.mem_cons.1 hframe with rfl | hframe
    · exact hcalled ⟨id, call, .ask request rest, isParked⟩ List.mem_cons_self
    · exact hcalled frame (List.mem_cons_of_mem _ hframe)
  · intro world id call outcome isParked frames nextId hcalled frame hframe
    exact List.mem_append_left _ (hcalled frame (List.mem_cons_of_mem _ hframe))

/-- A call has begun when it is told something. -/
theorem Reaches.called_before (hreach : S.Reaches (.start state) moment) {id : Nat} {call : Call}
    {request : Request} {reply : Reply request} {before after : List (Entry Reply Outcome)}
    (hsplit : moment.world.history = before ++ ⟨id, call, .answered request reply⟩ :: after) :
    ⟨id, call, .called⟩ ∈ before := by
  obtain ⟨mid, next, move, hmid, rfl, hnext, hhistory, -⟩ := hreach.exists_next? hsplit
  have hcalled := hmid.called_of_frame
  revert hhistory hcalled
  refine next?_cases (motive := fun mid next =>
    next.world.history = mid.world.history ++ [⟨id, call, .answered request reply⟩] →
      (∀ frame ∈ mid.frames, ⟨frame.id, frame.call, .called⟩ ∈ mid.world.history) →
        ⟨id, call, .called⟩ ∈ mid.world.history) hnext ?_ ?_ ?_
  · intro world frames nextId other _ hlast
    cases List.singleton_inj.1 (List.append_cancel_left hlast)
  · intro world number other asked rest isParked frames nextId hlast hcalled
    cases List.singleton_inj.1 (List.append_cancel_left hlast)
    exact hcalled _ List.mem_cons_self
  · intro world number other outcome isParked frames nextId hlast
    cases List.singleton_inj.1 (List.append_cancel_left hlast)

/-- What a call is told first stands right behind its beginning. -/
private theorem Reaches.told_first (hreach : S.Reaches (.start state) moment) {id : Nat}
    {call : Call} {request : Request} {reply : Reply request}
    {before after : List (Entry Reply Outcome)}
    (hsplit : moment.world.history = before ++ ⟨id, call, .answered request reply⟩ :: after)
    (hfirst : exchangesOf id before = []) : ∃ older, before = older ++ [⟨id, call, .called⟩] := by
  obtain ⟨older, rest, rfl⟩ := List.append_of_mem (hreach.called_before hsplit)
  cases rest with
  | nil => exact ⟨older, rfl⟩
  | cons next rest =>
    -- The call would have been told something else before, or would have returned.
    have hbehind : moment.world.history = older ++ ⟨id, call, .called⟩ :: next ::
        (rest ++ ⟨id, call, .answered request reply⟩ :: after) := by
      simp [hsplit]
    obtain ⟨asked, told, rfl⟩ | ⟨⟨outcome, rfl⟩, -⟩ := hreach.told_next hbehind rfl
    · have hnone : exchangesOf id (⟨id, call, .answered asked told⟩ :: rest :
          List (Entry Reply Outcome)) = [] := by
        rw [List.append_cons, exchangesOf_append, List.append_eq_nil_iff] at hfirst
        exact hfirst.2
      rw [exchangesOf_cons_answered] at hnone
      cases hnone
    · have hreturned : moment.world.history = (older ++ [⟨id, call, .called⟩]) ++
          ⟨id, call, .returned outcome⟩ :: (rest ++ ⟨id, call, .answered request reply⟩ ::
            after) := by
        simp [hsplit]
      have hnothing := (hreach.numbered.returned _ _ _ _ _ hreturned).1
      exact absurd rfl (hnothing ⟨id, call, .answered request reply⟩ (by simp))

/-- Whoever does something between what a call is told first and what it does later has not been
told anything before that. -/
theorem Reaches.untold_before (hreach : S.Reaches (.start state) moment) {id : Nat} {call : Call}
    {request : Request} {reply : Reply request} {before between after : List (Entry Reply Outcome)}
    {entry : Entry Reply Outcome}
    (hsplit : moment.world.history =
      before ++ ⟨id, call, .answered request reply⟩ :: (between ++ entry :: after))
    (hfirst : exchangesOf id before = []) (hid : entry.id = id) :
    ∀ other ∈ between, exchangesOf other.id before = [] := by
  intro other hother
  obtain ⟨older, rfl⟩ := hreach.told_first hsplit hfirst
  have hbegun : moment.world.history = older ++ ⟨id, call, .called⟩ ::
      ((⟨id, call, .answered request reply⟩ :: between) ++ entry :: after) := by
    simp [hsplit]
  have hle := hreach.id_le_of_between hbegun hid other (List.mem_cons_of_mem _ hother)
  rcases Nat.eq_or_lt_of_le hle with rfl | hlt
  · exact hfirst
  · rw [exchangesOf_concat_of_none fun _ => rfl]
    refine exchangesOf_eq_nil fun earlier hearlier => ?_
    have hearly := hreach.id_lt_of_called hbegun earlier hearlier
    lia

end EventSourcing.Interleaving.System
