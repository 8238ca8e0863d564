import EventSourcing.Proofs.Interleaving.Run
import EventSourcing.Proofs.Transcript

namespace EventSourcing.Interleaving

open Program

variable {Request : Type} {Reply : Request → Type} {State Call : Type} {Outcome : Call → Type}

/-- What an entry tells of a request and the reply to it. -/
def Entry.exchange? (entry : Entry Reply Outcome) : Option (Exchange Reply) :=
  match entry.action with
  | .answered request reply => some ⟨request, reply⟩
  | _ => none

/-- What a call has asked and been told, by a history. -/
def exchangesOf (id : Nat) (history : List (Entry Reply Outcome)) : List (Exchange Reply) :=
  history.filterMap fun entry => if entry.id = id then entry.exchange? else none

variable {id : Nat} {history : List (Entry Reply Outcome)}

theorem exchangesOf_append (id : Nat) (first second : List (Entry Reply Outcome)) :
    exchangesOf id (first ++ second) = exchangesOf id first ++ exchangesOf id second :=
  List.filterMap_append

theorem exchangesOf_eq_nil (hother : ∀ entry ∈ history, entry.id ≠ id) :
    exchangesOf id history = [] :=
  List.filterMap_eq_nil_iff.2 fun entry hentry => if_neg (hother entry hentry)

/-- An entry that asks for nothing, or is of another call, adds nothing. -/
theorem exchangesOf_concat_of_none {entry : Entry Reply Outcome}
    (hnone : entry.id = id → entry.exchange? = none) :
    exchangesOf id (history ++ [entry]) = exchangesOf id history := by
  have hlast : exchangesOf id [entry] = [] := by
    refine List.filterMap_eq_nil_iff.2 fun other hother => ?_
    rw [List.mem_singleton.1 hother]
    by_cases hid : entry.id = id
    · rw [if_pos hid]
      exact hnone hid
    · exact if_neg hid
  rw [exchangesOf_append, hlast, List.append_nil]

theorem exchangesOf_cons_answered (id : Nat) (call : Call) (request : Request)
    (reply : Reply request) (history : List (Entry Reply Outcome)) :
    exchangesOf id (⟨id, call, .answered request reply⟩ :: history) =
      ⟨request, reply⟩ :: exchangesOf id history :=
  List.filterMap_cons_some (if_pos rfl)

theorem exchangesOf_concat_answered (history : List (Entry Reply Outcome)) (id : Nat) (call : Call)
    (request : Request) (reply : Reply request) :
    exchangesOf id (history ++ [⟨id, call, .answered request reply⟩]) =
      exchangesOf id history ++ [⟨request, reply⟩] := by
  rw [exchangesOf_append, exchangesOf_cons_answered]
  rfl

/-- Where an exchange of a call stands in the history. -/
theorem exists_of_mem_exchangesOf {exchange : Exchange Reply}
    (hmem : exchange ∈ exchangesOf id history) :
    ∃ call, ⟨id, call, .answered exchange.request exchange.reply⟩ ∈ history := by
  obtain ⟨entry, hentry, hexchange⟩ := List.mem_filterMap.1 hmem
  split at hexchange
  · next hid =>
    obtain ⟨number, call, action⟩ := entry
    obtain rfl : number = id := hid
    cases action with
    | answered request reply =>
      cases hexchange
      exact ⟨call, hentry⟩
    | called => cases hexchange
    | returned outcome => cases hexchange
  · cases hexchange

/-- A history is split where the exchanges of a call are split. -/
theorem exists_split_of_exchangesOf {early late : List (Exchange Reply)} {exchange : Exchange Reply}
    (hexchanges : exchangesOf id history = early ++ exchange :: late) :
    ∃ before call after,
      history = before ++ ⟨id, call, .answered exchange.request exchange.reply⟩ :: after ∧
        exchangesOf id before = early ∧ exchangesOf id after = late := by
  obtain ⟨first, second, rfl, hfirst, hsecond⟩ := List.filterMap_eq_append_iff.1 hexchanges
  obtain ⟨skipped, entry, rest, rfl, hskipped, hentry, hrest⟩ :=
    List.filterMap_eq_cons_iff.1 hsecond
  split at hentry
  · next hid =>
    obtain ⟨number, call, action⟩ := entry
    obtain rfl : number = id := hid
    cases action with
    | called => cases hentry
    | returned outcome => cases hentry
    | answered request reply =>
      cases hentry
      have hnone : exchangesOf number skipped = [] := List.filterMap_eq_nil_iff.2 hskipped
      refine ⟨first ++ skipped, call, rest, (List.append_assoc ..).symm, ?_, hrest⟩
      rw [exchangesOf_append, hnone, List.append_nil]
      exact hfirst
  · cases hentry

namespace System

variable {S : System Request Reply State Call Outcome} {state : State}
  {moment : Moment State Reply Outcome}

/-- Calls in flight are where their exchanges lead, and calls that have returned have come to
their ends with theirs. -/
private structure Traced (S : System Request Reply State Call Outcome)
    (moment : Moment State Reply Outcome) : Prop where
  numbered : moment.Numbered
  leads : ∀ frame ∈ moment.frames, (S.program frame.call).Leads
    (exchangesOf frame.id moment.world.history) frame.rest
  yields : ∀ id call outcome, ⟨id, call, .returned outcome⟩ ∈ moment.world.history →
    (S.program call).Yields (exchangesOf id moment.world.history) outcome

private theorem Traced.next {next : Moment State Reply Outcome} {move : Move Call}
    (htraced : Traced S moment) (hnext : S.next? moment move = some next) : Traced S next := by
  have hnumbered := htraced.numbered.next hnext
  revert htraced hnumbered
  refine next?_cases (motive := fun moment next => Traced S moment → next.Numbered →
    Traced S next) hnext ?_ ?_ ?_
  · intro world frames nextId call _ htraced hnumbered
    have hsame : ∀ id, exchangesOf id (world.history ++ [⟨nextId, call, .called⟩]) =
        exchangesOf id world.history := fun id => exchangesOf_concat_of_none fun _ => rfl
    refine ⟨hnumbered, fun frame hframe => ?_, fun id other outcome hreturned => ?_⟩
    · rw [World.record_history, hsame]
      rcases List.mem_cons.1 hframe with rfl | hframe
      · rw [exchangesOf_eq_nil fun entry hentry =>
          Nat.ne_of_lt (htraced.numbered.entry_lt entry hentry)]
        exact .nil _
      · exact htraced.leads frame hframe
    · rw [World.record_history, hsame]
      rcases List.mem_append.1 hreturned with h | h
      · exact htraced.yields id other outcome h
      · cases List.mem_singleton.1 h
  · intro world id call request rest isParked frames nextId htraced hnumbered
    have hnew := exchangesOf_concat_answered world.history id call request
      (S.answer world.state request).1
    have hsame : ∀ other, other ≠ id →
        exchangesOf other (S.after world id call request).history =
          exchangesOf other world.history := by
      intro other hne
      exact exchangesOf_concat_of_none fun hid => absurd hid.symm hne
    refine ⟨hnumbered, fun frame hframe => ?_, fun other call' outcome hreturned => ?_⟩
    · rcases List.mem_cons.1 hframe with rfl | hframe
      · have hleads := htraced.leads _ List.mem_cons_self
        exact hnew.symm ▸ hleads.concat _
      · have hne : frame.id ≠ id := by
          intro hid
          have hnodup := (List.nodup_cons.1 htraced.numbered.nodup).1
          exact hnodup (List.mem_map.2 ⟨frame, hframe, hid⟩)
        rw [hsame _ hne]
        exact htraced.leads frame (List.mem_cons_of_mem _ hframe)
    · rcases List.mem_append.1 hreturned with h | h
      · obtain ⟨before, after, hsplit⟩ := List.append_of_mem h
        have hne : other ≠ id := fun hid =>
          (htraced.numbered.returned _ _ _ _ _ hsplit).2 _ List.mem_cons_self hid.symm
        rw [hsame _ hne]
        exact htraced.yields other call' outcome h
      · cases List.mem_singleton.1 h
  · intro world id call outcome isParked frames nextId htraced hnumbered
    have hsame : ∀ other, exchangesOf other (world.history ++ [⟨id, call, .returned outcome⟩]) =
        exchangesOf other world.history := fun other => exchangesOf_concat_of_none fun _ => rfl
    refine ⟨hnumbered, fun frame hframe => ?_, fun other call' outcome' hreturned => ?_⟩
    · rw [World.record_history, hsame]
      exact htraced.leads frame (List.mem_cons_of_mem _ hframe)
    · rw [World.record_history, hsame]
      rcases List.mem_append.1 hreturned with h | h
      · exact htraced.yields other call' outcome' h
      · cases List.mem_singleton.1 h
        exact leads_done_iff.1 (htraced.leads _ List.mem_cons_self)

private theorem Reaches.traced (hreach : S.Reaches (.start state) moment) : Traced S moment := by
  refine hreach.induct ⟨Reaches.numbered (S := S) ⟨[], rfl⟩, ?_, ?_⟩ fun htraced hnext =>
    htraced.next hnext
  all_goals simp [Moment.start]

/-- A call that has returned has asked and been told what its program leads to its outcome. -/
theorem Reaches.yields (hreach : S.Reaches (.start state) moment) {call : Call}
    {outcome : Outcome call} (hreturned : ⟨id, call, .returned outcome⟩ ∈ moment.world.history) :
    (S.program call).Yields (exchangesOf id moment.world.history) outcome :=
  hreach.traced.yields id call outcome hreturned

/-- Whatever a call has asked and been told so far leads its program on. -/
theorem Reaches.exists_leads (hreach : S.Reaches (.start state) moment)
    {entry : Entry Reply Outcome} (hentry : entry ∈ moment.world.history) :
    ∃ rest, (S.program entry.call).Leads (exchangesOf entry.id moment.world.history) rest := by
  rcases hreach.in_flight_or_returned hentry with ⟨frame, hframe, hid⟩ | ⟨call, outcome, hreturned⟩
  · have hcall : frame.call = entry.call := hreach.frame_call_eq hframe hentry hid
    rw [← hcall, ← hid]
    exact ⟨frame.rest, hreach.traced.leads frame hframe⟩
  · have hcall : entry.call = call := hreach.call_eq hentry hreturned rfl
    rw [hcall]
    exact ⟨_, leads_done_iff.2 (hreach.yields hreturned)⟩

/-- Nothing stands before the beginning of a call that is its own. -/
private def BeginsFirst (id : Nat) (call : Call) (moment : Moment State Reply Outcome) : Prop :=
  ∀ before after, moment.world.history = before ++ ⟨id, call, .called⟩ :: after →
    ∀ entry ∈ before, entry.id ≠ id

private theorem BeginsFirst.next {next : Moment State Reply Outcome} {move : Move Call}
    {call : Call} (hnumbered : moment.Numbered) (hfirst : BeginsFirst id call moment)
    (hnext : S.next? moment move = some next) : BeginsFirst id call next := by
  revert hnumbered hfirst
  refine next?_cases (motive := fun moment next => moment.Numbered →
    BeginsFirst id call moment → BeginsFirst id call next) hnext ?_ ?_ ?_
  · intro world frames nextId other _ hnumbered hfirst before after hsplit
    rcases concat_eq_append_cons hsplit with ⟨rest, -, hold⟩ | ⟨-, heq, rfl⟩
    · exact hfirst before rest hold
    · cases heq
      exact fun entry hentry => Nat.ne_of_lt (hnumbered.entry_lt entry hentry)
  · intro world number other request rest isParked frames nextId _ hfirst before after hsplit
    rcases concat_eq_append_cons hsplit with ⟨rest, -, hold⟩ | ⟨-, heq, -⟩
    · exact hfirst before rest hold
    · cases heq
  · intro world number other outcome isParked frames nextId _ hfirst before after hsplit
    rcases concat_eq_append_cons hsplit with ⟨rest, -, hold⟩ | ⟨-, heq, -⟩
    · exact hfirst before rest hold
    · cases heq

/-- A call does nothing before it begins. -/
theorem Reaches.called_first (hreach : S.Reaches (.start state) moment) {call : Call}
    {before after : List (Entry Reply Outcome)}
    (hsplit : moment.world.history = before ++ ⟨id, call, .called⟩ :: after) :
    ∀ entry ∈ before, entry.id ≠ id := by
  have hfirst : moment.Numbered ∧ BeginsFirst id call moment := by
    refine hreach.induct (P := fun moment => moment.Numbered ∧ BeginsFirst id call moment)
      ⟨Reaches.numbered (S := S) ⟨[], rfl⟩, fun before after hnil => ?_⟩ ?_
    · simp [Moment.start] at hnil
    · rintro moment next move ⟨hnumbered, hfirst⟩ hnext
      exact ⟨hnumbered.next hnext, hfirst.next hnumbered hnext⟩
  exact hfirst.2 before after hsplit

/-- Where no others may run, the call is told something next, or it returns and that is all it has
been told. -/
theorem Reaches.told_next (hreach : S.Reaches (.start state) moment)
    {before after : List (Entry Reply Outcome)} {entry next : Entry Reply Outcome}
    (hsplit : moment.world.history = before ++ entry :: next :: after)
    (hpause : S.pausesAt entry = false) :
    (∃ request reply, next = ⟨entry.id, entry.call, .answered request reply⟩) ∨
      (∃ outcome, next = ⟨entry.id, entry.call, .returned outcome⟩) ∧
        exchangesOf entry.id moment.world.history = exchangesOf entry.id (before ++ [entry]) := by
  have hagain : moment.world.history = (before ++ [entry]) ++ next :: after := by simp [hsplit]
  have hentry : entry ∈ moment.world.history := by simp [hsplit]
  have hnext : next ∈ moment.world.history := by simp [hsplit]
  have hid : next.id = entry.id := hreach.goes_straight_on hsplit hpause
  have hcall : next.call = entry.call := hreach.call_eq hnext hentry hid
  obtain ⟨id, call, action⟩ := next
  obtain rfl : id = entry.id := hid
  obtain rfl : call = entry.call := hcall
  cases action with
  | called => exact absurd rfl (hreach.called_first hagain entry (by simp))
  | answered request reply => exact .inl ⟨request, reply, rfl⟩
  | returned outcome =>
    have hafter : exchangesOf entry.id after = [] :=
      exchangesOf_eq_nil (hreach.numbered.returned _ _ _ _ _ hagain).1
    refine .inr ⟨⟨outcome, rfl⟩, ?_⟩
    rw [hagain, List.append_cons, exchangesOf_append, hafter, List.append_nil]
    exact exchangesOf_concat_of_none fun _ => rfl

/-- A call begins with the first request of its program, before any other call does something. -/
theorem Reaches.begins (hreach : S.Reaches (.start state) moment) {call : Call} {request : Request}
    {rest : Reply request → Program Request Reply (Outcome call)}
    {before after : List (Entry Reply Outcome)} {next : Entry Reply Outcome}
    (hprogram : S.program call = .ask request rest)
    (hsplit : moment.world.history = before ++ ⟨id, call, .called⟩ :: next :: after) :
    ∃ reply, next = ⟨id, call, .answered request reply⟩ := by
  have hcalled : ⟨id, call, .called⟩ ∈ moment.world.history := by simp [hsplit]
  have hnone : exchangesOf id (before ++ [⟨id, call, .called⟩]) = [] := by
    rw [exchangesOf_concat_of_none fun _ => rfl]
    exact exchangesOf_eq_nil (hreach.called_first hsplit)
  obtain ⟨asked, reply, rfl⟩ | ⟨⟨outcome, rfl⟩, hall⟩ := hreach.told_next hsplit rfl
  · have hexchanges : exchangesOf id moment.world.history =
        ⟨asked, reply⟩ :: exchangesOf id after := by
      rw [hsplit, List.append_cons, exchangesOf_append, hnone, List.nil_append]
      exact exchangesOf_cons_answered ..
    obtain ⟨later, hleads⟩ := hreach.exists_leads hcalled
    rw [hprogram, hexchanges] at hleads
    cases hleads with
    | cons _ => exact ⟨_, rfl⟩
  · have hreturned : ⟨id, call, .returned outcome⟩ ∈ moment.world.history := by simp [hsplit]
    have hyields := hreach.yields hreturned
    rw [hall, hnone, hprogram] at hyields
    obtain ⟨_, _, hnil, -⟩ := hyields
    cases hnil

/-- When a call does something, what it was told last stands right before that, if no others may run
in between. -/
theorem Reaches.told_before (hreach : S.Reaches (.start state) moment)
    {before after : List (Entry Reply Outcome)} {next : Entry Reply Outcome}
    (hsplit : moment.world.history = before ++ next :: after)
    {early : List (Exchange Reply)} {request : Request} {reply : Reply request}
    (htold : exchangesOf next.id before = early ++ [⟨request, reply⟩])
    (hcheckpoint : S.isCheckpoint request = false) :
    ∃ older, before = older ++ [⟨next.id, next.call, .answered request reply⟩] := by
  obtain ⟨older, call, rest, rfl, -, hrest⟩ := exists_split_of_exchangesOf htold
  obtain rfl : call = next.call := by
    have hentry : ⟨next.id, call, .answered request reply⟩ ∈ moment.world.history := by
      simp [hsplit]
    exact hreach.call_eq hentry (by simp [hsplit]) rfl
  cases rest with
  | nil => exact ⟨older, rfl⟩
  | cons other rest =>
    -- The call would have been told more, or would have returned.
    have hbehind : moment.world.history = older ++
        ⟨next.id, next.call, .answered request reply⟩ :: other :: (rest ++ next :: after) := by
      simp [hsplit]
    obtain ⟨_, _, rfl⟩ | ⟨⟨outcome, rfl⟩, -⟩ := hreach.told_next hbehind hcheckpoint
    · rw [exchangesOf_cons_answered] at hrest
      cases hrest
    · have hreturned : moment.world.history =
          (older ++ [⟨next.id, next.call, .answered request reply⟩]) ++
            ⟨next.id, next.call, .returned outcome⟩ :: (rest ++ next :: after) := by
        simp [hsplit]
      have hnothing := (hreach.numbered.returned _ _ _ _ _ hreturned).1
      exact absurd rfl (hnothing next (by simp))

/-- Every call that has begun comes to an end if the run goes on. -/
theorem Reaches.exists_returned (hreach : S.Reaches (.start state) moment)
    {entry : Entry Reply Outcome} (hentry : entry ∈ moment.world.history) :
    ∃ later outcome, S.Reaches moment later ∧
      ⟨entry.id, entry.call, .returned outcome⟩ ∈ later.world.history := by
  rcases hreach.in_flight_or_returned hentry with ⟨frame, hframe, hid⟩ | ⟨call, outcome, hreturned⟩
  · obtain ⟨later, outcome, hlater, isParked, frames, hframes⟩ := exists_returns (S := S) hframe
    have hcall : frame.call = entry.call := hreach.frame_call_eq hframe hentry hid
    obtain ⟨world, _, nextId⟩ := later
    cases hframes
    have hnext : S.next? ⟨world, ⟨frame.id, frame.call, .done outcome, isParked⟩ :: frames, nextId⟩
        .proceed = some ⟨world.record ⟨frame.id, frame.call, .returned outcome⟩, frames, nextId⟩ :=
      rfl
    rw [← hcall, ← hid]
    exact ⟨_, outcome, hlater.trans (.of_next? hnext ⟨[], rfl⟩),
      List.mem_append_right _ List.mem_cons_self⟩
  · have hcall : entry.call = call := hreach.call_eq hentry hreturned rfl
    rw [hcall]
    exact ⟨moment, outcome, ⟨[], rfl⟩, hreturned⟩

end System

end EventSourcing.Interleaving
