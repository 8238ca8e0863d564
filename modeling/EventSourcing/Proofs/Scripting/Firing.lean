import EventSourcing.Proofs.Interleaving.Tracing
import EventSourcing.Proofs.Scripting.Call

namespace EventSourcing.Scripting

open Interleaving Interleaving.System Program

variable {P A : Type}

/-- A call that has asked and been told something already asks one thing more and is told a reply:
which call that may be, and what it has asked before. -/
inductive Asked : Call P A → List (Exchange (@Request.Reply P A)) →
    (request : Request P A) → request.Reply → Prop where
  | register (checkpoint : P) (action : A) :
      Asked (.onFirst checkpoint action) [] (.register checkpoint action) ()
  | arrive (checkpoint : P) (found : Option A) :
      Asked (.reached checkpoint) [] (.arrive checkpoint) found
  | run (checkpoint : P) (action : A) :
      Asked (.reached checkpoint) [⟨.arrive checkpoint, some action⟩] (.run action) ()
  | take (checkpoint : P) (taken : Bool) : Asked (.tryTake checkpoint) [] (.take checkpoint) taken
  | wait (checkpoint : P) (taken : Bool) : Asked (.waitFor checkpoint) [] (.take checkpoint) taken
  | look (checkpoint : P) (count : Nat) : Asked (.pending checkpoint) [] (.look checkpoint) count

private theorem eq_of_leads_ask {asked : Request P A}
    {exchanges : List (Exchange (@Request.Reply P A))} {rest : Operation P A asked.Reply}
    (hleads : (ask asked).Leads exchanges rest) :
    exchanges = [] ∨ ∃ reply, exchanges = [⟨asked, reply⟩] := by
  rcases leads_ask hleads with ⟨rfl, -⟩ | ⟨reply, later, rfl, hlater⟩
  · exact .inl rfl
  · cases hlater
    exact .inr ⟨reply, rfl⟩

private theorem eq_of_leads_reach {checkpoint : P}
    {exchanges : List (Exchange (@Request.Reply P A))} {rest : Operation P A Unit}
    (hleads : (reach checkpoint).Leads exchanges rest) :
    exchanges = [] ∨ (∃ found, exchanges = [⟨.arrive checkpoint, found⟩]) ∨
      ∃ action, exchanges = [⟨.arrive checkpoint, some action⟩, ⟨.run action, ()⟩] := by
  rcases leads_ask hleads with ⟨rfl, -⟩ | ⟨found, later, rfl, hlater⟩
  · exact .inl rfl
  · cases found with
    | none =>
      cases hlater
      exact .inr (.inl ⟨none, rfl⟩)
    | some action =>
      rcases eq_of_leads_ask hlater with rfl | ⟨_, rfl⟩
      · exact .inr (.inl ⟨some action, rfl⟩)
      · exact .inr (.inr ⟨action, rfl⟩)

private theorem eq_of_concat_eq_singleton {α : Type} {early : List α} {last only : α}
    (h : early ++ [last] = [only]) : early = [] ∧ last = only := by
  cases early with
  | nil => exact ⟨rfl, List.singleton_inj.1 h⟩
  | cons first early => simp at h

theorem Asked.of_leads {call : Call P A} {early : List (Exchange (@Request.Reply P A))}
    {request : Request P A} {reply : request.Reply} {rest : Operation P A call.Outcome}
    (hleads : call.program.Leads (early ++ [⟨request, reply⟩]) rest) :
    Asked call early request reply := by
  have hne : early ++ [(⟨request, reply⟩ : Exchange (@Request.Reply P A))] ≠ [] := by simp
  cases call with
  | onFirst checkpoint action =>
    obtain hnil | ⟨_, hone⟩ := eq_of_leads_ask hleads
    · exact absurd hnil hne
    · obtain ⟨rfl, hlast⟩ := eq_of_concat_eq_singleton hone
      cases hlast
      exact .register checkpoint action
  | reached checkpoint =>
    obtain hnil | ⟨found, hone⟩ | ⟨action, htwo⟩ := eq_of_leads_reach hleads
    · exact absurd hnil hne
    · obtain ⟨rfl, hlast⟩ := eq_of_concat_eq_singleton hone
      cases hlast
      exact .arrive checkpoint found
    · have hsplit : early ++ [⟨request, reply⟩] =
          [⟨.arrive checkpoint, some action⟩] ++ [⟨.run action, ()⟩] := htwo
      obtain ⟨rfl, hlast⟩ := List.append_inj' hsplit rfl
      cases hlast
      exact .run checkpoint action
  | tryTake checkpoint =>
    obtain hnil | ⟨_, hone⟩ := eq_of_leads_ask hleads
    · exact absurd hnil hne
    · obtain ⟨rfl, hlast⟩ := eq_of_concat_eq_singleton hone
      cases hlast
      exact .take checkpoint _
  | waitFor checkpoint =>
    obtain hnil | ⟨_, hone⟩ := eq_of_leads_ask hleads
    · exact absurd hnil hne
    · obtain ⟨rfl, hlast⟩ := eq_of_concat_eq_singleton hone
      cases hlast
      exact .wait checkpoint _
  | pending checkpoint =>
    obtain hnil | ⟨_, hone⟩ := eq_of_leads_ask hleads
    · exact absurd hnil hne
    · obtain ⟨rfl, hlast⟩ := eq_of_concat_eq_singleton hone
      cases hlast
      exact .look checkpoint _

variable [DecidableEq P] {moment : Moment P A}

/-- Every entry of a run that tells of a request fits what its call has asked before. -/
theorem Reachable.asked (hreach : Reachable moment) {before after : History P A} {id : Nat}
    {call : Call P A} {request : Request P A} {reply : request.Reply}
    (hsplit : moment.world.history = before ++ ⟨id, call, .answered request reply⟩ :: after) :
    Asked call (exchangesOf id before) request reply := by
  obtain ⟨_, next, _, _, _, hhistory, hnext, -⟩ := Reaches.exists_answer hreach hsplit
  have hentry : ⟨id, call, .answered request reply⟩ ∈ next.world.history := by
    rw [hhistory]
    exact List.mem_append_right _ List.mem_cons_self
  obtain ⟨rest, hleads⟩ := Reaches.exists_leads hnext hentry
  rw [hhistory, exchangesOf_concat_answered] at hleads
  exact .of_leads hleads

def isArrival (checkpoint : P) (entry : Entry P A) : Bool :=
  match entry.action with
  | .answered (.arrive other) _ => other = checkpoint
  | _ => false

def isRegistration (checkpoint : P) (entry : Entry P A) : Bool :=
  match entry.action with
  | .answered (.register other _) _ => other = checkpoint
  | _ => false

def isTaking (checkpoint : P) (entry : Entry P A) : Bool :=
  match entry.action with
  | .answered (.take other) taken => other = checkpoint ∧ taken = true
  | _ => false

def arrivals (checkpoint : P) (history : History P A) : Nat :=
  history.countP (isArrival checkpoint)

def takings (checkpoint : P) (history : History P A) : Nat :=
  history.countP (isTaking checkpoint)

/-- An action is put at a checkpoint. -/
def registration (id : Nat) (checkpoint : P) (action : A) : Entry P A :=
  ⟨id, .onFirst checkpoint action, .answered (.register checkpoint action) ()⟩

/-- A call arrives at a checkpoint and finds an action there, or none. -/
def arrival (id : Nat) (checkpoint : P) (found : Option A) : Entry P A :=
  ⟨id, .reached checkpoint, .answered (.arrive checkpoint) found⟩

/-- A call runs the action that it has found. -/
def running (id : Nat) (checkpoint : P) (action : A) : Entry P A :=
  ⟨id, .reached checkpoint, .answered (.run action) ()⟩

/-- The action of a registration waits for the next arrival: nobody has arrived at its checkpoint
since, or put another action in its place. -/
def Waits (number : Nat) (checkpoint : P) (action : A) (history : History P A) : Prop :=
  ∃ before after, history = before ++ registration number checkpoint action :: after ∧
    ∀ entry ∈ after, isArrival checkpoint entry = false ∧ isRegistration checkpoint entry = false

/-- Behind some part of the history a call arrives at a checkpoint and runs the action that has
waited there, the one of a registration. -/
def Runs (number id : Nat) (checkpoint : P) (action : A) (earlier history : History P A) : Prop :=
  Waits number checkpoint action earlier ∧ ∃ after, history =
    earlier ++ arrival id checkpoint (some action) :: running id checkpoint action :: after

/-- With one entry more, an action waits when it is put in place by that, or has waited before and
is left alone. -/
theorem waits_concat_iff {number : Nat} {checkpoint : P} {action : A} {history : History P A}
    {entry : Entry P A} :
    Waits number checkpoint action (history ++ [entry]) ↔
      entry = registration number checkpoint action ∨
        Waits number checkpoint action history ∧ isArrival checkpoint entry = false ∧
          isRegistration checkpoint entry = false := by
  constructor
  · rintro ⟨before, after, hsplit, hafter⟩
    rcases concat_eq_append_cons hsplit with ⟨rest, rfl, hbefore⟩ | ⟨-, rfl, -⟩
    · refine .inr ⟨⟨before, rest, hbefore, fun other hother => ?_⟩, hafter entry (by simp)⟩
      exact hafter other (List.mem_append_left _ hother)
    · exact .inl rfl
  · rintro (rfl | ⟨⟨before, after, rfl, hafter⟩, hentry⟩)
    · exact ⟨history, [], rfl, by simp⟩
    · refine ⟨before, after ++ [entry], by simp, fun other hother => ?_⟩
      rcases List.mem_append.1 hother with h | h
      · exact hafter other h
      · rw [List.mem_singleton.1 h]
        exact hentry

theorem waits_concat_of_plain {number : Nat} {checkpoint : P} {action : A} {history : History P A}
    {entry : Entry P A} (harrival : isArrival checkpoint entry = false)
    (hregistration : isRegistration checkpoint entry = false) :
    Waits number checkpoint action (history ++ [entry]) ↔
      Waits number checkpoint action history := by
  have hne : entry ≠ registration number checkpoint action := by
    rintro rfl
    simp [isRegistration, registration] at hregistration
  simp [waits_concat_iff, hne, harrival, hregistration]

/-- Nothing waits any more where a call has just arrived. -/
theorem not_waits_of_arrival {number : Nat} {checkpoint : P} {action : A} {history : History P A}
    {entry : Entry P A} (harrival : isArrival checkpoint entry = true) :
    ¬ Waits number checkpoint action (history ++ [entry]) := by
  rw [waits_concat_iff]
  rintro (rfl | ⟨-, hfalse, -⟩)
  · cases harrival
  · simp [harrival] at hfalse

/-- Where an action has just been put in place, it is the one that waits. -/
theorem waits_registration_iff {number id : Nat} {checkpoint : P} {action waiting : A}
    {history : History P A} :
    Waits number checkpoint waiting (history ++ [registration id checkpoint action]) ↔
      id = number ∧ action = waiting := by
  rw [waits_concat_iff]
  constructor
  · rintro (heq | ⟨-, -, hfalse⟩)
    · cases heq
      exact ⟨rfl, rfl⟩
    · simp [isRegistration, registration] at hfalse
  · rintro ⟨rfl, rfl⟩
    exact .inl rfl

/-- The hook counts the arrivals that nobody has taken, and holds the actions that wait. -/
structure Recorded (moment : Moment P A) : Prop where
  pending : ∀ checkpoint, moment.world.state.pending checkpoint +
    takings checkpoint moment.world.history = arrivals checkpoint moment.world.history
  action?_iff : ∀ checkpoint action, moment.world.state.action? checkpoint = some action ↔
    ∃ number, Waits number checkpoint action moment.world.history

namespace Recorded

variable {next : Moment P A} (hrecorded : Recorded moment)

include hrecorded

/-- An entry that tells of none of the three leaves all as it is. -/
theorem concat_plain {entry : Entry P A} (hstate : next.world.state = moment.world.state)
    (hhistory : next.world.history = moment.world.history ++ [entry])
    (hplain : ∀ checkpoint, isArrival checkpoint entry = false ∧
      isRegistration checkpoint entry = false ∧ isTaking checkpoint entry = false) :
    Recorded next where
  pending checkpoint := by
    obtain ⟨harrival, -, htaking⟩ := hplain checkpoint
    have hold := hrecorded.pending checkpoint
    rw [hstate, hhistory]
    simpa [takings, arrivals, List.countP_append, harrival, htaking] using hold
  action?_iff checkpoint action := by
    obtain ⟨harrival, hregistration, -⟩ := hplain checkpoint
    rw [hstate, hhistory, hrecorded.action?_iff]
    simp only [waits_concat_of_plain harrival hregistration]

/-- An entry that registers an action puts it in the place of the one before. -/
theorem concat_registration {id : Nat} {checkpoint : P} {action : A}
    (hstate : next.world.state = moment.world.state.onFirst checkpoint action)
    (hhistory : next.world.history =
      moment.world.history ++ [registration id checkpoint action]) :
    Recorded next where
  pending other := by
    have hold := hrecorded.pending other
    rw [hstate, hhistory, ScriptedHook.pending_onFirst]
    simpa [takings, arrivals, List.countP_append, registration, isTaking, isArrival] using hold
  action?_iff other waiting := by
    rw [hstate, hhistory, ScriptedHook.action?_onFirst]
    split
    · next h =>
      subst h
      simp [waits_registration_iff]
    · next h =>
      have hplain : isRegistration other (registration id checkpoint action) = false := by
        simpa [isRegistration, registration] using fun e => h (Eq.symm e)
      have harrival : isArrival other (registration id checkpoint action) = false := rfl
      rw [hrecorded.action?_iff]
      simp only [waits_concat_of_plain harrival hplain]

/-- An arrival is counted, and nothing waits there any more. -/
theorem concat_arrival {id : Nat} {checkpoint : P} {found : Option A}
    (hstate : next.world.state = (moment.world.state.arrive checkpoint).2)
    (hhistory : next.world.history = moment.world.history ++ [arrival id checkpoint found]) :
    Recorded next where
  pending other := by
    have hold := hrecorded.pending other
    rw [hstate, hhistory, ScriptedHook.pending_arrive]
    simp only [takings, arrivals, List.countP_append] at hold ⊢
    by_cases h : checkpoint = other <;> simp [arrival, isTaking, isArrival, h] <;> omega
  action?_iff other waiting := by
    rw [hstate, hhistory, ScriptedHook.action?_arrive]
    split
    · next h =>
      have hself : isArrival other (arrival id checkpoint found) = true := by
        simp [isArrival, arrival, h]
      simp only [not_waits_of_arrival hself, exists_false, reduceCtorEq]
    · next h =>
      have hplain : isArrival other (arrival id checkpoint found) = false := by
        simpa [isArrival, arrival] using fun e => h (Eq.symm e)
      have hregistration : isRegistration other (arrival id checkpoint found) = false := rfl
      rw [hrecorded.action?_iff]
      simp only [waits_concat_of_plain hplain hregistration]

/-- A successful take takes one arrival, and there is one. -/
theorem concat_taking {id : Nat} {call : Call P A} {checkpoint : P} {taken : Bool}
    (hanswer : moment.world.state.tryTake checkpoint = (taken, next.world.state))
    (hhistory : next.world.history =
      moment.world.history ++ [⟨id, call, .answered (.take checkpoint) taken⟩]) :
    Recorded next where
  pending other := by
    have htaken : taken = decide (0 < moment.world.state.pending checkpoint) := by
      rw [← ScriptedHook.tryTake_fst, hanswer]
    have hpending : next.world.state.pending other =
        moment.world.state.pending other - if checkpoint = other then 1 else 0 := by
      rw [← ScriptedHook.pending_tryTake, hanswer]
    have hold := hrecorded.pending other
    rw [hpending, hhistory]
    simp only [takings, arrivals, List.countP_append] at hold ⊢
    by_cases h : checkpoint = other
    · subst h
      by_cases hsome : 0 < moment.world.state.pending checkpoint <;>
        simp [isTaking, isArrival, htaken, hsome] <;> omega
    · simpa [isTaking, isArrival, h] using hold
  action?_iff other waiting := by
    have hsame : next.world.state.action? other = moment.world.state.action? other := by
      rw [← moment.world.state.action?_tryTake checkpoint other, hanswer]
    let took : Entry P A := ⟨id, call, .answered (.take checkpoint) taken⟩
    have harrival : isArrival other took = false := rfl
    have hregistration : isRegistration other took = false := rfl
    rw [hsame, hhistory, hrecorded.action?_iff]
    simp only [waits_concat_of_plain harrival hregistration, took]

end Recorded

private theorem Recorded.move {next : Moment P A} {move : Move (Call P A)}
    (hreach : Reachable next) (hrecorded : Recorded moment)
    (hnext : (calls P A).next? moment move = some next) : Recorded next := by
  revert hreach hrecorded
  refine next?_cases (motive := fun moment next => Reachable next → Recorded moment →
    Recorded next) hnext ?_ ?_ ?_
  · intro world frames nextId call _ _ hrecorded
    exact hrecorded.concat_plain rfl rfl fun _ => ⟨rfl, rfl, rfl⟩
  · intro world id call request rest isParked frames nextId hreach hrecorded
    obtain ⟨early, hasked⟩ : ∃ early, Asked call early request (answer world.state request).1 :=
      ⟨_, hreach.asked rfl⟩
    cases request with
    | register checkpoint action =>
      cases hasked
      exact hrecorded.concat_registration rfl rfl
    | arrive checkpoint =>
      cases hasked
      exact hrecorded.concat_arrival rfl rfl
    | run action => exact hrecorded.concat_plain rfl rfl fun _ => ⟨rfl, rfl, rfl⟩
    | take checkpoint => exact hrecorded.concat_taking rfl rfl
    | look checkpoint => exact hrecorded.concat_plain rfl rfl fun _ => ⟨rfl, rfl, rfl⟩
  · intro world id call outcome isParked frames nextId _ hrecorded
    exact hrecorded.concat_plain rfl rfl fun _ => ⟨rfl, rfl, rfl⟩

theorem Reachable.recorded (hreach : Reachable moment) : Recorded moment := by
  have hstart : Recorded (Moment.start ScriptedHook.empty : Moment P A) := by
    refine ⟨fun checkpoint => rfl, fun checkpoint action => ?_⟩
    simp [Moment.start, ScriptedHook.empty, ScriptedHook.action?, Waits]
  have hall : Reachable moment ∧ Recorded moment := by
    refine Reaches.induct (P := fun moment => Reachable moment ∧ Recorded moment) hreach
      ⟨⟨[], rfl⟩, hstart⟩ ?_
    rintro before next move ⟨hmoment, hrecorded⟩ hnext
    exact ⟨Reaches.concat hmoment hnext, hrecorded.move (Reaches.concat hmoment hnext) hnext⟩
  exact hall.2

section History

variable {number id : Nat} {call : Call P A} {checkpoint : P} {before after : History P A}

/-- A call puts one action in place. -/
theorem Reachable.registration_unique (hreach : Reachable moment) {other : P} {action waiting : A}
    {before' after' : History P A}
    (hsplit : moment.world.history = before ++ registration number checkpoint action :: after)
    (hagain : moment.world.history = before' ++ registration number other waiting :: after') :
    before = before' ∧ checkpoint = other ∧ after = after' := by
  have hfirst : ∀ {early late : History P A} {place : P} {act : A},
      moment.world.history = early ++ registration number place act :: late →
        exchangesOf number early = [] := by
    intro early late place act h
    have hasked := hreach.asked h
    generalize exchangesOf number early = told at hasked ⊢
    cases hasked
    rfl
  have hnone : ∀ {place : P} {act : A} {early between : History P A},
      exchangesOf number (early ++ registration number place act :: between) ≠ [] := by
    intro place act early between
    rw [exchangesOf_append, registration, exchangesOf_cons_answered]
    simp
  rcases append_cons_eq_append_cons (hsplit.symm.trans hagain) with
    ⟨rfl, heq⟩ | ⟨between, rfl, -⟩ | ⟨between, rfl, -⟩
  · cases heq
    exact ⟨rfl, rfl, (List.cons.inj (List.append_cancel_left (hsplit.symm.trans hagain))).2⟩
  · exact absurd (hfirst hagain) hnone
  · exact absurd (hfirst hsplit) hnone

/-- An arrival finds the action that waits. -/
theorem Reachable.found_iff (hreach : Reachable moment) {found : Option A}
    (hsplit : moment.world.history =
      before ++ ⟨id, call, .answered (.arrive checkpoint) found⟩ :: after) (action : A) :
    found = some action ↔ ∃ number, Waits number checkpoint action before := by
  obtain ⟨mid, next, hmid, rfl, hanswer, -⟩ := Reaches.exists_answer hreach hsplit
  have hfound : mid.world.state.action? checkpoint = found := congrArg Prod.fst hanswer
  rw [← hfound]
  exact (Reachable.recorded hmid).action?_iff checkpoint action

/-- A call arrives before it does anything else. -/
theorem Reachable.arrives_first (hreach : Reachable moment) {found : Option A}
    (hsplit : moment.world.history =
      before ++ ⟨id, call, .answered (.arrive checkpoint) found⟩ :: after) :
    call = .reached checkpoint ∧ exchangesOf id before = [] := by
  have hasked := hreach.asked hsplit
  generalize exchangesOf id before = told at hasked ⊢
  cases hasked
  exact ⟨rfl, rfl⟩

/-- A call that runs an action has found it when it arrived, right before. -/
theorem Reachable.runs (hreach : Reachable moment) {action : A}
    (hsplit : moment.world.history = before ++ ⟨id, call, .answered (.run action) ()⟩ :: after) :
    ∃ number checkpoint earlier, call = .reached checkpoint ∧
      before = earlier ++ [arrival id checkpoint (some action)] ∧
        Runs number id checkpoint action earlier moment.world.history := by
  have hasked := hreach.asked hsplit
  obtain ⟨checkpoint, rfl, htold⟩ : ∃ checkpoint, call = .reached checkpoint ∧
      exchangesOf id before = [⟨.arrive checkpoint, some action⟩] := by
    generalize exchangesOf id before = told at hasked ⊢
    cases hasked with
    | run checkpoint => exact ⟨checkpoint, rfl, rfl⟩
  rw [← List.nil_append [_]] at htold
  obtain ⟨earlier, rfl⟩ := Reaches.told_before hreach hsplit htold rfl
  rw [List.append_assoc] at hsplit
  obtain ⟨number, hwaits⟩ := (hreach.found_iff hsplit action).1 rfl
  exact ⟨number, checkpoint, earlier, rfl, rfl, hwaits, after, hsplit⟩

/-- A call that finds an action runs it before anything else happens. -/
theorem Reachable.runs_next (hreach : Reachable moment) {action : A}
    (hsplit : moment.world.history =
      before ++ ⟨id, call, .answered (.arrive checkpoint) (some action)⟩ :: after) :
    after = [] ∨ ∃ rest, after = running id checkpoint action :: rest := by
  cases after with
  | nil => exact .inl rfl
  | cons next rest =>
    obtain ⟨rfl, hnone⟩ := hreach.arrives_first hsplit
    let arrived : Entry P A := arrival id checkpoint (some action)
    have htold : exchangesOf id (before ++ [arrived]) = [⟨.arrive checkpoint, some action⟩] := by
      rw [exchangesOf_append, hnone]
      exact exchangesOf_cons_answered ..
    rcases Reaches.told_next hreach hsplit rfl with
      ⟨request, reply, rfl⟩ | ⟨⟨outcome, rfl⟩, hall⟩
    · have hasked :
          Asked (.reached checkpoint) (exchangesOf id (before ++ [arrived])) request reply :=
        hreach.asked (hsplit.trans (List.append_cons ..))
      rw [htold] at hasked
      cases hasked
      exact .inr ⟨rest, rfl⟩
    · have hreturned : ⟨id, .reached checkpoint, .returned outcome⟩ ∈ moment.world.history := by
        simp [hsplit]
      have hyields : (reach checkpoint).Yields (exchangesOf id (before ++ [arrived])) outcome :=
        hall ▸ Reaches.yields hreach hreturned
      rw [htold] at hyields
      obtain ⟨_, _, hone, hyields⟩ := hyields
      cases hone
      obtain ⟨_, _, hrun, -⟩ := hyields
      cases hrun

/-- A call that finds no action runs none. -/
theorem Reachable.passes (hreach : Reachable moment)
    (hsplit : moment.world.history =
      before ++ ⟨id, call, .answered (.arrive checkpoint) none⟩ :: after)
    {other : Call P A} {action : A} : ⟨id, other, .answered (.run action) ()⟩ ∉ after := by
  intro hmem
  obtain ⟨between, rest, rfl⟩ := List.append_of_mem hmem
  have hagain : moment.world.history =
      (before ++ ⟨id, call, .answered (.arrive checkpoint) none⟩ :: between) ++
        ⟨id, other, .answered (.run action) ()⟩ :: rest := by
    simpa using hsplit
  have hasked := hreach.asked hagain
  rw [exchangesOf_append, exchangesOf_cons_answered, (hreach.arrives_first hsplit).2] at hasked
  cases hasked

/-- An action that has run does not wait any more, neither while it runs nor later. -/
theorem Runs.gone (hreach : Reachable moment) {action : A} {earlier later : History P A}
    (hruns : Runs number id checkpoint action earlier moment.world.history)
    (hbehind : earlier ++ [arrival id checkpoint (some action)] <+: later)
    (hlater : later <+: moment.world.history) {other : P} {waiting : A} :
    ¬ Waits number other waiting later := by
  obtain ⟨⟨before, between, rfl, -⟩, rest, hsplit⟩ := hruns
  rintro ⟨before', silent, rfl, hsilent⟩
  obtain ⟨tail, htail⟩ := hlater
  rw [List.append_assoc, List.cons_append] at hsplit htail
  obtain ⟨rfl, rfl, -⟩ := hreach.registration_unique hsplit htail.symm
  rw [List.append_assoc, List.cons_append, List.prefix_append_right_inj, List.cons_prefix_cons]
    at hbehind
  have hmem := hbehind.2.subset (by simp : arrival id checkpoint (some action) ∈ _)
  have harrived := (hsilent _ hmem).1
  simp [isArrival, arrival] at harrived

/-- The action of a registration runs once at most. -/
theorem Runs.unique (hreach : Reachable moment) {id' : Nat} {other : P} {action action' : A}
    {earlier earlier' : History P A}
    (hruns : Runs number id checkpoint action earlier moment.world.history)
    (hagain : Runs number id' other action' earlier' moment.world.history) :
    earlier = earlier' := by
  have hpart : ∀ {part rest : History P A}, moment.world.history = part ++ rest →
      part <+: moment.world.history := fun h => ⟨_, h.symm⟩
  obtain ⟨after, hsplit⟩ := hruns.2
  obtain ⟨after', hsplit'⟩ := hagain.2
  rcases append_cons_eq_append_cons (hsplit.symm.trans hsplit') with
    ⟨heq, -⟩ | ⟨between, rfl, -⟩ | ⟨between, rfl, -⟩
  · exact heq
  · exact absurd hagain.1 (hruns.gone hreach (by simp) (hpart hsplit'))
  · exact absurd hruns.1 (hagain.gone hreach (by simp) (hpart hsplit))

end History

/-- What a history tells of a hook that counts and fires exactly. -/
structure IsExact (history : History P A) : Prop where
  /-- A take succeeds exactly when there is an arrival that nobody has taken. -/
  taken : ∀ before id call checkpoint taken after,
    history = before ++ ⟨id, call, .answered (.take checkpoint) taken⟩ :: after →
      (taken = true ↔ takings checkpoint before < arrivals checkpoint before)
  looked : ∀ before id call checkpoint count after,
    history = before ++ ⟨id, call, .answered (.look checkpoint) count⟩ :: after →
      count + takings checkpoint before = arrivals checkpoint before
  /-- The first arrival behind a registration runs its action, if no other has taken its place. -/
  fires : ∀ earlier id call checkpoint found after number action,
    history = earlier ++ ⟨id, call, .answered (.arrive checkpoint) found⟩ :: after →
      Waits number checkpoint action earlier →
        found = some action ∧ (after = [] ∨ Runs number id checkpoint action earlier history)
  /-- An arrival where nothing waits passes through. -/
  passes : ∀ earlier id call checkpoint found after,
    history = earlier ++ ⟨id, call, .answered (.arrive checkpoint) found⟩ :: after →
      (∀ number action, ¬ Waits number checkpoint action earlier) →
        ∀ other action, ⟨id, other, .answered (.run action) ()⟩ ∉ after
  /-- Whatever runs has waited for the arrival of its call, which is told right before it. -/
  waited : ∀ before id call action after,
    history = before ++ ⟨id, call, .answered (.run action) ()⟩ :: after →
      ∃ number checkpoint earlier, call = .reached checkpoint ∧
        before = earlier ++ [arrival id checkpoint (some action)] ∧
          Runs number id checkpoint action earlier history
  once : ∀ number id checkpoint action earlier id' checkpoint' action' earlier',
    Runs number id checkpoint action earlier history →
      Runs number id' checkpoint' action' earlier' history → earlier = earlier'
  /-- While an action runs, and later, no arrival anywhere finds it again. -/
  gone : ∀ number id checkpoint action earlier later other waiting,
    Runs number id checkpoint action earlier history →
      earlier ++ [arrival id checkpoint (some action)] <+: later → later <+: history →
        ¬ Waits number other waiting later

/-- Scripted hooks count and fire exactly, however deep the actions that they set off are nested:
at every moment as many arrivals are pending at a checkpoint as have not been taken, takes succeed
while there are any, and an action runs once at most, at the first arrival behind its registration
unless another has taken its place by then. That arrival counts already, and those that come
meanwhile pass through. -/
theorem Reachable.counts_and_fires_exactly (hreach : Reachable moment) :
    (∀ checkpoint, moment.world.state.pending checkpoint +
        takings checkpoint moment.world.history = arrivals checkpoint moment.world.history) ∧
      IsExact moment.world.history := by
  refine ⟨hreach.recorded.pending, ?_, ?_, ?_, ?_, ?_, ?_, ?_⟩
  · intro before id call checkpoint taken after hsplit
    obtain ⟨mid, next, hmid, rfl, hanswer, -⟩ := Reaches.exists_answer hreach hsplit
    have htaken : (mid.world.state.tryTake checkpoint).1 = taken := congrArg Prod.fst hanswer
    have hcount := (Reachable.recorded hmid).pending checkpoint
    rw [← htaken, ScriptedHook.tryTake_fst, decide_eq_true_iff]
    omega
  · intro before id call checkpoint count after hsplit
    obtain ⟨mid, next, hmid, rfl, hanswer, -⟩ := Reaches.exists_answer hreach hsplit
    have hlooked : mid.world.state.pending checkpoint = count := congrArg Prod.fst hanswer
    rw [← hlooked]
    exact (Reachable.recorded hmid).pending checkpoint
  · intro earlier id call checkpoint found after number action hsplit hwaits
    obtain rfl : found = some action := (hreach.found_iff hsplit action).2 ⟨number, hwaits⟩
    obtain ⟨rfl, -⟩ := hreach.arrives_first hsplit
    refine ⟨rfl, ?_⟩
    rcases hreach.runs_next hsplit with hnil | ⟨rest, rfl⟩
    · exact .inl hnil
    · exact .inr ⟨hwaits, rest, hsplit⟩
  · intro earlier id call checkpoint found after hsplit hnone other action
    cases found with
    | none => exact hreach.passes hsplit
    | some waiting =>
      obtain ⟨number, hwaits⟩ := (hreach.found_iff hsplit waiting).1 rfl
      exact absurd hwaits (hnone number waiting)
  · intro before id call action after hsplit
    exact hreach.runs hsplit
  · intro number id checkpoint action earlier id' checkpoint' action' earlier' hruns hagain
    exact hruns.unique hreach hagain
  · intro number id checkpoint action earlier later other waiting hruns hbehind hlater
    exact hruns.gone hreach hbehind hlater

/-- An action that, while it runs, arrives at its own checkpoint, puts another action there, arrives
again and takes two arrivals. -/
private def nested : List (Move (Call Bool Nat)) :=
  [.call (.onFirst true 1), .proceed, .proceed, .call (.reached true), .proceed, .proceed,
    .call (.reached true), .proceed, .proceed, .call (.onFirst true 2), .proceed, .proceed,
    .call (.reached true), .proceed, .proceed, .call (.tryTake true), .proceed, .proceed,
    .proceed, .proceed, .call (.pending true), .proceed, .proceed]

/-- The first action has run at the first arrival, the second within it at the third, and one of
the three arrivals has been taken. -/
theorem counts_and_fires_exactly_of_nested : ∃ moment,
    (calls Bool Nat).run? (.start .empty) nested = some moment ∧
      moment.world.state.pending true = 2 ∧
      Runs 0 1 true 1 (moment.world.history.take 4) moment.world.history ∧
      Runs 3 4 true 2 (moment.world.history.take 13) moment.world.history := by
  obtain ⟨moment, hrun, harrivals, htakings, hfirst, hthird, hregistered, hreplaced⟩ : ∃ moment,
      (calls Bool Nat).run? (.start .empty) nested = some moment ∧
        arrivals true moment.world.history = 3 ∧ takings true moment.world.history = 1 ∧
        moment.world.history = moment.world.history.take 4 ++
          arrival 1 true (some 1) :: running 1 true 1 :: moment.world.history.drop 6 ∧
        moment.world.history = moment.world.history.take 13 ++
          arrival 4 true (some 2) :: running 4 true 2 :: moment.world.history.drop 15 ∧
        moment.world.history.take 4 = moment.world.history.take 1 ++ registration 0 true 1 ::
          [⟨0, .onFirst true 1, .returned ()⟩, ⟨1, .reached true, .called⟩] ∧
        moment.world.history.take 13 = moment.world.history.take 10 ++ registration 3 true 2 ::
          [⟨3, .onFirst true 2, .returned ()⟩, ⟨4, .reached true, .called⟩] :=
    ⟨_, rfl, rfl, rfl, rfl, rfl, rfl, rfl⟩
  obtain ⟨hpending, hexact⟩ := Reachable.counts_and_fires_exactly ⟨nested, hrun⟩
  have hcount := hpending true
  obtain ⟨-, hnil | hruns⟩ := hexact.fires _ 1 _ _ _ _ _ _ hfirst ⟨_, _, hregistered, by decide⟩
  · cases hnil
  obtain ⟨-, hnil | hagain⟩ := hexact.fires _ 4 _ _ _ _ _ _ hthird ⟨_, _, hreplaced, by decide⟩
  · cases hnil
  exact ⟨moment, hrun, by omega, hruns, hagain⟩

end EventSourcing.Scripting
