import EventSourcing.Collect
import EventSourcing.Program

namespace EventSourcing

variable {Request : Type} {Reply : Request → Type} {α β ε : Type}

namespace Program

/-- A request with the reply to it. -/
structure Exchange {Request : Type} (Reply : Request → Type) where
  request : Request
  reply : Reply request

/-- A program that is told what some exchanges say asks just what they say and ends with a value. -/
def Yields : Program Request Reply α → List (Exchange Reply) → α → Prop
  | .done value, exchanges, result => exchanges = [] ∧ value = result
  | .ask request next, exchanges, result =>
    ∃ reply rest, exchanges = ⟨request, reply⟩ :: rest ∧ (next reply).Yields rest result

variable {exchanges : List (Exchange Reply)}

theorem yields_request_iff {r : Request} {reply : Reply r} :
    (request r : Program Request Reply (Reply r)).Yields exchanges reply ↔
      exchanges = [⟨r, reply⟩] := by
  constructor
  · rintro ⟨_, _, rfl, rfl, rfl⟩
    rfl
  · rintro rfl
    exact ⟨reply, [], rfl, rfl, rfl⟩

theorem yields_request_bind_iff {r : Request} {next : Reply r → Program Request Reply α}
    {result : α} : (request r >>= next).Yields exchanges result ↔
      ∃ reply rest, exchanges = ⟨r, reply⟩ :: rest ∧ (next reply).Yields rest result :=
  Iff.rfl

theorem yields_bind_iff {first : Program Request Reply α} {second : α → Program Request Reply β}
    {result : β} : (first >>= second).Yields exchanges result ↔
      ∃ early late value, exchanges = early ++ late ∧ first.Yields early value ∧
        (second value).Yields late result := by
  induction first generalizing exchanges with
  | done value =>
    constructor
    · exact fun h => ⟨[], exchanges, value, rfl, ⟨rfl, rfl⟩, h⟩
    · rintro ⟨_, late, _, rfl, ⟨rfl, rfl⟩, h⟩
      exact h
  | ask request next ih =>
    constructor
    · rintro ⟨reply, rest, rfl, h⟩
      obtain ⟨early, late, value, rfl, hfirst, hsecond⟩ := (ih reply).1 h
      exact ⟨⟨request, reply⟩ :: early, late, value, rfl, ⟨reply, early, rfl, hfirst⟩, hsecond⟩
    · rintro ⟨_, late, value, rfl, ⟨reply, early, rfl, hfirst⟩, hsecond⟩
      exact ⟨reply, early ++ late, rfl, (ih reply).2 ⟨early, late, value, rfl, hfirst, hsecond⟩⟩

/-- A program that is told what some exchanges say asks just what they say, and this is left of
it. -/
inductive Leads : Program Request Reply α → List (Exchange Reply) → Program Request Reply α → Prop
  | nil (program) : Leads program [] program
  | cons {request next reply exchanges rest} : Leads (next reply) exchanges rest →
      Leads (.ask request next) (⟨request, reply⟩ :: exchanges) rest

theorem Leads.concat {program : Program Request Reply α} {request : Request}
    {next : Reply request → Program Request Reply α}
    (hleads : program.Leads exchanges (.ask request next)) (reply : Reply request) :
    program.Leads (exchanges ++ [⟨request, reply⟩]) (next reply) := by
  generalize hrest : ask request next = rest at hleads
  induction hleads with
  | nil program =>
    subst hrest
    exact .cons (.nil _)
  | cons _ ih => exact .cons (ih hrest)

theorem leads_done_iff {program : Program Request Reply α} {value : α} :
    program.Leads exchanges (.done value) ↔ program.Yields exchanges value := by
  constructor
  · intro hleads
    generalize hrest : done value = rest at hleads
    induction hleads with
    | nil program =>
      subst hrest
      exact ⟨rfl, rfl⟩
    | cons _ ih => exact ⟨_, _, rfl, ih hrest⟩
  · intro hyields
    induction program generalizing exchanges with
    | done result =>
      obtain ⟨rfl, rfl⟩ := hyields
      exact .nil _
    | ask request next ih =>
      obtain ⟨reply, rest, rfl, hrest⟩ := hyields
      exact .cons (ih reply hrest)

/-- There is one way to go for a program that has been told something. -/
theorem Leads.unique {program first second : Program Request Reply α}
    (hfirst : program.Leads exchanges first) (hsecond : program.Leads exchanges second) :
    first = second := by
  induction hfirst with
  | nil program =>
    cases hsecond
    rfl
  | cons _ ih =>
    cases hsecond with
    | cons hsecond => exact ih hsecond

/-- A program that has been told a part of what it yields a value from is on its way. -/
theorem Yields.exists_leads {program : Program Request Reply α} {early late : List (Exchange Reply)}
    {value : α} (hyields : program.Yields (early ++ late) value) :
    ∃ rest, program.Leads early rest ∧ rest.Yields late value := by
  induction early generalizing program with
  | nil => exact ⟨program, .nil program, hyields⟩
  | cons exchange early ih =>
    cases program with
    | done result => cases hyields.1
    | ask request next =>
      obtain ⟨reply, rest, heq, hrest⟩ := hyields
      obtain ⟨rfl, rfl⟩ := List.cons.inj heq
      obtain ⟨later, hleads, hlater⟩ := ih hrest
      exact ⟨later, .cons hleads, hlater⟩

theorem leads_ask {request : Request} {next : Reply request → Program Request Reply α}
    {rest : Program Request Reply α} (hleads : (ask request next).Leads exchanges rest) :
    exchanges = [] ∧ rest = .ask request next ∨
      ∃ reply later, exchanges = ⟨request, reply⟩ :: later ∧ (next reply).Leads later rest := by
  cases hleads with
  | nil => exact .inl ⟨rfl, rfl⟩
  | cons hlater => exact .inr ⟨_, _, rfl, hlater⟩

/-- A program in two parts is somewhere in the first part, or has come to its end and goes on with
the second. -/
theorem Leads.of_bind {first : Program Request Reply α} {second : α → Program Request Reply β}
    {rest : Program Request Reply β} (hleads : (first >>= second).Leads exchanges rest) :
    (∃ mid, first.Leads exchanges mid) ∨ ∃ early late value, exchanges = early ++ late ∧
      first.Yields early value ∧ (second value).Leads late rest := by
  induction first generalizing exchanges with
  | done value => exact .inr ⟨[], exchanges, value, rfl, ⟨rfl, rfl⟩, hleads⟩
  | ask request next ih =>
    rcases leads_ask hleads with ⟨rfl, -⟩ | ⟨reply, later, rfl, hlater⟩
    · exact .inl ⟨_, .nil _⟩
    · rcases ih reply hlater with ⟨mid, hmid⟩ | ⟨early, late, value, rfl, hfirst, hsecond⟩
      · exact .inl ⟨mid, .cons hmid⟩
      · exact .inr ⟨⟨request, reply⟩ :: early, late, value, rfl, ⟨reply, early, rfl, hfirst⟩,
          hsecond⟩

section Serve

variable {Inner : Type} {InnerReply : Inner → Type}
  {handler : Nat → (r : Request) → Program Inner InnerReply (Reply r)} {number : Nat}
  {told : List (Exchange InnerReply)}

/-- What is asked and told while requests are handled one after the other, with the numbers from
`number` on and with these replies in the end. -/
inductive Handled (handler : Nat → (r : Request) → Program Inner InnerReply (Reply r)) :
    (number : Nat) → List (Exchange Reply) → List (Exchange InnerReply) → Prop
  | nil {number : Nat} : Handled handler number [] []
  | cons {number : Nat} {request reply rest during late} :
      (handler number request).Yields during reply →
      Handled handler (number + 1) rest late →
      Handled handler number (⟨request, reply⟩ :: rest) (during ++ late)

/-- A program that is served yields what it would yield if it were told the same. -/
theorem exists_handled {program : Program Request Reply α} {value : α} {last : Nat}
    (hyields : (program.serve handler number).Yields told (value, last)) :
    ∃ exchanges, program.Yields exchanges value ∧ Handled handler number exchanges told := by
  induction program generalizing number told with
  | done result =>
    obtain ⟨rfl, heq⟩ := hyields
    exact ⟨[], ⟨rfl, congrArg Prod.fst heq⟩, .nil⟩
  | ask request next ih =>
    rw [serve_ask] at hyields
    obtain ⟨during, late, reply, rfl, hduring, hlate⟩ := yields_bind_iff.1 hyields
    obtain ⟨exchanges, hnext, hhandled⟩ := ih reply hlate
    exact ⟨⟨request, reply⟩ :: exchanges, ⟨reply, exchanges, rfl, hnext⟩, .cons hduring hhandled⟩

/-- Whatever is told belongs to the handling of one request. -/
theorem Handled.exists_of_mem (hhandled : Handled handler number exchanges told)
    {inner : Exchange InnerReply} (hmem : inner ∈ told) :
    ∃ position exchange during, exchanges[position]? = some exchange ∧ inner ∈ during ∧
      (handler (number + position) exchange.request).Yields during exchange.reply := by
  induction hhandled with
  | nil => cases hmem
  | @cons number request reply rest during late hduring _ ih =>
    rcases List.mem_append.1 hmem with h | h
    · exact ⟨0, ⟨request, reply⟩, during, rfl, h, hduring⟩
    · obtain ⟨position, exchange, between, hexchange, hinner, hbetween⟩ := ih h
      rw [Nat.add_assoc, Nat.add_comm 1] at hbetween
      exact ⟨position + 1, exchange, between, hexchange, hinner, hbetween⟩

/-- Every request is handled. -/
theorem Handled.exists_of_getElem? (hhandled : Handled handler number exchanges told)
    {position : Nat} {exchange : Exchange Reply}
    (hexchange : exchanges[position]? = some exchange) :
    ∃ during, (∀ inner ∈ during, inner ∈ told) ∧
      (handler (number + position) exchange.request).Yields during exchange.reply := by
  induction hhandled generalizing position with
  | nil => cases hexchange
  | @cons number request reply rest during late hduring _ ih =>
    cases position with
    | zero =>
      cases hexchange
      exact ⟨during, fun inner => List.mem_append_left _, hduring⟩
    | succ position =>
      obtain ⟨between, hmem, hbetween⟩ := ih hexchange
      rw [Nat.add_assoc, Nat.add_comm 1] at hbetween
      exact ⟨between, fun inner h => List.mem_append_right _ (hmem inner h), hbetween⟩

end Serve

end Program

section Loop

open Program

variable {isCancelled : Program Request Reply Bool}
  {visit : α → Program Request Reply (Except ε Unit)}

/-- The failures among some results. -/
def failures (visited : List (α × Except ε Unit)) : List ε :=
  visited.filterMap fun visit =>
    match visit.2 with
    | .ok _ => none
    | .error error => some error

theorem failures_map (result : β → Except ε Unit) (f : α → β) (items : List α) :
    failures ((items.map f).map fun item => (item, result item)) =
      failures (items.map fun item => (item, result (f item))) := by
  simp only [failures, List.map_map, List.filterMap_map]
  rfl

theorem failures_eq_nil_iff {visited : List (α × Except ε Unit)} :
    failures visited = [] ↔ ∀ visit ∈ visited, visit.2.isOk = true := by
  rw [failures, List.filterMap_eq_nil_iff]
  refine forall₂_congr fun visit _ => ?_
  cases visit.2 with
  | ok _ => exact iff_of_true rfl rfl
  | error error => exact iff_of_false nofun nofun

theorem failures_eq_nil_iff_ok {visited : List (α × Except ε Unit)} :
    failures visited = [] ↔ ∀ visit ∈ visited, visit.2 = .ok () := by
  rw [failures_eq_nil_iff]
  refine forall₂_congr fun visit _ => ?_
  cases visit.2 with
  | ok _ => exact iff_of_true rfl rfl
  | error error => exact iff_of_false nofun nofun

/-- How a loop ends that has visited all items. -/
def conclusion : List ε → Except (CollectedError ε) Unit
  | [] => .ok ()
  | errors => .error (.failed errors)

theorem conclusion_eq_ok_iff {errors : List ε} : conclusion errors = .ok () ↔ errors = [] := by
  cases errors <;> simp [conclusion]

theorem conclusion_eq_failed_iff {errors failed : List ε} :
    conclusion errors = .error (.failed failed) ↔ failed ≠ [] ∧ failed = errors := by
  cases errors with
  | nil => simp [conclusion]
  | cons error rest =>
    simp only [conclusion, Except.error.injEq, CollectedError.failed.injEq]
    constructor
    · rintro rfl
      exact ⟨List.cons_ne_nil error rest, rfl⟩
    · exact fun h => h.2.symm

theorem conclusion_ne_cancelled {errors : List ε} : conclusion errors ≠ .error .cancelled := by
  cases errors <;> simp [conclusion]

/-- Items are visited one after the other, and before each of them no cancellation is found. -/
inductive Visits (isCancelled : Program Request Reply Bool)
    (visit : α → Program Request Reply (Except ε Unit)) :
    List (α × Except ε Unit) → List (Exchange Reply) → Prop
  | nil : Visits isCancelled visit [] []
  | cons {item result visited check during rest} : isCancelled.Yields check false →
      (visit item).Yields during result → Visits isCancelled visit visited rest →
        Visits isCancelled visit ((item, result) :: visited) (check ++ (during ++ rest))

/-- How a loop comes to its end after its visits: it has no more items, or it finds a cancellation
and skips those that are left. -/
inductive LoopEnds (isCancelled : Program Request Reply Bool) (errors : List ε) :
    List α → List (Exchange Reply) → Except (CollectedError ε) Unit → Prop
  | finished : LoopEnds isCancelled errors [] [] (conclusion errors)
  | cancelled {item rest check} : isCancelled.Yields check true →
      LoopEnds isCancelled errors (item :: rest) check (.error .cancelled)

/-- A loop visits the items before the first of which it finds a cancellation, whatever becomes of
the visits. -/
theorem exists_visits {errors : List ε} {items : List α} {exchanges : List (Exchange Reply)}
    {outcome : Except (CollectedError ε) Unit}
    (h : (forEachCollectingFrom isCancelled visit errors items).Yields exchanges outcome) :
    ∃ visited skipped early late, items = visited.map Prod.fst ++ skipped ∧
      exchanges = early ++ late ∧ Visits isCancelled visit visited early ∧
        LoopEnds isCancelled (errors ++ failures visited) skipped late outcome := by
  induction items generalizing errors exchanges with
  | nil =>
    refine ⟨[], [], [], [], rfl, ?_, .nil, ?_⟩
    all_goals cases errors
    all_goals obtain ⟨rfl, rfl⟩ := h
    · rfl
    · rfl
    · exact .finished
    · rw [failures, List.filterMap_nil, List.append_nil]
      exact .finished
  | cons item rest ih =>
    rw [forEachCollectingFrom] at h
    obtain ⟨check, _, found, rfl, hcheck, h⟩ := yields_bind_iff.1 h
    cases found with
    | true =>
      obtain ⟨rfl, rfl⟩ := h
      exact ⟨[], item :: rest, [], _, rfl, List.append_nil _, .nil, .cancelled hcheck⟩
    | false =>
      obtain ⟨during, _, result, rfl, hvisit, h⟩ := yields_bind_iff.1 h
      cases result with
      | ok _ =>
        obtain ⟨visited, skipped, early, late, rfl, rfl, hvisits, hends⟩ := ih h
        exact ⟨(item, .ok ()) :: visited, skipped, _, late, rfl, by simp,
          .cons hcheck hvisit hvisits, hends⟩
      | error error =>
        obtain ⟨visited, skipped, early, late, rfl, rfl, hvisits, hends⟩ := ih h
        refine ⟨(item, .error error) :: visited, skipped, _, late, rfl, by simp,
          .cons hcheck hvisit hvisits, ?_⟩
        rwa [List.append_assoc] at hends

end Loop

end EventSourcing
