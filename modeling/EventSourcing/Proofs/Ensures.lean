import EventSourcing.Proofs.Transcript

namespace EventSourcing

variable {Request : Type} {Reply : Request → Type} {σ α β ε : Type}

/-- For each request, and for something that is to be true of the reply and the state then, the
states in which it will be. -/
structure Handling (Request : Type) (Reply : Request → Type) (σ : Type) where
  ensures : (request : Request) → (Reply request → σ → Prop) → σ → Prop
  mono : ∀ {request post post' state}, ensures request post state →
    (∀ reply later, post reply later → post' reply later) → ensures request post' state

namespace Program

/-- A program comes to its end, and then something is true of its value and the state. -/
def Ensures (handling : Handling Request Reply σ) (post : α → σ → Prop) :
    Program Request Reply α → σ → Prop
  | done value, state => post value state
  | ask request next, state =>
    handling.ensures request (fun reply => (next reply).Ensures handling post) state

section

variable {handling : Handling Request Reply σ} {state : σ}

theorem Ensures.mono {post post' : α → σ → Prop} {program : Program Request Reply α}
    (hprogram : program.Ensures handling post state)
    (h : ∀ value later, post value later → post' value later) :
    program.Ensures handling post' state := by
  induction program generalizing state with
  | done value => exact h value state hprogram
  | ask request next ih => exact handling.mono hprogram fun reply later => ih reply

theorem ensures_bind {first : Program Request Reply α} {second : α → Program Request Reply β}
    {post : β → σ → Prop} : (first >>= second).Ensures handling post state ↔
      first.Ensures handling (fun value => (second value).Ensures handling post) state := by
  have heq : (first >>= second).Ensures handling post =
      first.Ensures handling fun value => (second value).Ensures handling post := by
    induction first with
    | done value => rfl
    | ask request next ih => exact congrArg (handling.ensures request) (funext ih)
  rw [heq]

/-- A loop that finds no cancellation visits all items. What is true before a visit, with the item
and those behind it still to come, is true again after it, with those behind it. -/
theorem ensures_forEachCollectingFrom {isCancelled : Program Request Reply Bool}
    {visit : α → Program Request Reply (Except ε Unit)} (inv : List α → σ → Prop)
    (result : α → Except ε Unit)
    (hcheck : ∀ rest state, inv rest state →
      isCancelled.Ensures handling (fun found later => found = false ∧ inv rest later) state)
    (hvisit : ∀ item rest state, inv (item :: rest) state → (visit item).Ensures handling
      (fun outcome later => outcome = result item ∧ inv rest later) state)
    (errors : List ε) {items : List α} (hinv : inv items state) :
    (forEachCollectingFrom isCancelled visit errors items).Ensures handling
      (fun outcome later => outcome = conclusion
        (errors ++ failures (items.map fun item => (item, result item))) ∧ inv [] later) state := by
  induction items generalizing errors state with
  | nil => cases errors <;> exact ⟨by simp [conclusion, failures], hinv⟩
  | cons item rest ih =>
    rw [forEachCollectingFrom, ensures_bind]
    · refine (hcheck _ state hinv).mono ?_
      rintro found checked ⟨rfl, hchecked⟩
      rw [if_neg Bool.false_ne_true, ensures_bind]
      refine (hvisit item rest checked hchecked).mono ?_
      rintro outcome visited ⟨rfl, hvisited⟩
      cases hresult : result item with
      | ok _ =>
        refine (ih errors hvisited).mono ?_
        rintro outcome later ⟨rfl, hlater⟩
        exact ⟨by simp [failures, hresult], hlater⟩
      | error error =>
        refine (ih (errors ++ [error]) hvisited).mono ?_
        rintro outcome later ⟨rfl, hlater⟩
        exact ⟨by simp [failures, hresult], hlater⟩

/-- A program keeps what each of its requests keeps. -/
theorem ensures_of_keeps {inv : σ → Prop}
    (hkeeps : ∀ request state, inv state → handling.ensures request (fun _ => inv) state)
    (program : Program Request Reply α) (hinv : inv state) :
    program.Ensures handling (fun _ => inv) state := by
  induction program generalizing state with
  | done value => exact hinv
  | ask request next ih =>
    exact handling.mono (hkeeps request state hinv) fun reply later hlater => ih reply hlater

/-- A loop keeps what looking for a cancellation and visiting an item keep. -/
theorem ensures_forEachCollecting_of_keeps {inv : σ → Prop}
    {isCancelled : Program Request Reply Bool}
    {visit : α → Program Request Reply (Except ε Unit)}
    (hcheck : ∀ state, inv state → isCancelled.Ensures handling (fun _ => inv) state)
    (hvisit : ∀ item state, inv state → (visit item).Ensures handling (fun _ => inv) state)
    (items : List α) (hinv : inv state) :
    (forEachCollecting isCancelled visit items).Ensures handling (fun _ => inv) state := by
  unfold forEachCollecting
  generalize [] = errors
  induction items generalizing errors state with
  | nil => cases errors <;> exact hinv
  | cons item rest ih =>
    rw [forEachCollectingFrom, ensures_bind]
    · refine (hcheck state hinv).mono fun found checked hchecked => ?_
      cases found with
      | true => exact hchecked
      | false =>
        rw [if_neg Bool.false_ne_true, ensures_bind]
        refine (hvisit item checked hchecked).mono fun outcome visited hvisited => ?_
        cases outcome with
        | ok _ => exact ih hvisited _
        | error error => exact ih hvisited _

end

end Program

namespace Handling

/-- Each request is answered by a program of its own, whatever its number. -/
def serving {Inner : Type} {InnerReply : Inner → Type}
    (handler : Nat → (request : Request) → Program Inner InnerReply (Reply request))
    (inner : Handling Inner InnerReply σ) : Handling Request Reply σ where
  ensures request post state := ∀ number, (handler number request).Ensures inner post state
  mono h hpost number := (h number).mono hpost

/-- Each request is answered at once, and it finds a state of which something is true. -/
def answering (answer : σ → (request : Request) → Reply request × σ) (always : σ → Prop) :
    Handling Request Reply σ where
  ensures request post state :=
    always state ∧ post (answer state request).1 (answer state request).2
  mono h hpost := ⟨h.1, hpost _ _ h.2⟩

end Handling

namespace Program

theorem Ensures.serve {Inner : Type} {InnerReply : Inner → Type}
    {handler : Nat → (request : Request) → Program Inner InnerReply (Reply request)}
    {inner : Handling Inner InnerReply σ} {post : α → σ → Prop} {state : σ}
    {program : Program Request Reply α}
    (h : program.Ensures (.serving handler inner) post state) (number : Nat) :
    (program.serve handler number).Ensures inner (fun served => post served.1) state := by
  induction program generalizing state number with
  | done value => exact h
  | ask request next ih =>
    rw [serve_ask, ensures_bind]
    exact (h number).mono fun reply later hreply => ih reply hreply (number + 1)

section Alone

variable (answer : σ → (request : Request) → Reply request × σ)

/-- Runs a program with nothing else in between. -/
def alone : Program Request Reply α → σ → α × σ
  | done value, state => (value, state)
  | ask request next, state => (next (answer state request).1).alone (answer state request).2

/-- Something is true whenever a program that runs alone asks for something, and in the end. -/
def Throughout (always : σ → Prop) : Program Request Reply α → σ → Prop
  | done _, state => always state
  | ask request next, state =>
    always state ∧ (next (answer state request).1).Throughout always (answer state request).2

variable {answer} {always always' : σ → Prop} {program : Program Request Reply α} {state : σ}

theorem Throughout.start (hprogram : program.Throughout answer always state) : always state := by
  cases program with
  | done value => exact hprogram
  | ask request next => exact hprogram.1

theorem Throughout.alone (hprogram : program.Throughout answer always state) :
    always (program.alone answer state).2 := by
  induction program generalizing state with
  | done value => exact hprogram
  | ask request next ih => exact ih _ hprogram.2

theorem Throughout.mono (hprogram : program.Throughout answer always state)
    (h : ∀ moment, always moment → always' moment) : program.Throughout answer always' state := by
  induction program generalizing state with
  | done value => exact h state hprogram
  | ask request next ih => exact ⟨h state hprogram.1, ih _ hprogram.2⟩

theorem Throughout.and (hprogram : program.Throughout answer always state)
    (hprogram' : program.Throughout answer always' state) :
    program.Throughout answer (fun moment => always moment ∧ always' moment) state := by
  induction program generalizing state with
  | done value => exact ⟨hprogram, hprogram'⟩
  | ask request next ih => exact ⟨⟨hprogram.1, hprogram'.1⟩, ih _ hprogram.2 hprogram'.2⟩

/-- What a program ensures that runs alone, it does. -/
theorem Ensures.alone {post : α → σ → Prop}
    (h : program.Ensures (.answering answer always) post state) :
    post (program.alone answer state).1 (program.alone answer state).2 := by
  induction program generalizing state with
  | done value => exact h
  | ask request next ih => exact ih _ h.2

/-- What comes of a program that runs alone can be told beforehand. -/
theorem Ensures.and_alone {post : α → σ → Prop}
    (h : program.Ensures (.answering answer always) post state) :
    program.Ensures (.answering answer always)
      (fun value later => post value later ∧ value = (program.alone answer state).1) state := by
  induction program generalizing state with
  | done value => exact ⟨h, rfl⟩
  | ask request next ih => exact ⟨h.1, ih _ h.2⟩

/-- What is true of its end, a program that runs alone ensures. -/
theorem ensures_of_alone {post : α → σ → Prop}
    (hpost : post (program.alone answer state).1 (program.alone answer state).2) :
    program.Ensures (.answering answer fun _ => True) post state := by
  induction program generalizing state with
  | done value => exact hpost
  | ask request next ih => exact ⟨trivial, ih _ hpost⟩

theorem Ensures.throughout {post : α → σ → Prop}
    (h : program.Ensures (.answering answer always) post state)
    (hend : ∀ value later, post value later → always later) :
    program.Throughout answer always state := by
  induction program generalizing state with
  | done value => exact hend value state h
  | ask request next ih => exact ⟨h.1, ih _ h.2⟩

/-- A program that runs alone ensures what is true of its end, if something is true throughout. -/
theorem Throughout.ensures {post : α → σ → Prop}
    (hprogram : program.Throughout answer always state)
    (hpost : post (program.alone answer state).1 (program.alone answer state).2) :
    program.Ensures (.answering answer always) post state := by
  induction program generalizing state with
  | done value => exact hpost
  | ask request next ih => exact ⟨hprogram.1, ih _ hprogram.2 hpost⟩

/-- What no request takes away from stays between what it was and what it will be. -/
theorem throughout_prefix (part : σ → List β)
    (hgrows : ∀ state request, part state <+: part (answer state request).2)
    (program : Program Request Reply α) (state : σ) :
    program.Throughout answer (fun moment => part state <+: part moment ∧
      part moment <+: part (program.alone answer state).2) state := by
  induction program generalizing state with
  | done value => exact ⟨List.prefix_rfl, List.prefix_rfl⟩
  | ask request next ih =>
    have hnext := hgrows state request
    have hrest := ih (answer state request).1 (answer state request).2
    refine ⟨⟨List.prefix_rfl, hnext.trans hrest.start.2⟩, hrest.mono fun moment hmoment => ?_⟩
    exact ⟨hnext.trans hmoment.1, hmoment.2⟩

end Alone

/-- Someone answers requests who remembers all that has been asked and answered before; any answers
can be given like this. -/
def recording (behaviour : List (Exchange Reply) → (request : Request) → Reply request)
    (past : List (Exchange Reply)) (request : Request) :
    Reply request × List (Exchange Reply) :=
  (behaviour past request, past ++ [⟨request, behaviour past request⟩])

theorem exists_yields (behaviour : List (Exchange Reply) → (request : Request) → Reply request)
    (program : Program Request Reply α) (past : List (Exchange Reply)) :
    ∃ transcript value, program.alone (recording behaviour) past = (value, past ++ transcript) ∧
      program.Yields transcript value := by
  induction program generalizing past with
  | done value => exact ⟨[], value, by rw [alone, List.append_nil], rfl, rfl⟩
  | ask request next ih =>
    obtain ⟨transcript, value, hrun, hyields⟩ :=
      ih (behaviour past request) (past ++ [⟨request, behaviour past request⟩])
    refine ⟨⟨request, behaviour past request⟩ :: transcript, value, ?_, _, _, rfl, hyields⟩
    rw [alone, recording, hrun, List.append_assoc]
    rfl

end Program

end EventSourcing
