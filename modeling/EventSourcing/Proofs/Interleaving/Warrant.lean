import EventSourcing.Proofs.Interleaving.Discipline
import Mathlib.Data.List.Induction

namespace EventSourcing.Interleaving

variable {Request : Type} {Reply : Request → Type} {State Call : Type} {Outcome : Call → Type}

namespace System

variable (S : System Request Reply State Call Outcome)

/-- What becomes of a state when an entry is made. -/
def replayEntry (state : State) (entry : Entry Reply Outcome) : State :=
  match entry.action with
  | .answered request _ => (S.answer state request).2
  | .called | .returned _ => state

/-- The world that a history leads to. -/
def worldAfter (state : State) (history : List (Entry Reply Outcome)) :
    World State Reply Outcome :=
  ⟨history.foldl S.replayEntry state, history⟩

/-- An entry tells the reply that its request gets in a world. -/
def IsFaithful (world : World State Reply Outcome) (entry : Entry Reply Outcome) : Prop :=
  ∀ request reply, entry.action = .answered request reply →
    reply = (S.answer world.state request).1

variable {S} {state : State} {history : List (Entry Reply Outcome)}

theorem worldAfter_concat (entry : Entry Reply Outcome) :
    S.worldAfter state (history ++ [entry]) =
      ⟨S.replayEntry (S.worldAfter state history).state entry, history ++ [entry]⟩ := by
  simp [worldAfter]

/-- What holds in the beginning and is kept by every entry of a history holds in its end. -/
theorem worldAfter_induct {P : World State Reply Outcome → Prop}
    (hstart : P (S.worldAfter state []))
    (hentry : ∀ before entry after, history = before ++ entry :: after →
      P (S.worldAfter state before) → P (S.worldAfter state (before ++ [entry]))) :
    P (S.worldAfter state history) := by
  induction history using List.reverseRecOn with
  | nil => exact hstart
  | append_singleton history entry ih =>
    refine hentry history entry [] rfl (ih fun before other after hsplit => ?_)
    refine hentry before other (after ++ [entry]) ?_
    rw [hsplit, List.append_assoc, List.cons_append]

end System

/-- The discipline with one thing more to be kept: every entry of the history is faithful, and it
was warranted in the world in which it was made. -/
def Discipline.warranting (D : Discipline State Reply Outcome)
    (S : System Request Reply State Call Outcome) (state : State)
    (W : World State Reply Outcome → Entry Reply Outcome → Prop) :
    Discipline State Reply Outcome where
  Inv world := D.Inv world ∧ world = S.worldAfter state world.history ∧
    ∀ before entry after, world.history = before ++ entry :: after →
      D.Inv (S.worldAfter state before) ∧ S.IsFaithful (S.worldAfter state before) entry ∧
        W (S.worldAfter state before) entry
  Rel := D.Rel
  Post := D.Post
  refl h := D.refl h.1
  trans h h' := D.trans h.1 h'.1

namespace System

variable (S : System Request Reply State Call Outcome) (D : Discipline State Reply Outcome)
  (W : World State Reply Outcome → Entry Reply Outcome → Prop)

/-- From a world on, every step that a program takes as a part of call number `id` is warranted, and
`post` is true when it is done, if all calls keep the discipline. -/
def Warrants (id : Nat) (call : Call) {α : Type} (post : α → World State Reply Outcome → Prop) :
    Program Request Reply α → World State Reply Outcome → Prop
  | .done value, world => post value world
  | .ask request next, world =>
    W world ⟨id, call, .answered request (S.answer world.state request).1⟩ ∧
      (D.Inv (S.after world id call request) → D.Rel world (S.after world id call request) →
        if S.isCheckpoint request then
          ∀ later, D.Rely id (S.after world id call request) later →
            Warrants id call post (next (S.answer world.state request).1) later
        else
          Warrants id call post (next (S.answer world.state request).1)
            (S.after world id call request))

variable {S D W} {id : Nat} {call : Call} {α β : Type}

theorem Warrants.bind {mid : α → World State Reply Outcome → Prop}
    {post : β → World State Reply Outcome → Prop} {first : Program Request Reply α}
    {second : α → Program Request Reply β} {world : World State Reply Outcome}
    (hfirst : S.Warrants D W id call mid first world)
    (hsecond : ∀ value later, mid value later → S.Warrants D W id call post (second value) later) :
    S.Warrants D W id call post (first >>= second) world := by
  induction first generalizing world with
  | done value => exact hsecond value world hfirst
  | ask request next ih =>
    obtain ⟨hwarrant, hnext⟩ := hfirst
    refine ⟨hwarrant, fun hinv hrel => ?_⟩
    have hnext := hnext hinv hrel
    split at hnext
    · next hcheckpoint =>
      rw [if_pos hcheckpoint]
      intro later hrely
      exact ih _ (hnext later hrely)
    · next hcheckpoint =>
      rw [if_neg hcheckpoint]
      exact ih _ hnext

theorem Warrants.mono {weak strong : α → World State Reply Outcome → Prop}
    {program : Program Request Reply α} {world : World State Reply Outcome}
    (hprogram : S.Warrants D W id call strong program world)
    (himp : ∀ value later, strong value later → weak value later) :
    S.Warrants D W id call weak program world := by
  have h : S.Warrants D W id call weak (program >>= .done) world := hprogram.bind himp
  rwa [Program.bind_done] at h

section Warranting

variable {state : State}

theorem inv_concat {world later : World State Reply Outcome} {entry : Entry Reply Outcome}
    (hinv : (D.warranting S state W).Inv world) (hlater : D.Inv later)
    (hworld : later = ⟨S.replayEntry world.state entry, world.history ++ [entry]⟩)
    (hfaithful : S.IsFaithful world entry) (hwarrant : W world entry) :
    (D.warranting S state W).Inv later := by
  obtain ⟨hkept, hreplay, hentries⟩ := hinv
  subst hworld
  refine ⟨hlater, ?_, ?_⟩
  · rw [worldAfter_concat, ← hreplay]
  · intro before other after hsplit
    rcases concat_eq_append_cons hsplit with ⟨rest, -, hbefore⟩ | ⟨-, rfl, rfl⟩
    · exact hentries before other rest hbefore
    · rw [← hreplay]
      exact ⟨hkept, hfaithful, hwarrant⟩

private theorem rely_of_warranting {before after : World State Reply Outcome}
    (hrely : (D.warranting S state W).Rely id before after) : D.Rely id before after :=
  ⟨hrely.inv.1, hrely.rel, hrely.others⟩

private theorem Keeps.warranting {post post' : α → World State Reply Outcome → Prop}
    {program : Program Request Reply α} {world : World State Reply Outcome}
    (hkeeps : S.Keeps D id call post program world)
    (hwarrants : S.Warrants (D.warranting S state W) W id call post' program world)
    (hinv : (D.warranting S state W).Inv world) :
    S.Keeps (D.warranting S state W) id call (fun value later => post value later ∧
      post' value later ∧ (D.warranting S state W).Inv later) program world := by
  induction program generalizing world with
  | done value => exact ⟨hkeeps, hwarrants, hinv⟩
  | ask request next ih =>
    obtain ⟨hkept, hrel, hnext⟩ := hkeeps
    obtain ⟨hwarrant, hsteps⟩ := hwarrants
    have hafter : (D.warranting S state W).Inv (S.after world id call request) :=
      inv_concat hinv hkept rfl (fun _ _ haction => by cases haction; rfl) hwarrant
    refine ⟨hafter, hrel, ?_⟩
    have hsteps := hsteps hafter hrel
    split at hsteps
    · next hcheckpoint =>
      rw [if_pos hcheckpoint] at hnext ⊢
      intro later hrely
      exact ih _ (hnext later (rely_of_warranting hrely)) (hsteps later hrely) hrely.inv
    · next hcheckpoint =>
      rw [if_neg hcheckpoint] at hnext ⊢
      exact ih _ hnext hsteps hafter

/-- If all calls keep a discipline, and each of them, begun in any world, takes no steps but
warranted ones, then every entry of every run is warranted. -/
theorem Upholds.warranting (hupholds : S.Upholds D)
    (hcalled : ∀ (world : World State Reply Outcome) (id : Nat) (call : Call),
      (∀ entry ∈ world.history, entry.id ≠ id) → W world ⟨id, call, .called⟩)
    (hsteps : ∀ (world : World State Reply Outcome) (id : Nat) (call : Call),
      (∀ entry ∈ world.history, entry.id ≠ id) → (D.warranting S state W).Inv
        (world.record ⟨id, call, .called⟩) →
      S.Warrants (D.warranting S state W) W id call
        (fun outcome later => W later ⟨id, call, .returned outcome⟩) (S.program call)
        (world.record ⟨id, call, .called⟩)) :
    S.Upholds (D.warranting S state W) := by
  intro world id call hinv hfresh
  obtain ⟨⟨hkept, hrel⟩, hkeeps⟩ := hupholds world id call hinv.1 hfresh
  have hbegun : (D.warranting S state W).Inv (world.record ⟨id, call, .called⟩) :=
    inv_concat hinv hkept rfl (fun _ _ haction => by cases haction) (hcalled world id call hfresh)
  refine ⟨⟨hbegun, hrel⟩, ?_⟩
  refine (hkeeps.warranting (hsteps world id call hfresh hbegun) hbegun).mono ?_
  rintro outcome later ⟨⟨hpost, hrecorded, hrel⟩, hwarrant, hlater⟩
  exact ⟨hpost, inv_concat hlater hrecorded rfl (fun _ _ haction => by cases haction) hwarrant,
    hrel⟩

end Warranting

end System

end EventSourcing.Interleaving
