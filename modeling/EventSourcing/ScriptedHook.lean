namespace EventSourcing

/-- Arrivals not taken yet, and actions not set off yet. -/
structure ScriptedHook (P Action : Type) where
  arrivals : List P
  actions : List (P × Action)

namespace ScriptedHook

variable {P Action : Type} [DecidableEq P]

protected def empty : ScriptedHook P Action :=
  ⟨[], []⟩

/-- How many arrivals at a checkpoint have not been taken. -/
def pending (hook : ScriptedHook P Action) (checkpoint : P) : Nat :=
  hook.arrivals.count checkpoint

/-- The action that the next arrival at a checkpoint sets off. -/
def action? (hook : ScriptedHook P Action) (checkpoint : P) : Option Action :=
  (hook.actions.find? fun entry => entry.1 = checkpoint).map Prod.snd

/-- Lets the next arrival at a checkpoint set off an action, in place of any that waits there. -/
def onFirst (hook : ScriptedHook P Action) (checkpoint : P) (action : Action) :
    ScriptedHook P Action :=
  { hook with
    actions := (checkpoint, action) :: hook.actions.filter fun entry => entry.1 ≠ checkpoint }

/-- Counts an arrival and gives out the action that it sets off. The action is gone from the hook
before it runs, so it may itself put the next one in place. -/
def arrive (hook : ScriptedHook P Action) (checkpoint : P) :
    Option Action × ScriptedHook P Action :=
  (hook.action? checkpoint,
    ⟨checkpoint :: hook.arrivals, hook.actions.filter fun entry => entry.1 ≠ checkpoint⟩)

def tryTake (hook : ScriptedHook P Action) (checkpoint : P) : Bool × ScriptedHook P Action :=
  if checkpoint ∈ hook.arrivals then
    (true, { hook with arrivals := hook.arrivals.erase checkpoint })
  else
    (false, hook)

private theorem find?_filter_ne (actions : List (P × Action)) (checkpoint other : P) :
    (actions.filter fun entry => entry.1 ≠ checkpoint).find? (fun entry => entry.1 = other) =
      if other = checkpoint then none else actions.find? fun entry => entry.1 = other := by
  rw [List.find?_filter]
  split
  · next h => simp [h]
  · next h =>
    congr 1
    funext entry
    by_cases hentry : entry.1 = other <;> simp [hentry, h]

theorem pending_arrive (hook : ScriptedHook P Action) (checkpoint other : P) :
    (hook.arrive checkpoint).2.pending other =
      hook.pending other + if checkpoint = other then 1 else 0 := by
  simp [pending, arrive, List.count_cons]

@[simp]
theorem pending_onFirst (hook : ScriptedHook P Action) (checkpoint other : P) (action : Action) :
    (hook.onFirst checkpoint action).pending other = hook.pending other :=
  rfl

theorem tryTake_fst (hook : ScriptedHook P Action) (checkpoint : P) :
    (hook.tryTake checkpoint).1 = decide (0 < hook.pending checkpoint) := by
  unfold tryTake pending
  split <;> simp_all [List.count_pos_iff]

theorem pending_tryTake (hook : ScriptedHook P Action) (checkpoint other : P) :
    (hook.tryTake checkpoint).2.pending other =
      hook.pending other - if checkpoint = other then 1 else 0 := by
  unfold tryTake
  split
  · by_cases e : checkpoint = other
    · subst e
      simp [pending]
    · have : other ≠ checkpoint := fun h => e h.symm
      simp [pending, e, List.count_erase_of_ne this]
  · next absent =>
    by_cases e : checkpoint = other
    · subst e
      simp [pending, List.count_eq_zero.2 absent]
    · simp [e]

theorem action?_arrive (hook : ScriptedHook P Action) (checkpoint other : P) :
    (hook.arrive checkpoint).2.action? other =
      if other = checkpoint then none else hook.action? other := by
  rw [arrive, action?, action?, find?_filter_ne]
  split <;> rfl

theorem action?_onFirst (hook : ScriptedHook P Action) (checkpoint other : P) (action : Action) :
    (hook.onFirst checkpoint action).action? other =
      if other = checkpoint then some action else hook.action? other := by
  rw [onFirst, action?, action?, List.find?_cons, find?_filter_ne]
  by_cases h : other = checkpoint
  · simp [h]
  · have hne : ¬ checkpoint = other := fun e => h e.symm
    simp [h, hne]

theorem action?_tryTake (hook : ScriptedHook P Action) (checkpoint other : P) :
    (hook.tryTake checkpoint).2.action? other = hook.action? other := by
  unfold tryTake
  split <;> rfl

end ScriptedHook

end EventSourcing
