import EventSourcing.Cancellation
import EventSourcing.Proofs.Transcript

namespace EventSourcing.Collecting

variable {σ α ε : Type}

/-- What a loop is given beside its items. The tokens are a part of the world, and before each item
the loop looks at its own token, if it has one. -/
structure Loop (σ α ε : Type) where
  tokens : σ → Cancellations
  token : Option CancellationToken
  visit : α → StateM σ (Except ε Unit)

namespace Loop

variable (loop : Loop σ α ε)

/-- What the loop sees when it looks at its token. -/
def finds (world : σ) : Bool :=
  loop.token.any (loop.tokens world).isCancelled

/-- Visits items after some have failed with `errors`. -/
def runFrom (errors : List ε) (items : List α) (world : σ) :
    Except (CollectedError ε) Unit × σ :=
  (forEachCollectingFrom (loop.finds <$> get) loop.visit errors items).run world

def run (items : List α) (world : σ) : Except (CollectedError ε) Unit × σ :=
  (forEachCollecting (loop.finds <$> get) loop.visit items).run world

/-- The same loop with each of its visits put down, and what came of it. -/
def recorded : Loop (σ × List (α × Except ε Unit)) α ε where
  tokens world := loop.tokens world.1
  token := loop.token
  visit item world :=
    let visited := (loop.visit item).run world.1
    (visited.1, visited.2, world.2 ++ [(item, visited.1)])

/-- The same loop with other visits. -/
def withVisit (visit : α → StateM σ (Except ε Unit)) : Loop σ α ε :=
  { loop with visit := visit }

/-- What becomes of the world when items are visited, each once and in order. -/
def worldAfter (world : σ) (items : List α) : σ :=
  items.foldl (fun world item => ((loop.visit item).run world).2) world

/-- There is an item at a position, and there is a token, which is cancelled when the items in front
of the position have been visited. -/
def CancelledAt (items : List α) (world : σ) (position : Nat) : Prop :=
  position < items.length ∧ ∃ token, loop.token = some token ∧
    (loop.tokens (loop.worldAfter world (items.take position))).isCancelled token = true

variable {loop} {world later last : σ} {errors : List ε} {item : α} {rest items : List α}
  {result : Except ε Unit} {visited : List (α × Except ε Unit)}

theorem finds_iff : loop.finds world = true ↔
    ∃ token, loop.token = some token ∧ (loop.tokens world).isCancelled token = true := by
  rw [finds, Option.any_eq_true]

instance {position : Nat} : Decidable (loop.CancelledAt items world position) :=
  decidable_of_iff (position < items.length ∧
      loop.finds (loop.worldAfter world (items.take position)) = true)
    (and_congr_right fun _ => finds_iff)

theorem worldAfter_cons (hvisit : (loop.visit item).run world = (result, later)) :
    loop.worldAfter world (item :: rest) = loop.worldAfter later rest := by
  rw [worldAfter, List.foldl_cons, hvisit, worldAfter]

theorem run_visit_recorded (hvisit : (loop.visit item).run world = (result, later))
    (log : List (α × Except ε Unit)) : (loop.recorded.visit item).run (world, log) =
      (result, later, log ++ [(item, result)]) := by
  change (((loop.visit item).run world).1, ((loop.visit item).run world).2,
    log ++ [(item, ((loop.visit item).run world).1)]) = _
  rw [hvisit]

theorem runFrom_nil : loop.runFrom errors [] world = (conclusion errors, world) := by
  cases errors <;> rfl

theorem runFrom_of_finds (hfinds : loop.finds world = true) :
    loop.runFrom errors (item :: rest) world = (.error .cancelled, world) := by
  simp only [runFrom, forEachCollectingFrom, StateT.run_bind, StateT.run_map, StateT.run_get,
    map_pure, pure_bind, hfinds, if_true]
  rfl

theorem runFrom_of_visit (hfinds : loop.finds world = false)
    (hvisit : (loop.visit item).run world = (result, later)) :
    loop.runFrom errors (item :: rest) world =
      loop.runFrom (errors ++ failures [(item, result)]) rest later := by
  simp only [runFrom, forEachCollectingFrom, StateT.run_bind, StateT.run_map, StateT.run_get,
    map_pure, pure_bind, hfinds, Bool.false_eq_true, if_false, hvisit]
  cases result with
  | ok _ =>
    rw [failures, List.filterMap_cons_none rfl, List.filterMap_nil, List.append_nil]
    rfl
  | error error => rfl

/-- Items are visited one after the other, with the token not cancelled before any of them. -/
inductive Makes (loop : Loop σ α ε) : σ → List (α × Except ε Unit) → σ → Prop
  | nil {world : σ} : Makes loop world [] world
  | cons {world later last : σ} {item : α} {result : Except ε Unit}
      {visited : List (α × Except ε Unit)} (hfinds : loop.finds world = false)
      (hvisit : (loop.visit item).run world = (result, later))
      (hrest : Makes loop later visited last) : Makes loop world ((item, result) :: visited) last

/-- How a loop ends after its visits: it has no more items, or it finds its token cancelled. -/
inductive Ends (loop : Loop σ α ε) (errors : List ε) (last : σ) :
    List α → Except (CollectedError ε) Unit → Prop
  | finished : Ends loop errors last [] (conclusion errors)
  | cancelled {item : α} {rest : List α} (hfinds : loop.finds last = true) :
      Ends loop errors last (item :: rest) (.error .cancelled)

theorem Makes.worldAfter_eq (hmakes : loop.Makes world visited last) :
    loop.worldAfter world (visited.map Prod.fst) = last := by
  induction hmakes with
  | nil => rfl
  | cons _ hvisit _ ih => exact (worldAfter_cons hvisit).trans ih

theorem Makes.finds_eq_false (hmakes : loop.Makes world visited last) {position : Nat}
    (hposition : position < visited.length) :
    loop.finds (loop.worldAfter world ((visited.map Prod.fst).take position)) = false := by
  induction hmakes generalizing position with
  | nil => cases hposition
  | cons hfinds hvisit _ ih =>
    cases position with
    | zero => exact hfinds
    | succ position =>
      rw [List.map_cons, List.take_succ_cons, worldAfter_cons hvisit]
      exact ih (Nat.lt_of_succ_lt_succ hposition)

/-- A loop makes some visits and comes to its end, and its record holds just these. -/
theorem exists_makes (loop : Loop σ α ε) (errors : List ε) (items : List α) (world : σ)
    (log : List (α × Except ε Unit)) :
    ∃ visited skipped last outcome, items = visited.map Prod.fst ++ skipped ∧
      loop.Makes world visited last ∧ loop.Ends (errors ++ failures visited) last skipped outcome ∧
      loop.runFrom errors items world = (outcome, last) ∧
      loop.recorded.runFrom errors items (world, log) = (outcome, last, log ++ visited) := by
  induction items generalizing errors world log with
  | nil =>
    refine ⟨[], [], world, conclusion errors, rfl, .nil, ?_, runFrom_nil, ?_⟩
    · rw [failures, List.filterMap_nil, List.append_nil]
      exact .finished
    · rw [runFrom_nil, List.append_nil]
  | cons item rest ih =>
    cases hfinds : loop.finds world with
    | true =>
      have hlook : loop.recorded.finds (world, log) = true := hfinds
      refine ⟨[], item :: rest, world, .error .cancelled, rfl, .nil, .cancelled hfinds,
        runFrom_of_finds hfinds, ?_⟩
      rw [runFrom_of_finds hlook, List.append_nil]
    | false =>
      have hlook : loop.recorded.finds (world, log) = false := hfinds
      rcases hvisit : (loop.visit item).run world with ⟨result, later⟩
      -- What comes of this visit goes behind the earlier failures, and behind the earlier record.
      obtain ⟨visited, skipped, last, outcome, rfl, hmakes, hends, hrun, hlog⟩ :=
        ih (errors ++ failures [(item, result)]) later (log ++ [(item, result)])
      refine ⟨(item, result) :: visited, skipped, last, outcome, rfl, .cons hfinds hvisit hmakes,
        ?_, (runFrom_of_visit hfinds hvisit).trans hrun, ?_⟩
      · rwa [List.append_assoc, failures, failures, ← List.filterMap_append] at hends
      · rw [runFrom_of_visit hlook (run_visit_recorded hvisit log), hlog, List.append_assoc]
        rfl

theorem Makes.not_cancelledAt (hmakes : loop.Makes world visited last) (skipped : List α)
    {position : Nat} (hposition : position < visited.length) :
    ¬ loop.CancelledAt (visited.map Prod.fst ++ skipped) world position := by
  rintro ⟨-, hcancelled⟩
  have hfinds := finds_iff.2 hcancelled
  have hlength : position ≤ (visited.map Prod.fst).length := by
    rw [List.length_map]
    exact Nat.le_of_lt hposition
  rw [List.take_append_of_le_length hlength, hmakes.finds_eq_false hposition] at hfinds
  exact Bool.false_ne_true hfinds

theorem Makes.cancelledAt_length (hmakes : loop.Makes world visited last)
    (hfinds : loop.finds last = true) (item : α) (rest : List α) :
    loop.CancelledAt (visited.map Prod.fst ++ item :: rest) world visited.length := by
  refine ⟨by simp, finds_iff.1 ?_⟩
  rw [← visited.length_map Prod.fst, List.take_left, hmakes.worldAfter_eq]
  exact hfinds

end Loop

/-- The positions with a cancelled token decide how many items are visited. If there is one, the
outcome is the cancellation, and else the visits decide. -/
structure Collects (cancelledAt : Nat → Prop) (items : List α)
    (visited : List (α × Except ε Unit)) (outcome : Except (CollectedError ε) Unit) : Prop where
  stops : ∀ position, cancelledAt position → (∀ earlier < position, ¬ cancelledAt earlier) →
    visited.map Prod.fst = items.take position
  completes : (∀ position, ¬ cancelledAt position) → visited.map Prod.fst = items
  cancelled_iff : outcome = .error .cancelled ↔ ∃ position, cancelledAt position
  ok_iff : outcome = .ok () ↔
    (∀ position, ¬ cancelledAt position) ∧ ∀ visit ∈ visited, visit.2 = .ok ()
  failed_iff : ∀ errors, outcome = .error (.failed errors) ↔
    (∀ position, ¬ cancelledAt position) ∧ errors ≠ [] ∧ errors = failures visited

namespace Loop

variable {loop : Loop σ α ε} {world last : σ} {errors : List ε} {items skipped : List α}
  {visited : List (α × Except ε Unit)} {outcome : Except (CollectedError ε) Unit}
  {visit : α → StateM σ (Except ε Unit)}

theorem Makes.collects (hmakes : loop.Makes world visited last)
    (hends : loop.Ends (failures visited) last skipped outcome) :
    Collects (loop.CancelledAt (visited.map Prod.fst ++ skipped) world)
      (visited.map Prod.fst ++ skipped) visited outcome := by
  cases hends with
  | finished =>
    have hnone : ∀ position, ¬ loop.CancelledAt (visited.map Prod.fst ++ []) world position :=
      fun position h => hmakes.not_cancelledAt [] (by simpa using h.1) h
    refine ⟨fun position h => absurd h (hnone position), fun _ => (List.append_nil _).symm, ?_, ?_,
      fun errors => ?_⟩
    · exact iff_of_false conclusion_ne_cancelled fun ⟨position, h⟩ => hnone position h
    · rw [conclusion_eq_ok_iff, failures_eq_nil_iff_ok]
      exact (and_iff_right hnone).symm
    · rw [conclusion_eq_failed_iff]
      exact (and_iff_right hnone).symm
  | @cancelled item rest hfinds =>
    -- The first position with a cancelled token is the one behind the visits.
    have hat := hmakes.cancelledAt_length hfinds item rest
    refine ⟨fun position hposition hfirst => ?_, fun hnone => absurd hat (hnone _),
      iff_of_true rfl ⟨_, hat⟩, iff_of_false nofun fun h => h.1 _ hat,
      fun errors => iff_of_false nofun fun h => h.1 _ hat⟩
    obtain rfl : visited.length = position := by
      refine Nat.le_antisymm (Nat.not_lt.1 fun h => ?_) (Nat.not_lt.1 fun h => hfirst _ h hat)
      exact hmakes.not_cancelledAt _ h hposition
    rw [← visited.length_map Prod.fst, List.take_left]

/-- Other visits would come to the same and leave the same behind, except for the last of them:
what this one leaves behind may be anything. -/
inductive GoesAlike (loop : Loop σ α ε) (visit : α → StateM σ (Except ε Unit)) :
    List α → σ → Prop
  | nil {world : σ} : GoesAlike loop visit [] world
  | last {world : σ} {item : α}
      (hresult : ((visit item).run world).1 = ((loop.visit item).run world).1) :
      GoesAlike loop visit [item] world
  | cons {world : σ} {item : α} {rest : List α}
      (hvisit : (visit item).run world = (loop.visit item).run world)
      (hrest : GoesAlike loop visit rest ((loop.visit item).run world).2) :
      GoesAlike loop visit (item :: rest) world

/-- Nobody looks at the token behind the last item. -/
theorem GoesAlike.runFrom_fst (halike : loop.GoesAlike visit items world) :
    ((loop.withVisit visit).runFrom errors items world).1 =
      (loop.runFrom errors items world).1 := by
  induction halike generalizing errors with
  | nil => rw [runFrom_nil, runFrom_nil]
  | @last world item hresult =>
    have hlook : (loop.withVisit visit).finds world = loop.finds world := rfl
    cases hfinds : loop.finds world with
    | true => rw [runFrom_of_finds hfinds, runFrom_of_finds (hlook.trans hfinds)]
    | false =>
      rw [runFrom_of_visit hfinds rfl, runFrom_of_visit (hlook.trans hfinds) rfl, runFrom_nil,
        runFrom_nil]
      exact congrArg (fun result => conclusion (errors ++ failures [(item, result)])) hresult
  | @cons world item rest hvisit _ ih =>
    have hlook : (loop.withVisit visit).finds world = loop.finds world := rfl
    cases hfinds : loop.finds world with
    | true => rw [runFrom_of_finds hfinds, runFrom_of_finds (hlook.trans hfinds)]
    | false =>
      rw [runFrom_of_visit hfinds rfl, runFrom_of_visit (hlook.trans hfinds) hvisit]
      exact ih

/-- Whatever its visits do, a loop visits the items in front of the first position at which its
token is given and cancelled, or all of them if there is no such position, each once and in order,
failures notwithstanding. If there is one, it ends with the cancellation; else it ends well if no
visit failed, and with all failures in item order if some did. What the last visit leaves behind
makes no difference to its outcome, and no token does if there are no items. -/
theorem visits_prefix_keeping_failures (loop : Loop σ α ε) (items : List α) (world : σ) :
    ∃ visited outcome,
      loop.run items world = (outcome, loop.worldAfter world (visited.map Prod.fst)) ∧
      loop.recorded.run items (world, []) =
        (outcome, loop.worldAfter world (visited.map Prod.fst), visited) ∧
      Collects (loop.CancelledAt items world) items visited outcome ∧
      (∀ visit, loop.GoesAlike visit items world →
        ((loop.withVisit visit).run items world).1 = outcome) ∧
      loop.run [] world = (.ok (), world) := by
  obtain ⟨visited, skipped, last, outcome, rfl, hmakes, hends, hrun, hrecorded⟩ :=
    exists_makes loop [] items world []
  have hlast := hmakes.worldAfter_eq
  refine ⟨visited, outcome, ?_, ?_, hmakes.collects hends, fun visit halike => ?_, runFrom_nil⟩
  · rw [hlast]
    exact hrun
  · rw [hlast]
    exact hrecorded
  · exact halike.runFrom_fst.trans (congrArg Prod.fst hrun)

/-- Odd numbers are refused, and the visit to one number cancels the only token. -/
def sampleLoop (culprit : Nat) : Loop Cancellations Nat Nat where
  tokens := id
  token := some ⟨0⟩
  visit item cancellations :=
    (if item % 2 = 0 then .ok () else .error item,
      if item = culprit then cancellations.cancel ⟨0⟩ else cancellations)

/-- A cancellation during the visit to the second of three numbers hides that the first one was
refused; one during the visit to the third number hides nothing. -/
theorem visits_prefix_keeping_failures_of_lateCancelling :
    (sampleLoop 2).CancelledAt [1, 2, 3] .empty 2 ∧
    ((sampleLoop 2).run [1, 2, 3] .empty).1 = .error .cancelled ∧
    ((sampleLoop 2).recorded.run [1, 2, 3] (.empty, [])).2.2.map Prod.fst = [1, 2] ∧
    (∀ position, ¬ (sampleLoop 0).CancelledAt [1, 2, 3] .empty position) ∧
    ((sampleLoop 0).recorded.run [1, 2, 3] (.empty, [])).2.2.map Prod.fst = [1, 2, 3] ∧
    (sampleLoop 0).GoesAlike (sampleLoop 3).visit [1, 2, 3] .empty ∧
    (((sampleLoop 0).withVisit (sampleLoop 3).visit).run [1, 2, 3] .empty).1 =
      .error (.failed [1, 3]) := by
  have hat : (sampleLoop 2).CancelledAt [1, 2, 3] .empty 2 := by decide
  obtain ⟨visited, outcome, hrun, hrecorded, hcollects, -⟩ :=
    (sampleLoop 2).visits_prefix_keeping_failures [1, 2, 3] .empty
  have hvisited := hcollects.stops 2 hat (by decide)
  have hcancelled := hcollects.cancelled_iff.2 ⟨2, hat⟩
  have hnowhere : ∀ position < 3, ¬ (sampleLoop 0).CancelledAt [1, 2, 3] .empty position := by
    decide
  have hnone := fun position h => hnowhere position h.1 h
  have halike : (sampleLoop 0).GoesAlike (sampleLoop 3).visit [1, 2, 3] .empty :=
    .cons rfl (.cons rfl (.last rfl))
  obtain ⟨all, quiet, hquiet, hall, hquietly, hlate, -⟩ :=
    (sampleLoop 0).visits_prefix_keeping_failures [1, 2, 3] .empty
  obtain rfl : all = [(1, .error 1), (2, .ok ()), (3, .error 3)] :=
    (congrArg (fun outcome => outcome.2.2) hall).symm
  have hfailed := (hquietly.failed_iff [1, 3]).2 ⟨hnone, by decide, rfl⟩
  refine ⟨hat, ?_, ?_, hnone, ?_, halike, (hlate _ halike).trans hfailed⟩
  · rw [hrun]
    exact hcancelled
  · rw [hrecorded]
    exact hvisited
  · rw [hall]
    exact hquietly.completes hnone

end Loop

end EventSourcing.Collecting
