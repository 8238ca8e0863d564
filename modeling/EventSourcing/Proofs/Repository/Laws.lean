import EventSourcing.Proofs.Repository.Observation
import EventSourcing.Proofs.Repository.Race

namespace EventSourcing.Repository

open Interleaving

variable {E : Type}

/-- Every aggregate keeps its laws. -/
def Sound (world : World E) : Prop :=
  ∀ key, (streamOf world key).Valid key

/-- What calls may rely on while others run. -/
def Follows (before after : World E) : Prop :=
  ∀ key, (streamOf before key).Later (streamOf after key)

/-- How an append may end that was checked against a log with a tail not too short for it. A window
that shuts it out has been left by others since then. -/
structure Raced (history : History E) (id : Nat) (key : AggregateKey) (first last : SequenceId)
    (seen : Snapshot (EventLog E)) (outcome : Result Unit) : Prop where
  ok_iff : outcome = .ok () ↔ first = seen.value.tail + 1 ∧ ¬ History.Overtaken history key id
  of_not_shutOut : ¬ History.ShutOut history id first last →
    outcome = .ok () ∨ outcome = .error (.optimisticConcurrency key)
  of_shutOut : History.ShutOut history id first last → History.Overtaken history key id ∧
    ∃ met, History.met? history id = some met ∧
      outcome = .error (.beforeWindow first met.value.first)

/-- Every append with a proper batch reads a log, and ends as its race has ended if the log is not
too short for it. -/
def laws : Discipline (Repository E) (Request.Reply (E := E)) (Call.Outcome (E := E)) where
  Inv := Sound
  Rel := Follows
  Post
    | id, .append key batch, outcome, world => ∀ first, IsBatch key first batch →
        ∃ seen, History.read? world.history id = some seen ∧ (first ≤ seen.value.tail + 1 →
          Raced world.history id key first (first + (batch.length - 1)) seen outcome)
    | _, _, _, _ => True
  refl := fun _ _ => .refl _
  trans := fun hsound _ hfirst hsecond key => (hfirst key).trans (hsound key) (hsecond key)

theorem Changes.sound {before after : World E} {key : AggregateKey} {t : Stream E}
    (hchanges : Changes before after key t) (hsound : Sound before) (hvalid : t.Valid key) :
    Sound after := by
  intro other
  by_cases hother : other = key
  · subst hother
    rw [hchanges.self]
    exact hvalid
  · rw [hchanges.others other hother]
    exact (hsound other).aged hchanges.nextStamp_le

theorem Changes.follows {before after : World E} {key : AggregateKey} {t : Stream E}
    (hchanges : Changes before after key t) (hlater : (streamOf before key).Later t) :
    Follows before after := by
  intro other
  by_cases hother : other = key
  · subst hother
    rw [hchanges.self]
    exact hlater
  · rw [hchanges.others other hother]
    exact .of_same rfl rfl hchanges.nextStamp_le fun h => h

theorem Sound.of_same {before after : World E} (hsound : Sound before)
    (hsame : ∀ key, streamOf after key = streamOf before key) : Sound after := by
  intro key
  rw [hsame key]
  exact hsound key

theorem Follows.of_same {before after : World E}
    (hsame : ∀ key, streamOf after key = streamOf before key) : Follows before after := by
  intro key
  rw [hsame key]
  exact .refl _

/-- An entry that says nothing about any aggregate may always be made. -/
theorem records_of_silent {world : World E} (hsound : Sound world) {entry : Entry E}
    (hsilent : ∀ key, entry.IsSilent key) : laws.Records world entry := by
  have hsame := fun key => streamOf_silent (hsilent key) world.state world.history
  exact ⟨hsound.of_same hsame, .of_same hsame⟩

/-- What call number `id` knows of a world with regard to an earlier one: the laws hold, all others
have respected them, and the call itself has come no further than to a stage. -/
structure Since (id stage : Nat) (earlier later : World E) : Prop where
  sound : Sound later
  follows : Follows earlier later
  history : earlier.history <+: later.history
  within : History.Within later.history id stage

namespace Since

variable {config : RepositoryConfig} {id stage : Nat} {call : Call E} {α : Type}
  {post : α → World E → Prop} {earlier world : World E}

theorem refl (hsound : Sound world) (hwithin : History.Within world.history id stage) :
    Since id stage world world :=
  ⟨hsound, laws.refl hsound, List.prefix_refl _, hwithin⟩

theorem mono (hsince : Since id stage earlier world) {stage' : Nat} (hle : stage ≤ stage') :
    Since id stage' earlier world :=
  { hsince with within := hsince.within.mono hle }

theorem rely {later : World E} (hearlier : Sound earlier) (hsince : Since id stage earlier world)
    (hrely : laws.Rely id world later) : Since id stage earlier later := by
  obtain ⟨entries, hentries, hne⟩ := hrely.others
  refine ⟨hrely.inv, laws.trans hearlier hsince.sound hsince.follows hrely.rel, ?_, ?_⟩
  · rw [hentries]
    exact hsince.history.trans (List.prefix_append _ _)
  · rw [hentries]
    exact hsince.within.append fun entry hentry hid => absurd hid (hne entry hentry)

theorem trans {stage' : Nat} {later : World E} (hearlier : Sound earlier)
    (hfirst : Since id stage earlier world) (hsecond : Since id stage' world later) :
    Since id stage' earlier later :=
  ⟨hsecond.sound, laws.trans hearlier hfirst.sound hfirst.follows hsecond.follows,
    hfirst.history.trans hsecond.history, hsecond.within⟩

/-- The call itself has done one thing more. -/
theorem concat (hearlier : Sound earlier) (hsince : Since id stage earlier world)
    {state : Repository E} {entry : Entry E} {stage' : Nat} (hle : stage ≤ stage')
    (hstage : entry.stage ≤ stage') (hsound : Sound ⟨state, world.history ++ [entry]⟩)
    (hfollows : Follows world ⟨state, world.history ++ [entry]⟩) :
    Since id stage' earlier ⟨state, world.history ++ [entry]⟩ := by
  refine ⟨hsound, laws.trans hearlier hsince.sound hsince.follows hfollows, ?_, ?_⟩
  · exact hsince.history.trans (List.prefix_append _ _)
  · refine (hsince.within.mono hle).append fun other hother _ => ?_
    obtain rfl := List.mem_singleton.1 hother
    exact hstage

/-- A step between two checkpoints. -/
theorem keeps_step {request : Request E} {reply : request.Reply} {state : Repository E}
    {next : request.Reply → Operation E α} (hanswer : answer world.state request = (reply, state))
    (hcheckpoint : request.isCheckpoint = false)
    (hsound : Sound ⟨state, world.history ++ [⟨id, call, .answered request reply⟩]⟩)
    (hfollows : Follows world ⟨state, world.history ++ [⟨id, call, .answered request reply⟩]⟩)
    (hnext : (calls config).Keeps laws id call post (next reply)
      ⟨state, world.history ++ [⟨id, call, .answered request reply⟩]⟩) :
    (calls config).Keeps laws id call post (step request >>= next) world := by
  have hafter : (calls config).after world id call request =
      ⟨state, world.history ++ [⟨id, call, .answered request reply⟩]⟩ := by
    simp only [System.after, calls, hanswer]
  have hreply : ((calls config).answer world.state request).1 = reply :=
    congrArg Prod.fst hanswer
  refine ⟨?_, ?_, ?_⟩
  · rw [hafter]
    exact hsound
  · rw [hafter]
    exact hfollows
  · rw [if_neg (by simp [calls, hcheckpoint]), hafter, hreply]
    exact hnext

section Steps

variable (hearlier : Sound earlier) (hsince : Since id stage earlier world)

include hearlier hsince

variable {request : Request E} {reply : request.Reply} {state : Repository E}
  {next : request.Reply → Operation E α} {stage' : Nat}

/-- A step that changes the stream of one aggregate. -/
theorem keeps_change (hanswer : answer world.state request = (reply, state))
    (hcheckpoint : request.isCheckpoint = false) {key : AggregateKey} {t : Stream E}
    (hchanges : Changes world ⟨state, world.history ++ [⟨id, call, .answered request reply⟩]⟩ key t)
    (hvalid : t.Valid key) (hlater : (streamOf world key).Later t) (hle : stage ≤ stage')
    (hstage : Entry.stage ⟨id, call, .answered request reply⟩ ≤ stage')
    (hnext : ∀ after, after.history = world.history ++ [⟨id, call, .answered request reply⟩] →
      Since id stage' earlier after → streamOf after key = t →
      (calls config).Keeps laws id call post (next reply) after) :
    (calls config).Keeps laws id call post (step request >>= next) world := by
  have hsound := hchanges.sound hsince.sound hvalid
  have hfollows := hchanges.follows hlater
  exact keeps_step hanswer hcheckpoint hsound hfollows
    (hnext _ rfl (hsince.concat hearlier hle hstage hsound hfollows) hchanges.self)

/-- A step that changes nothing that is known of any aggregate. -/
theorem keeps_same (hanswer : answer world.state request = (reply, state))
    (hcheckpoint : request.isCheckpoint = false)
    (hstate : ∀ key, streamOf ⟨state, world.history⟩ key = streamOf world key)
    (hsilent : ∀ key, Entry.IsSilent ⟨id, call, .answered request reply⟩ key)
    (hle : stage ≤ stage') (hstage : Entry.stage ⟨id, call, .answered request reply⟩ ≤ stage')
    (hnext : ∀ after, after.state = state →
      after.history = world.history ++ [⟨id, call, .answered request reply⟩] →
      Since id stage' earlier after → (∀ key, streamOf after key = streamOf world key) →
      (calls config).Keeps laws id call post (next reply) after) :
    (calls config).Keeps laws id call post (step request >>= next) world := by
  have hsame := fun key => (streamOf_silent (hsilent key) _ _).trans (hstate key)
  have hsound := hsince.sound.of_same hsame
  have hfollows := Follows.of_same hsame
  exact keeps_step hanswer hcheckpoint hsound hfollows
    (hnext _ rfl rfl (hsince.concat hearlier hle hstage hsound hfollows) hsame)

/-- A checkpoint, at which others may run. -/
theorem keeps_reached {checkpoint : Checkpoint} {key : AggregateKey} {next : Unit → Operation E α}
    (hcheckpoint : checkpoint ≠ .markDeliveredEnded)
    (hnext : ∀ later, Since id stage earlier later → Since id stage world later →
      (calls config).Keeps laws id call post (next ()) later) :
    (calls config).Keeps laws id call post (reached checkpoint key >>= next) world := by
  have hsilent := Entry.isSilent_reached hcheckpoint id call key
  have hsame := fun other => streamOf_silent (hsilent other) world.state world.history
  have hsound := hsince.sound.of_same hsame
  have hfollows := Follows.of_same hsame
  have hparked : (calls (E := E) config).isCheckpoint (.reached checkpoint key) = true := rfl
  refine ⟨hsound, hfollows, ?_⟩
  rw [if_pos hparked]
  intro later hrely
  have hconcat := (refl hsince.sound hsince.within).concat hsince.sound (Nat.le_refl _)
    (Nat.zero_le _) hsound hfollows
  have hlater := hconcat.rely hsince.sound hrely
  exact hnext later (hsince.trans hearlier hlater) hlater

end Steps

end Since

end EventSourcing.Repository
