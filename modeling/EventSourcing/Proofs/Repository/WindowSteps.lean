import EventSourcing.Proofs.Repository.Covering
import EventSourcing.Proofs.Snapshots

namespace EventSourcing.Repository

open Interleaving Program

variable {E : Type} {config : RepositoryConfig} {key : AggregateKey}

/-- What an entry does to the window of an aggregate, whose stream is `s` before the entry and `t`
behind it. By then the call of the entry has been told the exchanges `told`. -/
inductive WindowStep (key : AggregateKey) (told : Transcript E) (s t : Stream E) : Prop
  | spares : t.window = s.window → t.tail = s.tail → WindowStep key told s t
  | opens {found rest last stamp} :
      told = ⟨.logs (.getOrInsert key .empty), found⟩ :: rest → found.1.value.tail < last →
      t.window = some ⟨stamp, .opened (found.1.value.tail + 1) last⟩ → t.tail = s.tail →
      WindowStep key told s t
  | widens {found rest last stamp current} :
      told = ⟨.logs (.getOrInsert key .empty), found⟩ :: rest → found.1.value.tail < last →
      s.window = some current →
      ¬ (last < current.value.last ∧ ¬ current.value.isSpeculative found.1.value.tail = true) →
      t.window = some ⟨stamp, current.value.widened (found.1.value.tail + 1) last⟩ →
      t.tail = s.tail → WindowStep key told s t
  /-- The log grows, right up to where the window begins. -/
  | commits {window} : s.window = some window → t.window = some window →
      window.value.first = s.tail + 1 → WindowStep key told s t
  | advances {current new} : s.window = some current → t.window = some new →
      new.value.first = current.value.first → new.value.delivered < new.value.last →
      t.tail = s.tail → WindowStep key told s t
  | removes : t.window = none → WindowStep key told s t

namespace WindowStep

variable {before : History E} {entry : Entry E} {told : Transcript E}

/-- What leaves the entries of a key as they are in two of the maps spares the window. -/
private theorem of_state
    (hwindow : (History.world (before ++ [entry])).state.windows.get? key =
      (History.world before).state.windows.get? key)
    (hlog : (History.world (before ++ [entry])).state.logs.get? key =
      (History.world before).state.logs.get? key) :
    WindowStep key told (streamOf (History.world before) key)
      (streamOf (History.world (before ++ [entry])) key) :=
  .spares hwindow (by simp only [Stream.tail, streamOf, hlog])

private theorem of_same
    (hsame : (History.world (before ++ [entry])).state = (History.world before).state) :
    WindowStep key told (streamOf (History.world before) key)
      (streamOf (History.world (before ++ [entry])) key) :=
  of_state (by rw [hsame]) (by rw [hsame])

/-- A request to a log or a window of another aggregate spares the window, and so does a request to
neither of them. -/
private theorem of_request {id : Nat} {call : Call E} {request : Request E}
    {reply : request.Reply} (hlogs : ∀ asked, request = .logs asked → asked.key? ≠ some key)
    (hwindows : ∀ asked, request = .windows asked → asked.key? ≠ some key) :
    WindowStep key told (streamOf (History.world before) key)
      (streamOf (History.world (before ++ [⟨id, call, .answered request reply⟩])) key) := by
  have hanswered := congrArg World.state (History.world_answered before id call request reply)
  cases request with
  | logs asked =>
    let used : SnapshotMap.Use AggregateKey (EventLog E) :=
      ⟨(History.world before).state.logs, asked⟩
    have hlog : used.after.get? key = used.map.get? key :=
      SnapshotMap.Use.get?_after_of_ne (hlogs asked rfl)
    exact of_state (by rw [hanswered]; rfl) (by rw [hanswered]; exact hlog)
  | windows asked =>
    let used : SnapshotMap.Use AggregateKey Window := ⟨(History.world before).state.windows, asked⟩
    have hwindow : used.after.get? key = used.map.get? key :=
      SnapshotMap.Use.get?_after_of_ne (hwindows asked rfl)
    exact of_state (by rw [hanswered]; exact hwindow) (by rw [hanswered]; rfl)
  | indexes | reached | report =>
    exact of_state (by rw [hanswered]; rfl) (by rw [hanswered]; rfl)

private theorem of_windows_of_ne {id : Nat} {call : Call E} {owner : AggregateKey}
    {asked : SnapshotMap.Request AggregateKey Window} {reply : asked.Reply}
    (howner : asked.key? = some owner) (hne : owner ≠ key) :
    WindowStep key told (streamOf (History.world before) key)
      (streamOf (History.world (before ++ [⟨id, call, .answered (.windows asked) reply⟩]))
        key) := by
  refine of_request nofun ?_
  rintro _ ⟨⟩ heq
  exact hne (Option.some.inj (howner.symm.trans heq))

private theorem of_logs_of_ne {id : Nat} {call : Call E} {owner : AggregateKey}
    {asked : SnapshotMap.Request AggregateKey (EventLog E)} {reply : asked.Reply}
    (howner : asked.key? = some owner) (hne : owner ≠ key) :
    WindowStep key told (streamOf (History.world before) key)
      (streamOf (History.world (before ++ [⟨id, call, .answered (.logs asked) reply⟩])) key) := by
  refine of_request ?_ nofun
  rintro _ ⟨⟩ heq
  exact hne (Option.some.inj (howner.symm.trans heq))

/-- A log that is looked up ends where it has ended before, even if it is new. -/
private theorem of_readLog {id : Nat} {call : Call E} {reply} :
    WindowStep key told (streamOf (History.world before) key)
      (streamOf (History.world
        (before ++ [⟨id, call, .answered (.logs (.getOrInsert key .empty)) reply⟩])) key) := by
  cases hlog : (History.world before).state.logs.get? key with
  | some log => exact of_same (by rw [History.world_answered, answer_readLog hlog])
  | none =>
    rw [History.world_answered, answer_createLog hlog]
    refine .spares rfl ?_
    simp only [Stream.tail, streamOf, hlog, SnapshotMap.get?_getOrInsert_of_absent hlog]
    rfl

section Run

variable {moment : Moment E} {after : History E} {id : Nat} {batch : List (RecordedEvent E)}

private theorem of_meetWindow {window : Window} {reply} (hreach : Reachable config moment)
    (hsplit : moment.world.history = before ++
      ⟨id, .append key batch, .answered (.windows (.getOrInsert key window)) reply⟩ :: after) :
    WindowStep key (exchangesOf id before) (streamOf (History.world before) key)
      (streamOf (History.world (before ++
        [⟨id, .append key batch, .answered (.windows (.getOrInsert key window)) reply⟩])) key) := by
  cases hmet : (History.world before).state.windows.get? key with
  | some current => exact of_same (by rw [History.world_answered, answer_meetWindow hmet])
  | none =>
    obtain ⟨found, hbatch, ⟨htold, met, hrequest⟩ | ⟨current, -, hwidening, -⟩⟩ :=
      hreach.windows_step hsplit rfl
    · cases hrequest
      have hlast : found.1.value.tail < found.1.value.tail + batch.length :=
        Nat.lt_add_of_pos_right (List.length_pos_iff.2 hbatch.ne_nil)
      rw [History.world_answered, answer_openWindow hmet]
      exact .opens htold hlast (SnapshotMap.get?_getOrInsert_of_absent hmet _) rfl
    · cases hwidening

private theorem of_widen {current : Snapshot Window} {new : Window} {reply}
    (hreach : Reachable config moment)
    (hsplit : moment.world.history = before ++
      ⟨id, .append key batch, .answered (.windows (.compareAndSwap key current new)) reply⟩ ::
        after)
    (hcurrent : (History.world before).state.windows.get? key = some current) :
    WindowStep key (exchangesOf id before) (streamOf (History.world before) key)
      (streamOf (History.world (before ++ [⟨id, .append key batch,
        .answered (.windows (.compareAndSwap key current new)) reply⟩])) key) := by
  obtain ⟨found, hbatch, ⟨-, met, hrequest⟩ | ⟨met, htold, hwidening, hkept, -⟩⟩ :=
    hreach.windows_step hsplit rfl
  · cases hrequest
  · cases hwidening
    have hlast : found.1.value.tail < found.1.value.tail + batch.length :=
      Nat.lt_add_of_pos_right (List.length_pos_iff.2 hbatch.ne_nil)
    have hswap := SnapshotMap.isCurrent_of_get? hcurrent
    rw [History.world_answered, answer_swapWindow hswap]
    exact .widens htold hlast hcurrent hkept (SnapshotMap.get?_compareAndSwap_self hswap _) rfl

private theorem of_commit {seen : Snapshot (EventLog E)} {new : EventLog E} {reply}
    (hreach : Reachable config moment)
    (hsplit : moment.world.history = before ++
      ⟨id, .append key batch, .answered (.logs (.compareAndSwap key seen new)) reply⟩ :: after) :
    WindowStep key (exchangesOf id before) (streamOf (History.world before) key)
      (streamOf (History.world (before ++ [⟨id, .append key batch,
        .answered (.logs (.compareAndSwap key seen new)) reply⟩])) key) := by
  cases hcurrent : (History.world before).state.logs.isCurrent key seen with
  | false => exact of_same (by rw [History.world_answered, answer_swapLog_of_not hcurrent])
  | true =>
    obtain rfl : reply = true := (hreach.faithful hsplit _ _ rfl).trans
      ((SnapshotMap.compareAndSwap_fst _ _ _ _).trans hcurrent)
    obtain ⟨window, hwindow, hfirst, -⟩ :=
      hreach.covered_until_commit (hsplit.trans (by rw [List.append_nil])) (by simp [exchangesOf])
    refine .commits hwindow ?_ hfirst
    rw [History.world_answered]
    exact hwindow

private theorem of_append {owner : AggregateKey} {action : (Call.append owner batch).Action}
    (hreach : Reachable config moment)
    (hsplit : moment.world.history = before ++ ⟨id, .append owner batch, action⟩ :: after) :
    WindowStep key (exchangesOf id before) (streamOf (History.world before) key)
      (streamOf (History.world (before ++ [⟨id, .append owner batch, action⟩])) key) := by
  obtain ⟨hstep, -⟩ : AppendStep id owner batch (History.world before) action ∧ _ :=
    hreach.warranted hsplit
  cases hstep with
  | called | succeed | fail =>
    refine of_same ?_
    rw [History.state_world_concat]
    rfl
  | lookUp | enrol | reached => exact of_request nofun nofun
  | readLog reply =>
    by_cases howner : owner = key
    · subst howner
      exact of_readLog
    · exact of_logs_of_ne rfl howner
  | meetWindow reply =>
    by_cases howner : owner = key
    · subst howner
      exact of_meetWindow hreach hsplit
    · exact of_windows_of_ne rfl howner
  | widen reply hcurrent =>
    by_cases howner : owner = key
    · subst howner
      exact of_widen hreach hsplit hcurrent
    · exact of_windows_of_ne rfl howner
  | commit reply =>
    by_cases howner : owner = key
    · subst howner
      exact of_commit hreach hsplit
    · exact of_logs_of_ne rfl howner

private theorem of_delivery {owner : AggregateKey} {delivered : SequenceId}
    {action : (Call.markDelivered (E := E) owner delivered).Action}
    (hreach : Reachable config moment) (hsplit : moment.world.history = before ++
      ⟨id, .markDelivered owner delivered, action⟩ :: after) :
    WindowStep key told (streamOf (History.world before) key)
      (streamOf (History.world (before ++ [⟨id, .markDelivered owner delivered, action⟩]))
        key) := by
  rcases DeliveryStep.quiet_or_settles (hreach.warranted hsplit) (hreach.faithful hsplit) with
    ⟨hstate, -⟩ | ⟨current, hcurrent, -, new, hnew, ⟨hlt, rfl⟩ | ⟨-, rfl⟩⟩
  · exact of_same hstate
  · by_cases howner : owner = key
    · subst howner
      have hswap := SnapshotMap.isCurrent_of_get? hcurrent
      rw [History.world_answered, answer_swapWindow hswap]
      exact .advances hcurrent (SnapshotMap.get?_compareAndSwap_self hswap new)
        (by simp [hnew, Stream.settled]) hlt rfl
    · exact of_windows_of_ne rfl howner
  · by_cases howner : owner = key
    · subst howner
      have hswap := SnapshotMap.isCurrent_of_get? hcurrent
      rw [History.world_answered, answer_removeWindow hswap]
      exact .removes (SnapshotMap.get?_compareAndRemove_self hswap)
    · exact of_windows_of_ne rfl howner

end Run

end WindowStep

namespace Reachable

variable {moment : Moment E} {before after : History E} {entry : Entry E}

/-- No entry of a run does anything else to the window of an aggregate. -/
theorem windowStep (hreach : Reachable config moment)
    (hsplit : moment.world.history = before ++ entry :: after) (key : AggregateKey) :
    WindowStep key (exchangesOf entry.id before) (streamOf (History.world before) key)
      (streamOf (History.world (before ++ [entry])) key) := by
  obtain ⟨id, call, action⟩ := entry
  cases call with
  | append owner batch => exact .of_append hreach hsplit
  | markDelivered owner delivered => exact .of_delivery hreach hsplit
  | listEvents | listUndelivered | listIds =>
    have hlisting : ListingStep (History.world before) _ := hreach.warranted hsplit
    exact .of_same hlisting.state_eq

/-- Whoever has been told nothing up to some moment reads a log later that is no shorter than it was
then. -/
private theorem tail_le_of_read (hreach : Reachable config moment) {since : History E} {id : Nat}
    {found : Snapshot (EventLog E) × Bool} {rest : Transcript E}
    (hpart : before ++ since <+: moment.world.history) (huntold : exchangesOf id before = [])
    (hread : exchangesOf id (before ++ since) = ⟨.logs (.getOrInsert key .empty), found⟩ :: rest) :
    (streamOf (History.world before) key).tail ≤ found.1.value.tail := by
  rw [exchangesOf_append, huntold, ← List.nil_append (_ :: rest)] at hread
  obtain ⟨between, call, late, rfl, -, -⟩ := exists_split_of_exchangesOf hread
  obtain ⟨later, hlater⟩ := hpart
  have hsplit : moment.world.history = (before ++ between) ++
      ⟨id, call, .answered (.logs (.getOrInsert key .empty)) found⟩ :: (late ++ later) := by
    simp [← hlater]
  rw [← hreach.tail_eq_of_read hsplit]
  exact (hreach.follows (List.prefix_append _ _) ⟨_, hsplit.symm⟩ key).tail_le

/-- If nobody has done something since some moment who had been told anything by then, and the log
has grown since, then no window begins before the former end of the log. -/
private theorem tail_lt_first (hreach : Reachable config moment) {since : History E}
    (hpart : before ++ since <+: moment.world.history)
    (huntold : ∀ entry ∈ since, exchangesOf entry.id before = [])
    (hgrown : (streamOf (History.world before) key).tail <
      (streamOf (History.world (before ++ since)) key).tail) {window : Snapshot Window}
    (hwindow : (streamOf (History.world (before ++ since)) key).window = some window) :
    (streamOf (History.world before) key).tail < window.value.first := by
  induction since using List.reverseRecOn generalizing window with
  | nil =>
    rw [List.append_nil] at hgrown
    exact absurd hgrown (Nat.lt_irrefl _)
  | append_singleton since entry ih =>
    rw [← List.append_assoc] at hpart hgrown hwindow
    have hearlier : before ++ since <+: moment.world.history :=
      (List.prefix_append _ _).trans hpart
    have htold := huntold entry (by simp)
    have ih := ih hearlier fun other hother => huntold other (List.mem_append_left _ hother)
    obtain ⟨after, hafter⟩ := hpart
    rw [List.append_assoc, List.singleton_append] at hafter
    cases hreach.windowStep hafter.symm key with
    | spares hsame htail =>
      rw [htail] at hgrown
      rw [hsame] at hwindow
      exact ih hgrown hwindow
    | opens hread _ hopened _ =>
      obtain rfl := Option.some.inj (hopened.symm.trans hwindow)
      exact Nat.lt_succ_of_le (hreach.tail_le_of_read hearlier htold hread)
    | widens hread _ _ _ hwidened _ =>
      obtain rfl := Option.some.inj (hwidened.symm.trans hwindow)
      exact Nat.lt_succ_of_le (hreach.tail_le_of_read hearlier htold hread)
    | commits _ hsame hfirst =>
      obtain rfl := Option.some.inj (hsame.symm.trans hwindow)
      rw [hfirst]
      exact Nat.lt_succ_of_le (hreach.follows (List.prefix_append _ _) hearlier key).tail_le
    | advances hcurrent hnew hfirst _ htail =>
      obtain rfl := Option.some.inj (hnew.symm.trans hwindow)
      rw [htail] at hgrown
      rw [hfirst]
      exact ih hgrown hcurrent
    | removes hnone => cases hnone.symm.trans hwindow

/-- When an append that has been overtaken does something, no window begins before the end of the
log that it has read: those that have overtaken it began later, and read a log that was no
shorter. -/
theorem tail_lt_first_of_overtaken (hreach : Reachable config moment)
    (hsplit : moment.world.history = before ++ entry :: after)
    {found : Snapshot (EventLog E) × Bool} {rest : Transcript E}
    (htold : exchangesOf entry.id before = ⟨.logs (.getOrInsert key .empty), found⟩ :: rest)
    (hgrown : found.1.value.tail < (streamOf (History.world before) key).tail)
    {window : Snapshot Window}
    (hwindow : (streamOf (History.world before) key).window = some window) :
    found.1.value.tail < window.value.first := by
  rw [← List.nil_append (_ :: rest)] at htold
  obtain ⟨early, call, since, rfl, hfirst, -⟩ := exists_split_of_exchangesOf htold
  rw [List.append_assoc, List.cons_append] at hsplit
  have huntold := System.Reaches.untold_before hreach hsplit hfirst rfl
  rw [← hreach.tail_eq_of_read hsplit] at hgrown ⊢
  refine hreach.tail_lt_first ⟨entry :: after, ?_⟩ ?_ hgrown hwindow
  · rw [List.append_assoc, List.cons_append]
    exact hsplit.symm
  · exact List.forall_mem_cons.2 ⟨hfirst, huntold⟩

end Reachable

end EventSourcing.Repository
