import EventSourcing.Proofs.Json.Texts
import Mathlib.Data.List.TakeWhile

namespace EventSourcing.Json

variable {α β : Type}

/-- Nothing follows that would continue a number. -/
def EndsNumber (rest : List Char) : Prop :=
  ∀ c, rest.head? = some c → c.isDigit = false ∧ c ≠ '.' ∧ c ≠ 'e' ∧ c ≠ 'E'

theorem dropSpace_cons {c : Char} (hspace : isSpace c = false) (cs : List Char) :
    dropSpace (c :: cs) = c :: cs :=
  List.dropWhile_cons_of_neg (by simp [hspace])

theorem IsSpace.dropSpace_append {space : List Char} (hspace : IsSpace space) (cs : List Char) :
    dropSpace (space ++ cs) = dropSpace cs :=
  List.dropWhile_append_of_pos hspace

theorem IsSpace.dropSpace_cons {space : List Char} (hspace : IsSpace space) {c : Char}
    (hc : isSpace c = false) (cs : List Char) : dropSpace (space ++ c :: cs) = c :: cs := by
  rw [hspace.dropSpace_append, Json.dropSpace_cons hc]

theorem exists_dropSpace (cs : List Char) : ∃ space, IsSpace space ∧ cs = space ++ dropSpace cs :=
  ⟨cs.takeWhile isSpace, fun _ => List.mem_takeWhile_imp, List.takeWhile_append_dropWhile.symm⟩

theorem dropSpace_eq_nil_iff {cs : List Char} : dropSpace cs = [] ↔ IsSpace cs :=
  List.dropWhile_eq_nil_iff

theorem isSpace_of_isDigit {c : Char} (h : c.isDigit = true) : isSpace c = false := by
  refine Bool.eq_false_iff.2 fun hspace => ?_
  simp only [isSpace, Bool.or_eq_true, beq_iff_eq] at hspace
  rcases hspace with ((rfl | rfl) | rfl) | rfl <;> cases h

/-- No space continues a number. -/
theorem IsSpace.endsNumber {space : List Char} (hspace : IsSpace space) {rest : List Char}
    (hrest : EndsNumber rest) : EndsNumber (space ++ rest) := by
  cases space with
  | nil => exact hrest
  | cons c cs =>
    rintro _ ⟨⟩
    have hc := hspace c List.mem_cons_self
    simp only [isSpace, Bool.or_eq_true, beq_iff_eq] at hc
    rcases hc with ((rfl | rfl) | rfl) | rfl <;> decide

/-- Space alone does not continue a number. -/
theorem IsSpace.endsNumber_self {space : List Char} (hspace : IsSpace space) : EndsNumber space :=
  List.append_nil space ▸ hspace.endsNumber nofun

theorem IsSpace.endsNumber_cons {space : List Char} (hspace : IsSpace space) {c : Char}
    (hc : c.isDigit = false ∧ c ≠ '.' ∧ c ≠ 'e' ∧ c ≠ 'E') (rest : List Char) :
    EndsNumber (space ++ c :: rest) := by
  refine hspace.endsNumber ?_
  rintro _ ⟨⟩
  exact hc

/-- Behind space, the text begins with something that does not end an array. -/
inductive BeginsValue : List Char → Prop where
  | intro {space : List Char} (hspace : IsSpace space) {c : Char} (hc : isSpace c = false)
      (hend : c ≠ ']') (behind : List Char) : BeginsValue (space ++ c :: behind)

theorem BeginsValue.append {text : List Char} (hbegins : BeginsValue text) (rest : List Char) :
    BeginsValue (text ++ rest) := by
  obtain @⟨space, hspace, c, hc, hend, behind⟩ := hbegins
  rw [List.append_assoc, List.cons_append]
  exact .intro hspace hc hend (behind ++ rest)

theorem BeginsValue.exists_dropSpace {text : List Char} (hbegins : BeginsValue text)
    (rest : List Char) : ∃ c behind, c ≠ ']' ∧ dropSpace (text ++ rest) = c :: behind := by
  obtain @⟨space, hspace, c, hc, hend, behind⟩ := hbegins
  refine ⟨c, behind ++ rest, hend, ?_⟩
  rw [List.append_assoc, List.cons_append, hspace.dropSpace_cons hc]

namespace Reader

/-- The reader takes this text off the front of any that does not continue a number. -/
def Reads (reader : Reader α) (text : List Char) (value : α) : Prop :=
  ∀ rest, EndsNumber rest → reader.run (text ++ rest) = .ok (value, rest)

/-- What holds of every value that the reader may read. -/
def Yields (reader : Reader α) (P : α → Prop) : Prop :=
  ∀ cs value rest, reader.run cs = .ok (value, rest) → P value

section Run

variable {reader : Reader α} {value : α} {text rest : List Char}

theorem run_bind_of_ok (h : reader.run text = .ok (value, rest)) (next : α → Reader β) :
    (reader >>= next).run text = (next value).run rest := by
  rw [StateT.run_bind, h]
  rfl

/-- What has been read by two readers was read by one and then by the other. -/
theorem exists_of_run_bind {next : α → Reader β} {result : β}
    (h : (reader >>= next).run text = .ok (result, rest)) :
    ∃ value between, reader.run text = .ok (value, between) ∧
      (next value).run between = .ok (result, rest) := by
  rw [StateT.run_bind] at h
  cases hrun : reader.run text with
  | error error =>
    rw [hrun] at h
    cases h
  | ok read =>
    rw [hrun] at h
    exact ⟨read.1, read.2, rfl, h⟩

theorem run_token {read? : List Char → Option (α × List Char)}
    (hread : read? (dropSpace text) = some (value, rest)) :
    (token read?).run text = .ok (value, rest) := by
  simp only [StateT.run, token, hread]

theorem read?_of_run_token {read? : List Char → Option (α × List Char)}
    (hrun : (token read?).run text = .ok (value, rest)) :
    read? (dropSpace text) = some (value, rest) := by
  cases hread : read? (dropSpace text) with
  | none =>
    simp only [StateT.run, token, hread] at hrun
    cases hrun
  | some result =>
    simp only [StateT.run, token, hread] at hrun
    cases hrun
    rfl

theorem run_char {space : List Char} (hspace : IsSpace space) {c : Char} (hc : isSpace c = false)
    (rest : List Char) : (char c).run (space ++ c :: rest) = .ok ((), rest) := by
  refine run_token ?_
  rw [hspace.dropSpace_cons hc]
  exact if_pos rfl

theorem run_peek {space : List Char} (hspace : IsSpace space) {c : Char} (hc : isSpace c = false)
    (rest : List Char) : peek.run (space ++ c :: rest) = .ok (some c, space ++ c :: rest) := by
  change Except.ok ((dropSpace (space ++ c :: rest)).head?, space ++ c :: rest) = _
  rw [hspace.dropSpace_cons hc]
  rfl

end Run

theorem Reads.bind {reader : Reader α} {next : α → Reader β} {text : List Char} {value : α}
    {result : β} (hreads : reader.Reads text value)
    (hnext : ∀ rest, (next value).run rest = .ok (result, rest)) :
    (reader >>= next).Reads text result := by
  intro rest hrest
  rw [run_bind_of_ok (hreads rest hrest)]
  exact hnext rest

/-- A text is decoded if nothing but space is left of it. -/
theorem decode_eq_ok_iff {reader : Reader α} {text : List Char} {value : α} :
    decode reader (String.ofList text) = .ok value ↔
      ∃ space, reader.run text = .ok (value, space) ∧ IsSpace space := by
  simp only [Reader.decode, String.toList_ofList]
  constructor
  · intro hdecode
    cases hrun : reader.run text with
    | error error =>
      rw [hrun] at hdecode
      cases hdecode
    | ok read =>
      rw [hrun] at hdecode
      obtain ⟨read, space⟩ := read
      by_cases hspace : dropSpace space = []
      · have hread : Except.ok read = Except.ok value := (if_pos hspace).symm.trans hdecode
        cases hread
        exact ⟨space, rfl, dropSpace_eq_nil_iff.1 hspace⟩
      · have hread : Except.error ReadError.malformed = Except.ok value :=
          (if_neg hspace).symm.trans hdecode
        cases hread
  · rintro ⟨space, hrun, hspace⟩
    rw [hrun]
    exact if_pos (dropSpace_eq_nil_iff.2 hspace)

/-- What the reader takes off the front of one text, it takes off the front of any. -/
def IsLocal (reader : Reader α) : Prop :=
  ∀ cs value rest, reader.run cs = .ok (value, rest) →
    ∃ literal, cs = literal ++ rest ∧ BeginsValue literal ∧ reader.Reads literal value

/-- The reader takes the text off the front of any, but for space at its end. -/
def Takes (reader : Reader α) (value : α) : List Char → Prop :=
  Padded fun literal => BeginsValue literal ∧ reader.Reads literal value

theorem IsLocal.takes {reader : Reader α} (hlocal : reader.IsLocal) {text space : List Char}
    {value : α} (hrun : reader.run text = .ok (value, space)) (hspace : IsSpace space) :
    reader.Takes value text := by
  obtain ⟨literal, htext, hliteral⟩ := hlocal _ _ _ hrun
  exact ⟨literal, space, hliteral, hspace, htext⟩

section Checked

variable {ε : Type} {reader : Reader β} {check : β → Except ε α} {error : ε → ReadError}

theorem run_checked_iff {cs rest : List Char} {value : α} :
    (checked reader check error).run cs = .ok (value, rest) ↔
      ∃ raw, reader.run cs = .ok (raw, rest) ∧ check raw = .ok value := by
  constructor
  · intro hrun
    obtain ⟨raw, between, hraw, hchecked⟩ := exists_of_run_bind hrun
    cases hcheck : check raw with
    | ok passed =>
      rw [hcheck] at hchecked
      cases hchecked
      exact ⟨raw, hraw, hcheck⟩
    | error problem =>
      rw [hcheck] at hchecked
      cases hchecked
  · rintro ⟨raw, hraw, hcheck⟩
    refine (run_bind_of_ok hraw _).trans ?_
    rw [hcheck]
    rfl

theorem IsLocal.checked (hlocal : reader.IsLocal) : (checked reader check error).IsLocal := by
  intro cs value rest hrun
  obtain ⟨raw, hraw, hcheck⟩ := run_checked_iff.1 hrun
  obtain ⟨literal, hcs, hbegins, hreads⟩ := hlocal _ _ _ hraw
  refine ⟨literal, hcs, hbegins, fun rest hrest => ?_⟩
  exact run_checked_iff.2 ⟨raw, hreads rest hrest, hcheck⟩

end Checked

section Yields

variable {reader : Reader α} {P : α → Prop} {Q : β → Prop}

theorem yields_pure {value : α} (hvalue : P value) : (pure value : Reader α).Yields P := by
  rintro cs _ _ ⟨⟩
  exact hvalue

theorem yields_throw (error : ReadError) : (throw error : Reader α).Yields P :=
  nofun

theorem Yields.bind {next : α → Reader β} (hreader : reader.Yields P)
    (hnext : ∀ value, P value → (next value).Yields Q) : (reader >>= next).Yields Q := by
  intro cs result rest hrun
  obtain ⟨value, between, hvalue, hresult⟩ := exists_of_run_bind hrun
  exact hnext value (hreader cs value between hvalue) between result rest hresult

/-- What comes of a text that is not looked into. -/
theorem yields_true (reader : Reader α) : reader.Yields fun _ => True :=
  fun _ _ _ _ => trivial

end Yields

end Reader

end EventSourcing.Json
