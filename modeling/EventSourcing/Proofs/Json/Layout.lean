import EventSourcing.Proofs.Json.Skipping
import EventSourcing.Proofs.Json.Spelling

namespace EventSourcing.Json

variable {α σ : Type}

/-- The field reads the member, from the parts with any other members given. -/
structure Field.Takes (field : Field σ) (gathered : List String → σ) (member : Member) : Prop where
  name_eq : field.name = member.name
  isOptional : member.mayBeOmitted → field.isOptional = true
  unread : ∀ given, member.name ∉ given → field.isRead (gathered given) = false
  takes : ∀ given text, member.spelled text →
    (field.read (gathered given)).Takes (gathered (member.name :: given)) text

/-- The record reads its members, and what is `gathered` from enough of them is the value. -/
structure Record.Gathers (record : Record σ α) (members : List Member)
    (gathered : List String → σ) (value : α) : Prop where
  start_eq : record.start = gathered []
  takes : List.Forall₂ (fun field member => field.Takes gathered member) record.fields members
  nodup : (members.map (·.name)).Nodup
  finish_eq : ∀ given, (∀ member ∈ members, member.name ∉ given → member.mayBeOmitted) →
    record.finish (gathered given) = .ok value

namespace Record

open Reader

section Fields

variable {fields : List (Field σ)} {members : List Member} {gathered : List String → σ}

/-- A member is looked up by its name. -/
theorem find?_of_takes
    (htakes : List.Forall₂ (fun field member => field.Takes gathered member) fields members)
    (hnodup : (members.map (·.name)).Nodup) {member : Member} (hmember : member ∈ members) :
    ∃ field, fields.find? (fun field => field.name == member.name) = some field ∧
      field.Takes gathered member := by
  induction htakes with
  | nil => cases hmember
  | @cons field first fields members hfirst _ ih =>
    obtain ⟨hnotMem, hnodup⟩ := List.nodup_cons.1 hnodup
    rcases List.mem_cons.1 hmember with rfl | hmember
    · refine ⟨field, ?_, hfirst⟩
      rw [List.find?_cons_of_pos (by simp [hfirst.name_eq])]
    · have hne : first.name ≠ member.name := fun h =>
        hnotMem (List.mem_map.2 ⟨member, hmember, h.symm⟩)
      rw [List.find?_cons_of_neg (by simp [hfirst.name_eq, hne])]
      exact ih hnodup hmember

theorem find?_of_takes_eq_none
    (htakes : List.Forall₂ (fun field member => field.Takes gathered member) fields members)
    {name : String} (hname : ∀ member ∈ members, member.name ≠ name) :
    fields.find? (fun field => field.name == name) = none := by
  induction htakes with
  | nil => rfl
  | @cons field first fields members hfirst _ ih =>
    obtain ⟨hne, hname⟩ := List.forall_mem_cons.1 hname
    rw [List.find?_cons_of_neg (by simp [hfirst.name_eq, hne])]
    exact ih hname

theorem isOptional_of_takes
    (htakes : List.Forall₂ (fun field member => field.Takes gathered member) fields members)
    (homitted : ∀ member ∈ members, member.mayBeOmitted) :
    ∀ field ∈ fields, field.isOptional = true := by
  induction htakes with
  | nil => exact List.forall_mem_nil _
  | cons hfirst _ ih =>
    obtain ⟨hmay, homitted⟩ := List.forall_mem_cons.1 homitted
    exact List.forall_mem_cons.2 ⟨hfirst.isOptional hmay, ih homitted⟩

theorem run_separator {isFirst : Bool} {comma : List Char} (hcomma : Comma isFirst comma)
    (rest : List Char) : (separator isFirst).run (comma ++ rest) = .ok ((), rest) := by
  cases hcomma with
  | absent => rfl
  | present hspace =>
    rw [List.append_assoc]
    exact run_char hspace rfl rest

/-- A member does not begin as the end of an object does. -/
theorem run_peek_member {isFirst : Bool} {comma : List Char} (hcomma : Comma isFirst comma)
    {name : String} {label : List Char} (hlabel : Named name label) (rest : List Char) :
    ∃ c, c ≠ '\x7d' ∧ peek.run (comma ++ (label ++ rest)) =
      .ok (some c, comma ++ (label ++ rest)) := by
  cases hcomma with
  | absent =>
    obtain ⟨⟨space, body, hspace, -, rfl⟩, -⟩ := hlabel
    refine ⟨'"', by decide, ?_⟩
    simp only [List.nil_append, List.append_assoc, List.cons_append]
    exact run_peek hspace rfl _
  | present hspace =>
    refine ⟨',', by decide, ?_⟩
    rw [List.append_assoc, List.singleton_append]
    exact run_peek hspace rfl _

/-- No element of an array begins as its end does. -/
theorem run_peek_element {isFirst : Bool} {comma : List Char} (hcomma : Comma isFirst comma)
    {text : List Char} (hbegins : BeginsValue text) (rest : List Char) :
    ∃ c, c ≠ ']' ∧ peek.run (comma ++ (text ++ rest)) = .ok (some c, comma ++ (text ++ rest)) := by
  cases hcomma with
  | absent =>
    obtain @⟨space, hspace, c, hc, hend, behind⟩ := hbegins
    refine ⟨c, hend, ?_⟩
    rw [List.nil_append, List.append_assoc, List.cons_append]
    exact run_peek hspace hc _
  | present hspace =>
    refine ⟨',', by decide, ?_⟩
    rw [List.append_assoc, List.singleton_append]
    exact run_peek hspace rfl _

end Fields

end Record

/-- Space before a comma belongs to it. -/
theorem Comma.padded {isFirst : Bool} {comma pad : List Char} (hcomma : Comma isFirst comma)
    (hpad : IsSpace pad) (hfirst : isFirst = true → pad = []) : Comma isFirst (pad ++ comma) := by
  cases hcomma with
  | absent =>
    rw [hfirst rfl]
    exact .absent
  | present hspace =>
    rw [← List.append_assoc]
    exact .present (hpad.append hspace)

theorem Comma.endsNumber {comma : List Char} (hcomma : Comma false comma) (rest : List Char) :
    EndsNumber (comma ++ rest) := by
  cases hcomma with
  | present hspace =>
    rw [List.append_assoc]
    exact hspace.endsNumber_cons (by decide) _

theorem ObjectBody.endsNumber {members : List Member} {given : List String} {text : List Char}
    (hbody : ObjectBody members false given text) (rest : List Char) :
    EndsNumber (text ++ rest) := by
  cases hbody with
  | close hspace _ =>
    rw [List.append_assoc]
    exact hspace.endsNumber_cons (by decide) _
  | member hcomma _ _ _ _ _ | other hcomma _ _ _ _ =>
    rw [List.append_assoc]
    exact hcomma.endsNumber _

theorem Named.run_string {name : String} {label : List Char} (hlabel : Named name label)
    (rest : List Char) : ∃ gap, IsSpace gap ∧
      Reader.string.run (label ++ rest) = .ok (name, gap ++ ':' :: rest) := by
  obtain @⟨literal, gap, hquoted, hgap⟩ := hlabel
  refine ⟨gap, hgap, Reader.run_string_iff.2 ⟨literal, ?_, hquoted⟩⟩
  simp

theorem Named.length_pos {name : String} {label : List Char} (hlabel : Named name label) :
    0 < label.length := by
  obtain ⟨-, -⟩ := hlabel
  simp only [List.length_append, List.length_cons]
  omega

section Gathers

open Reader Record

variable {record : Record σ α} {members : List Member} {gathered : List String → σ} {value : α}

/-- A member that has not been given yet is read as its field, but for space at its end. -/
theorem Record.Gathers.run_readMember (hgathers : record.Gathers members gathered value)
    {member : Member} (hmember : member ∈ members) {given : List String}
    (hnew : member.name ∉ given) {gap text rest : List Char} (hgap : IsSpace gap)
    (htext : member.spelled text) (hrest : EndsNumber rest) :
    ∃ pad, IsSpace pad ∧ (readMember record.fields member.name (gathered given)).run
      (gap ++ ':' :: (text ++ rest)) = .ok (gathered (member.name :: given), pad ++ rest) := by
  obtain ⟨field, hfound, htakes⟩ := find?_of_takes hgathers.takes hgathers.nodup hmember
  obtain ⟨literal, pad, ⟨-, hreads⟩, hpad, rfl⟩ := htakes.takes given text htext
  refine ⟨pad, hpad, ?_⟩
  simp only [readMember, hfound, htakes.unread given hnew]
  rw [if_neg (by simp), run_bind_of_ok (run_char hgap rfl _), List.append_assoc]
  exact hreads (pad ++ rest) (hpad.endsNumber hrest)

/-- Any other member is skipped. -/
theorem Record.Gathers.run_readMember_other (hgathers : record.Gathers members gathered value)
    {name : String} (hname : ∀ member ∈ members, member.name ≠ name) (parts : σ)
    {gap text rest : List Char} (hgap : IsSpace gap) (htext : Derives .value text)
    (hrest : EndsNumber rest) :
    (readMember record.fields name parts).run (gap ++ ':' :: (text ++ rest)) =
      .ok (parts, rest) := by
  simp only [readMember, find?_of_takes_eq_none hgathers.takes hname]
  rw [run_bind_of_ok (run_char hgap rfl _), run_bind_of_ok (htext.reads_skipped rest hrest)]
  rfl

/-- The rest of an object is read to its end, and no member is missing then that must not be. Space
may be left before it of what was read last. -/
theorem ObjectBody.run_readMembers (hgathers : record.Gathers members gathered value)
    {isFirst : Bool} {given : List String} {text : List Char}
    (hbody : ObjectBody members isFirst given text) {pad : List Char} (hpad : IsSpace pad)
    (hfirst : isFirst = true → pad = []) {steps : Nat} (hsteps : text.length ≤ steps)
    (rest : List Char) :
    ∃ all, (∀ member ∈ members, member.name ∉ all → member.mayBeOmitted) ∧
      (readMembers record.fields steps isFirst (gathered given)).run (pad ++ (text ++ rest)) =
        .ok (gathered all, rest) := by
  induction hbody generalizing steps pad with
  | @close isFirst given space hspace hcomplete =>
    refine ⟨given, hcomplete, ?_⟩
    cases steps with
    | zero => simp at hsteps
    | succ steps =>
      have hspaces := hpad.append hspace
      rw [List.append_assoc, List.singleton_append, ← List.append_assoc, readMembers,
        run_bind_of_ok (run_peek hspaces rfl rest), if_pos rfl,
        run_bind_of_ok (run_char hspaces rfl rest)]
      rfl
  | @member isFirst given member comma label text others hcomma hmember hnew hlabel htext hothers
      ih =>
    have hlength := hlabel.length_pos
    simp only [List.length_append] at hsteps
    cases steps with
    | zero => omega
    | succ steps =>
      have hcomma := hcomma.padded hpad hfirst
      obtain ⟨c, hc, hpeek⟩ := run_peek_member hcomma hlabel (text ++ (others ++ rest))
      obtain ⟨gap, hgap, hname⟩ := hlabel.run_string (text ++ (others ++ rest))
      obtain ⟨left, hleft, hread⟩ :=
        hgathers.run_readMember hmember hnew hgap htext (hothers.endsNumber rest)
      obtain ⟨all, hall, hrun⟩ := ih hleft nofun (by omega : others.length ≤ steps)
      refine ⟨all, hall, ?_⟩
      rw [List.append_assoc, List.append_assoc, List.append_assoc, ← List.append_assoc pad,
        readMembers, run_bind_of_ok hpeek, if_neg (by simpa using hc),
        run_bind_of_ok (run_separator hcomma _), run_bind_of_ok hname, run_bind_of_ok hread]
      exact hrun
  | @other isFirst given name comma label text others hcomma hname hlabel htext hothers ih =>
    have hlength := hlabel.length_pos
    simp only [List.length_append] at hsteps
    cases steps with
    | zero => omega
    | succ steps =>
      have hcomma := hcomma.padded hpad hfirst
      obtain ⟨c, hc, hpeek⟩ := run_peek_member hcomma hlabel (text ++ (others ++ rest))
      obtain ⟨gap, hgap, hstring⟩ := hlabel.run_string (text ++ (others ++ rest))
      obtain ⟨all, hall, hrun⟩ := ih isSpace_nil nofun (by omega : others.length ≤ steps)
      refine ⟨all, hall, ?_⟩
      rw [List.append_assoc, List.append_assoc, List.append_assoc, ← List.append_assoc pad,
        readMembers, run_bind_of_ok hpeek, if_neg (by simpa using hc),
        run_bind_of_ok (run_separator hcomma _), run_bind_of_ok hstring,
        run_bind_of_ok (hgathers.run_readMember_other hname _ hgap htext
          (hothers.endsNumber rest))]
      exact hrun

theorem ArrayBody.endsNumber {members : List Member} {text : List Char}
    (hbody : ArrayBody false members text) (rest : List Char) : EndsNumber (text ++ rest) := by
  cases hbody with
  | close hspace _ =>
    rw [List.append_assoc]
    exact hspace.endsNumber_cons (by decide) _
  | element hcomma _ _ =>
    rw [List.append_assoc]
    exact hcomma.endsNumber _

/-- At the end of an array, all fields that are still to come must be optional. -/
theorem Record.run_readElements_close {fields : List (Field σ)}
    (hoptional : ∀ field ∈ fields, field.isOptional = true) (isFirst : Bool) (parts : σ)
    {space : List Char} (hspace : IsSpace space) (rest : List Char) :
    (readElements fields isFirst parts).run (space ++ ']' :: rest) = .ok (parts, rest) := by
  induction fields with
  | nil =>
    rw [readElements, run_bind_of_ok (run_char hspace rfl rest)]
    rfl
  | cons field fields ih =>
    obtain ⟨hfirst, hoptional⟩ := List.forall_mem_cons.1 hoptional
    rw [readElements, run_bind_of_ok (run_peek hspace rfl rest), if_pos rfl, if_pos hfirst]
    exact ih hoptional

/-- The rest of an array is read to its end, and no member is missing then that must not be. Space
may be left before it of what was read last. -/
theorem ArrayBody.run_readElements {isFirst : Bool} {text : List Char}
    (hbody : ArrayBody isFirst members text) {fields : List (Field σ)}
    (htakes : List.Forall₂ (fun field member => field.Takes gathered member) fields members)
    {pad : List Char} (hpad : IsSpace pad) (hfirst : isFirst = true → pad = [])
    (given : List String) (rest : List Char) :
    ∃ all, (∀ name ∈ given, name ∈ all) ∧
      (∀ member ∈ members, member.name ∉ all → member.mayBeOmitted) ∧
      (readElements fields isFirst (gathered given)).run (pad ++ (text ++ rest)) =
        .ok (gathered all, rest) := by
  induction hbody generalizing fields given pad with
  | @close isFirst members space hspace homitted =>
    refine ⟨given, fun _ => id, fun member hmember _ => homitted member hmember, ?_⟩
    rw [List.append_assoc, List.singleton_append, ← List.append_assoc]
    exact run_readElements_close (isOptional_of_takes htakes homitted) isFirst _
      (hpad.append hspace) rest
  | @element isFirst member members comma text others hcomma htext hothers ih =>
    obtain _ | @⟨field, _, fields, _, hfield, htakes⟩ := htakes
    obtain ⟨literal, left, ⟨hbegins, hreads⟩, hleft, rfl⟩ := hfield.takes given text htext
    obtain ⟨all, hgiven, hall, hrun⟩ := ih htakes hleft nofun (member.name :: given)
    refine ⟨all, fun name hname => hgiven name (List.mem_cons_of_mem _ hname), ?_, ?_⟩
    · refine List.forall_mem_cons.2 ⟨fun hnotMem => ?_, hall⟩
      exact absurd (hgiven _ List.mem_cons_self) hnotMem
    · have hcomma := hcomma.padded hpad hfirst
      have hends := hleft.endsNumber (hothers.endsNumber rest)
      obtain ⟨c, hc, hpeek⟩ := run_peek_element hcomma hbegins (left ++ (others ++ rest))
      rw [List.append_assoc, List.append_assoc, List.append_assoc, ← List.append_assoc pad,
        readElements, run_bind_of_ok hpeek, if_neg (by simpa using hc),
        run_bind_of_ok (run_separator hcomma _), run_bind_of_ok (hreads _ hends)]
      exact hrun

/-- Every layout of a record is read as its value. -/
theorem Layout.reads (hgathers : record.Gathers members gathered value) {text : List Char}
    (hlayout : Layout members text) : record.reader.Reads text value := by
  intro rest _
  cases hlayout with
  | @object space body hspace hbody =>
    have hlength : body.length ≤ (body ++ rest).length := by simp
    obtain ⟨all, hall, hrun⟩ :=
      hbody.run_readMembers hgathers isSpace_nil (fun _ => rfl) hlength rest
    rw [List.nil_append] at hrun
    have hget : (get : Reader (List Char)).run (body ++ rest) = .ok (body ++ rest, body ++ rest) :=
      rfl
    rw [List.append_assoc, List.cons_append, Record.reader, run_bind_of_ok (run_peek hspace rfl _)]
    refine (run_bind_of_ok (run_char (c := '\x7b') hspace rfl _) _).trans ?_
    rw [run_bind_of_ok hget, hgathers.start_eq, run_bind_of_ok hrun]
    simp only [hgathers.finish_eq all hall]
    rfl
  | @array space body hspace hbody =>
    obtain ⟨all, -, hall, hrun⟩ :=
      hbody.run_readElements hgathers.takes isSpace_nil (fun _ => rfl) [] rest
    rw [List.nil_append] at hrun
    rw [List.append_assoc, List.cons_append, Record.reader, run_bind_of_ok (run_peek hspace rfl _)]
    refine (run_bind_of_ok (run_char (c := '[') hspace rfl _) _).trans ?_
    rw [hgathers.start_eq, run_bind_of_ok hrun]
    simp only [hgathers.finish_eq all hall]
    rfl

end Gathers

end EventSourcing.Json
