import EventSourcing.Proofs.Json.Texts

namespace EventSourcing.Json

/-- What a character is written as spells that character. -/
theorem Spells.escape_append (c : Char) {body text : List Char} (hspells : Spells body text) :
    Spells (escape c ++ body) (c :: text) := by
  unfold escape
  -- Seven characters have short escapes.
  iterate 7
    split
    · next h =>
      subst h
      exact .short rfl hspells
  split
  · next hcontrol =>
    have hread : Text.Hex.read? (Text.Hex.write 4 c.toNat) = some c.toNat :=
      Text.Hex.read?_write (Nat.lt_trans hcontrol (by decide))
    have hhigh : isHighSurrogate c.toNat = false := by simp [isHighSurrogate]; omega
    have hlow : isLowSurrogate c.toNat = false := by simp [isLowSurrogate]; omega
    have hspelled := Spells.unit hread hhigh hlow hspells
    rwa [Char.ofNat_toNat] at hspelled
  · next hquote hslash _ _ _ _ _ hcontrol =>
    exact .plain hquote hslash (Nat.not_lt.1 hcontrol) hspells

theorem spells_flatMap_escape (text : List Char) : Spells (text.flatMap escape) text := by
  induction text with
  | nil => exact .nil
  | cons c text ih => exact ih.escape_append c

theorem quoted_writeString (s : String) : Quoted s (writeString s) :=
  ⟨[], s.toList.flatMap escape, isSpace_nil, spells_flatMap_escape s.toList, rfl⟩

theorem whole_writeNat (n : Nat) : Whole (writeNat n) := by
  have hdigits : ∀ c ∈ writeNat n, c.isDigit = true := fun c hc =>
    Nat.isDigit_of_mem_toDigits (by decide) (by decide) hc
  cases hwrite : writeNat n with
  | nil => exact absurd hwrite Nat.toDigits_ne_nil
  | cons d digits =>
    by_cases hzero : d = '0'
    · obtain rfl : n = 0 := head?_writeNat n (by rw [hwrite, hzero]; rfl)
      rw [← hwrite]
      exact .zero
    · exact .nonzero ⟨List.cons_ne_nil _ _, hwrite ▸ hdigits⟩ hzero

theorem numeral_writeNat (n : Nat) : Numeral n (writeNat n) :=
  ⟨[], writeNat n, isSpace_nil, whole_writeNat n, decimalValue_writeNat n, rfl⟩

/-- Members, with a comma before each that is not the first. -/
def membersFrom (isFirst : Bool) : List (String × List Char) → List Char
  | [] => []
  | (name, value) :: rest =>
    (if isFirst then [] else [',']) ++
      (writeString name ++ [':'] ++ (value ++ membersFrom false rest))

theorem writeMembers_eq (written : List (String × List Char)) :
    writeMembers written = membersFrom true written := by
  induction written with
  | nil => rfl
  | cons first rest ih =>
    cases rest with
    | nil => simp [writeMembers, membersFrom]
    | cons second rest => simp_all [writeMembers, membersFrom]

theorem named_writeString (name : String) : Named name (writeString name ++ [':']) :=
  .mk (quoted_writeString name) isSpace_nil

/-- What is written under the name of a member is one of its texts. -/
def Member.IsWrittenAs (member : Member) (written : String × List Char) : Prop :=
  written.1 = member.name ∧ member.spelled written.2

/-- The members behind those that are given make the rest of an object. -/
theorem objectBody_membersFrom {members all : List Member} {written : List (String × List Char)}
    (hwritten : List.Forall₂ Member.IsWrittenAs members written)
    (hnodup : (members.map (·.name)).Nodup) (hsubset : ∀ member ∈ members, member ∈ all)
    {given : List String} (hnew : ∀ member ∈ members, member.name ∉ given)
    (hall : ∀ member ∈ all, member ∈ members ∨ member.name ∈ given) (isFirst : Bool) :
    ObjectBody all isFirst given (membersFrom isFirst written ++ ['\x7d']) := by
  induction hwritten generalizing given isFirst with
  | nil =>
    refine .close isSpace_nil fun member hmember hnotMem => ?_
    exact absurd ((hall member hmember).resolve_left List.not_mem_nil) hnotMem
  | @cons member text members written htext _ ih =>
    obtain ⟨name, text⟩ := text
    obtain ⟨rfl, htext⟩ := htext
    obtain ⟨hnotMem, hnodup⟩ := List.nodup_cons.1 hnodup
    obtain ⟨hmember, hsubset⟩ := List.forall_mem_cons.1 hsubset
    obtain ⟨hmemberNew, hnew⟩ := List.forall_mem_cons.1 hnew
    have hcomma : Comma isFirst (if isFirst then [] else [',']) := by
      cases isFirst with
      | true => exact .absent
      | false => exact .present isSpace_nil
    have hothers : ObjectBody all false (member.name :: given)
        (membersFrom false written ++ ['\x7d']) := by
      refine ih hnodup hsubset (fun other hother hmem => ?_) (fun other hother => ?_) false
      · rcases List.mem_cons.1 hmem with hname | hmem
        · exact hnotMem (List.mem_map.2 ⟨other, hother, hname⟩)
        · exact hnew other hother hmem
      · rcases hall other hother with hmem | hmem
        · rcases List.mem_cons.1 hmem with rfl | hmem
          · exact .inr List.mem_cons_self
          · exact .inl hmem
        · exact .inr (List.mem_cons_of_mem _ hmem)
    have hbody := ObjectBody.member hcomma hmember hmemberNew (named_writeString member.name)
      htext hothers
    simpa [membersFrom] using hbody

/-- The object that is written with all members in order is one of the layouts. -/
theorem layout_writeObject {members : List Member} {written : List (String × List Char)}
    (hwritten : List.Forall₂ Member.IsWrittenAs members written)
    (hnodup : (members.map (·.name)).Nodup) : Layout members (writeObject written) := by
  have hbody : ObjectBody members true [] (membersFrom true written ++ ['\x7d']) :=
    objectBody_membersFrom hwritten hnodup (fun _ => id) (fun _ _ => List.not_mem_nil)
      (fun _ => .inl) true
  rw [writeObject, writeMembers_eq]
  exact .object isSpace_nil hbody

end EventSourcing.Json

namespace EventSourcing.Uuid

theorem form_toString (u : Uuid) : u.Form (toString u).toList := by
  have hdigits : u.IsDigits (Text.Hex.write 32 u.bits.toNat) :=
    ⟨Text.Hex.length_write .., Text.Hex.read?_write (Nat.lt_of_lt_of_eq u.bits.isLt (by decide))⟩
  rw [toString, instToString, String.toList_ofList]
  exact .grouped hdigits

end EventSourcing.Uuid
