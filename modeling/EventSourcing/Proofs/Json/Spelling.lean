import EventSourcing.Proofs.Json.Reading

namespace EventSourcing.Json

theorem Spells.readBody? {body text : List Char} (hspells : Spells body text) (rest : List Char) :
    readBody? (body ++ '"' :: rest) = some (text, rest) := by
  induction hspells with
  | nil => rfl
  | @plain c body text hquote hslash hcontrol _ ih =>
    rw [List.cons_append, Json.readBody?]
    · rw [if_neg (by simp [hslash]; omega), ih]
      rfl
    all_goals simp_all
  | @short e c body text hescape _ ih =>
    have hne := simpleEscape?_ne hescape
    rw [List.cons_append, List.cons_append, Json.readBody?]
    · rw [hescape]
      simp only [ih]
      rfl
    all_goals simp_all
  | @unit a b c d unit body text hread hhigh hlow _ ih =>
    simp only [List.cons_append]
    rw [Json.readBody?]
    simp only [hread, hhigh, hlow, ih]
    rfl
  | @pair a b c d e f g h high low body text hread hhigh hread' hlow _ ih =>
    simp only [List.cons_append]
    rw [Json.readBody?]
    simp only [hread, hhigh, hread', hlow, ih]
    rfl

/-- What was read behind a character is a spelling of the text without it. -/
theorem exists_of_consChar {c : Char} {read : Option (List Char × List Char)}
    {text rest : List Char} (hread : consChar c read = some (text, rest)) :
    ∃ tail, read = some (tail, rest) ∧ text = c :: tail := by
  obtain ⟨⟨tail, rest⟩, hread, hpair⟩ := Option.map_eq_some_iff.1 hread
  cases hpair
  exact ⟨tail, hread, rfl⟩

/-- What is read between quotes is a spelling of the text that is read. -/
theorem exists_spells {cs text rest : List Char} (hread : readBody? cs = some (text, rest)) :
    ∃ body, cs = body ++ '"' :: rest ∧ Spells body text := by
  fun_induction Json.readBody? cs generalizing text rest with
  | case2 cs =>
    cases hread
    exact ⟨[], rfl, .nil⟩
  | case5 a b c d high hhigh hread₁ e f g h cs low hread₂ hlow ih =>
    obtain ⟨tail, htail, rfl⟩ := exists_of_consChar hread
    obtain ⟨body, rfl, hbody⟩ := ih htail
    exact ⟨_, rfl, .pair hhigh hread₁ hread₂ hlow hbody⟩
  | case9 a b c d cs unit hunit hhigh hlow ih =>
    obtain ⟨tail, htail, rfl⟩ := exists_of_consChar hread
    obtain ⟨body, rfl, hbody⟩ := ih htail
    exact ⟨_, rfl, .unit hunit (Bool.eq_false_iff.2 hhigh) (Bool.eq_false_iff.2 hlow) hbody⟩
  | case11 e cs _ c hescape ih =>
    obtain ⟨tail, htail, rfl⟩ := exists_of_consChar hread
    obtain ⟨body, rfl, hbody⟩ := ih htail
    exact ⟨_, rfl, .short hescape hbody⟩
  | case13 c cs hquote _ _ hplain ih =>
    obtain ⟨tail, htail, rfl⟩ := exists_of_consChar hread
    obtain ⟨body, rfl, hbody⟩ := ih htail
    rw [not_or, Nat.not_lt] at hplain
    exact ⟨_, rfl, .plain hquote hplain.1 hplain.2 hbody⟩
  | case1 | case3 | case4 | case6 | case7 | case8 | case10 | case12 => cases hread

theorem Quoted.begins {text : String} {literal : List Char} (hquoted : Quoted text literal) :
    BeginsValue literal := by
  obtain ⟨space, body, hspace, -, rfl⟩ := hquoted
  rw [List.append_assoc, List.cons_append]
  exact .intro hspace rfl (by decide) _

namespace Reader

/-- Exactly the literals of a text are read as that text. -/
theorem run_string_iff {cs rest : List Char} {text : String} :
    string.run cs = .ok (text, rest) ↔ ∃ literal, cs = literal ++ rest ∧ Quoted text literal := by
  constructor
  · intro hrun
    have hread := read?_of_run_token hrun
    obtain ⟨space, hspace, hcs⟩ := exists_dropSpace cs
    split at hread
    · next behind hbehind =>
      obtain ⟨⟨read, rest⟩, hbody, hpair⟩ := Option.map_eq_some_iff.1 hread
      cases hpair
      obtain ⟨body, rfl, hspells⟩ := exists_spells hbody
      refine ⟨space ++ '"' :: body ++ ['"'], ?_, space, body, hspace, ?_, rfl⟩
      · rw [hcs, hbehind]
        simp
      · rwa [String.toList_ofList]
    · cases hread
  · rintro ⟨_, rfl, space, body, hspace, hspells, rfl⟩
    refine run_token ?_
    rw [List.append_assoc, List.append_assoc, List.cons_append, hspace.dropSpace_cons rfl,
      List.singleton_append]
    simp [hspells.readBody?]

theorem isLocal_string : string.IsLocal := by
  intro cs text rest hrun
  obtain ⟨literal, hcs, hquoted⟩ := run_string_iff.1 hrun
  exact ⟨literal, hcs, hquoted.begins, fun rest _ => run_string_iff.2 ⟨literal, rfl, hquoted⟩⟩

end Reader

/-- A whole number reads as its value if nothing follows that would continue it. -/
theorem Whole.readNat? {digits rest : List Char} (hwhole : Whole digits)
    (hrest : EndsNumber rest) : readNat? (digits ++ rest) = some (decimalValue digits, rest) := by
  have hdigits := hwhole.digits
  have hstop : rest.takeWhile Char.isDigit = [] ∧ rest.dropWhile Char.isDigit = rest := by
    cases rest with
    | nil => exact ⟨rfl, rfl⟩
    | cons c cs => simp [(hrest c rfl).1]
  have htake : (digits ++ rest).takeWhile Char.isDigit = digits := by
    rw [List.takeWhile_append_of_pos hdigits.2, hstop.1, List.append_nil]
  have hdrop : (digits ++ rest).dropWhile Char.isDigit = rest := by
    rw [List.dropWhile_append_of_pos hdigits.2, hstop.2]
  have hzero : ¬(digits.head? = some '0' ∧ digits.length ≠ 1) := by
    rintro ⟨hhead, hlength⟩
    cases hwhole with
    | zero => exact hlength rfl
    | nonzero _ hne => exact hne (Option.some.inj hhead)
  simp only [Json.readNat?, htake, hdrop]
  rw [if_neg (not_or.2 ⟨hdigits.1, hzero⟩), if_neg]
  rintro (hc | hc | hc) <;> simpa using hrest _ hc

/-- What is read as a number is the digits of a whole one. -/
theorem exists_whole_of_readNat? {cs rest : List Char} {n : Nat}
    (hread : readNat? cs = some (n, rest)) :
    ∃ digits, cs = digits ++ rest ∧ Whole digits ∧ decimalValue digits = n := by
  simp only [Json.readNat?] at hread
  split at hread
  · cases hread
  · next hdigits =>
    split at hread
    · cases hread
    · cases hread
      obtain ⟨hne, hzero⟩ := not_or.1 hdigits
      refine ⟨cs.takeWhile Char.isDigit, List.takeWhile_append_dropWhile.symm, ?_, rfl⟩
      have hall : ∀ c ∈ cs.takeWhile Char.isDigit, c.isDigit = true :=
        fun _ => List.mem_takeWhile_imp
      cases htaken : cs.takeWhile Char.isDigit with
      | nil => exact absurd htaken hne
      | cons d digits =>
        rw [htaken] at hzero hall
        by_cases hd : d = '0'
        · subst hd
          have hlength : digits.length = 0 := by simpa using hzero
          rw [List.length_eq_zero_iff.1 hlength]
          exact .zero
        · exact .nonzero ⟨List.cons_ne_nil _ _, hall⟩ hd

theorem Numeral.begins {n : Nat} {literal : List Char} (hnumeral : Numeral n literal) :
    BeginsValue literal := by
  obtain ⟨space, digits, hspace, hwhole, -, rfl⟩ := hnumeral
  obtain ⟨d, behind, rfl, hdigit⟩ := hwhole.digits.exists_eq_cons
  exact .intro hspace (isSpace_of_isDigit hdigit) (by rintro rfl; cases hdigit) _

namespace Reader

theorem run_nat_iff {bound n : Nat} {cs rest : List Char} :
    (nat bound).run cs = .ok (n, rest) ↔
      n < bound ∧ readNat? (dropSpace cs) = some (n, rest) := by
  constructor
  · intro hrun
    obtain ⟨read, between, hread, hbounded⟩ := exists_of_run_bind hrun
    by_cases hlt : read < bound
    · rw [if_pos hlt] at hbounded
      cases hbounded
      exact ⟨hlt, read?_of_run_token hread⟩
    · rw [if_neg hlt] at hbounded
      cases hbounded
  · rintro ⟨hlt, hread⟩
    refine (run_bind_of_ok (run_token hread) _).trans ?_
    rw [if_pos hlt]
    rfl

theorem reads_nat {n bound : Nat} (hlt : n < bound) {literal : List Char}
    (hnumeral : Numeral n literal) : (nat bound).Reads literal n := by
  obtain ⟨space, digits, hspace, hwhole, rfl, rfl⟩ := hnumeral
  intro rest hrest
  refine run_nat_iff.2 ⟨hlt, ?_⟩
  rw [← hwhole.readNat? hrest]
  obtain ⟨d, behind, rfl, hdigit⟩ := hwhole.digits.exists_eq_cons
  rw [List.append_assoc, List.cons_append, hspace.dropSpace_cons (isSpace_of_isDigit hdigit)]

theorem exists_numeral_of_run_nat {bound n : Nat} {cs rest : List Char}
    (hrun : (nat bound).run cs = .ok (n, rest)) :
    n < bound ∧ ∃ literal, cs = literal ++ rest ∧ Numeral n literal := by
  obtain ⟨hlt, hread⟩ := run_nat_iff.1 hrun
  obtain ⟨space, hspace, hcs⟩ := exists_dropSpace cs
  obtain ⟨digits, hdigits, hwhole, hvalue⟩ := exists_whole_of_readNat? hread
  refine ⟨hlt, space ++ digits, ?_, space, digits, hspace, hwhole, hvalue, rfl⟩
  rw [hcs, hdigits, List.append_assoc]

theorem isLocal_nat (bound : Nat) : (nat bound).IsLocal := by
  intro cs n rest hrun
  obtain ⟨hlt, literal, hcs, hnumeral⟩ := exists_numeral_of_run_nat hrun
  exact ⟨literal, hcs, hnumeral.begins, reads_nat hlt hnumeral⟩

end Reader

end EventSourcing.Json

namespace EventSourcing.Uuid

open Json Json.Reader

theorem IsDigits.hyphen_notMem {u : Uuid} {digits : List Char} (hdigits : u.IsDigits digits) :
    '-' ∉ digits := by
  intro hmem
  obtain ⟨front, back, rfl⟩ := List.append_of_mem hmem
  have hread := hdigits.2
  rw [Text.Hex.read?, Text.Hex.readFrom?_append] at hread
  obtain ⟨n, -, hback⟩ := Option.bind_eq_some_iff.1 hread
  cases hback

theorem IsDigits.parseDigits? {u : Uuid} {digits : List Char} (hdigits : u.IsDigits digits) :
    parseDigits? digits = some u := by
  rw [Uuid.parseDigits?, if_pos hdigits.1, hdigits.2, Option.bind_some, ofNat?_toNat]

theorem IsDigits.parseGroups? {u : Uuid} {digits : List Char} (hdigits : u.IsDigits digits) :
    parseGroups? (hyphenate digits) = some u := by
  have hfilter := filter_hyphenate hdigits.hyphen_notMem
  rw [Uuid.parseGroups?, hfilter, if_pos ⟨length_hyphenate hdigits.1, rfl⟩, hdigits.parseDigits?]

/-- Each form of an identifier parses as that identifier. -/
theorem Form.parseChars? {u : Uuid} {cs : List Char} (hform : u.Form cs) :
    parseChars? cs = some u := by
  cases hform with
  | simple hdigits => rw [Uuid.parseChars?, if_pos hdigits.1, hdigits.parseDigits?]
  | @grouped digits hdigits =>
    have hlength := length_hyphenate hdigits.1
    simp [Uuid.parseChars?, hlength, hdigits.parseGroups?]
  | @braced digits hdigits =>
    have hlength := length_hyphenate hdigits.1
    have hlast : ('\x7b' :: (hyphenate digits ++ ['\x7d'])).getLast? = some '\x7d' := by
      rw [← List.cons_append, List.getLast?_concat]
    simp [Uuid.parseChars?, hlength, hlast, hdigits.parseGroups?]
  | @urn digits hdigits =>
    have hlength := length_hyphenate hdigits.1
    have hmark : urnMark.length = 9 := rfl
    have hdrop : dropUrnMark? (urnMark ++ hyphenate digits) = some (hyphenate digits) := by
      rw [dropUrnMark?, List.take_left' hmark, if_pos (by decide), List.drop_left' hmark]
    simp [Uuid.parseChars?, hlength, hmark, hdrop, hdigits.parseGroups?]

theorem isLocal_jsonReader : jsonReader.IsLocal := by
  intro cs u rest hrun
  obtain ⟨raw, between, hstring, hparse⟩ := exists_of_run_bind hrun
  obtain ⟨literal, hcs, hbegins, hreads⟩ := isLocal_string _ _ _ hstring
  cases hraw : parse? raw with
  | none =>
    rw [hraw] at hparse
    cases hparse
  | some parsed =>
    rw [hraw] at hparse
    cases hparse
    refine ⟨literal, hcs, hbegins, hreads.bind fun rest => ?_⟩
    rw [hraw]
    rfl

end EventSourcing.Uuid
