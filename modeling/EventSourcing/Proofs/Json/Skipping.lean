import EventSourcing.Proofs.Json.Reading
import Mathlib.Data.List.DropRight

namespace EventSourcing.Json

theorem Body.skipBody? {body : List Char} (hbody : Body body) (rest : List Char) :
    skipBody? (body ++ '"' :: rest) = some rest := by
  induction hbody with
  | nil => rfl
  | @plain c body hquote hslash hcontrol _ ih =>
    rw [List.cons_append, Json.skipBody?]
    · rw [if_neg (by simp [hslash]; omega), ih]
    all_goals simp_all
  | @short e c body hescape _ ih =>
    have hne := simpleEscape?_ne hescape
    rw [List.cons_append, List.cons_append, Json.skipBody?]
    · rw [hescape, Option.isSome_some, if_pos rfl, ih]
    all_goals simp_all
  | @unit a b c d unit body hread _ ih =>
    simp only [List.cons_append]
    rw [Json.skipBody?, hread, Option.isSome_some, if_pos rfl, ih]

/-- No digit follows. -/
def EndsDigits (rest : List Char) : Prop :=
  ∀ c, rest.head? = some c → c.isDigit = false

theorem EndsNumber.endsDigits {rest : List Char} (hrest : EndsNumber rest) : EndsDigits rest :=
  fun c hc => (hrest c hc).1

theorem Digits.skipDigits? {digits rest : List Char} (hdigits : Digits digits)
    (hrest : EndsDigits rest) : skipDigits? (digits ++ rest) = some rest := by
  cases digits with
  | nil => exact absurd rfl hdigits.1
  | cons d digits =>
    obtain ⟨hd, hall⟩ := List.forall_mem_cons.1 hdigits.2
    have hstop : rest.dropWhile Char.isDigit = rest := by
      cases rest with
      | nil => rfl
      | cons c cs => exact List.dropWhile_cons_of_neg (by simp [hrest c rfl])
    rw [List.cons_append, Json.skipDigits?, if_pos hd, List.dropWhile_append_of_pos hall, hstop]

theorem Digits.append_ne_cons {digits : List Char} (hdigits : Digits digits) {c : Char}
    (hc : c.isDigit = false) (rest behind : List Char) : digits ++ rest ≠ c :: behind := by
  cases digits with
  | nil => exact absurd rfl hdigits.1
  | cons d digits =>
    rintro ⟨⟩
    rw [hdigits.2 c List.mem_cons_self] at hc
    cases hc

theorem Exponent.skipExponent? {exponent rest : List Char} (hexponent : Exponent exponent)
    (hrest : EndsNumber rest) : skipExponent? (exponent ++ rest) = some rest := by
  cases hexponent with
  | absent =>
    cases rest with
    | nil => rfl
    | cons c cs =>
      obtain ⟨-, -, he, hE⟩ := hrest c rfl
      exact if_neg (not_or.2 ⟨he, hE⟩)
  | @present e sign digits hmark hsign hdigits =>
    have hskip := hdigits.skipDigits? hrest.endsDigits
    refine (if_pos hmark).trans ?_
    rcases hsign with rfl | rfl | rfl
    · rw [List.nil_append]
      split
      · next behind hbehind => exact absurd hbehind (hdigits.append_ne_cons rfl rest behind)
      · next behind hbehind => exact absurd hbehind (hdigits.append_ne_cons rfl rest behind)
      · exact hskip
    · exact hskip
    · exact hskip

/-- An exponent, and what follows a number, continue no digits and no fraction. -/
theorem Exponent.ends {exponent rest : List Char} (hexponent : Exponent exponent)
    (hrest : EndsNumber rest) :
    ∀ c, (exponent ++ rest).head? = some c → c.isDigit = false ∧ c ≠ '.' := by
  cases hexponent with
  | absent => exact fun c hc => ⟨(hrest c hc).1, (hrest c hc).2.1⟩
  | present hmark _ _ =>
    rintro c ⟨⟩
    rcases hmark with rfl | rfl <;> decide

/-- What stands behind the digits of a whole number is skipped with its exponent. -/
theorem Fraction.skip {fraction exponent rest : List Char} (hfraction : Fraction fraction)
    (hexponent : Exponent exponent) (hrest : EndsNumber rest) :
    EndsDigits (fraction ++ (exponent ++ rest)) ∧
      (match fraction ++ (exponent ++ rest) with
        | '.' :: behind => (Json.skipDigits? behind).bind Json.skipExponent?
        | behind => Json.skipExponent? behind) = some rest := by
  have hskip := hexponent.skipExponent? hrest
  have hends := hexponent.ends hrest
  have hdigits : EndsDigits (exponent ++ rest) := fun c hc => (hends c hc).1
  cases hfraction with
  | absent =>
    refine ⟨hdigits, ?_⟩
    rw [List.nil_append]
    split
    · next behind hbehind => exact absurd rfl (hends '.' (hbehind ▸ rfl)).2
    · exact hskip
  | @present digits hfractional =>
    refine ⟨by rintro c ⟨⟩; rfl, ?_⟩
    rw [List.cons_append]
    change (Json.skipDigits? (digits ++ (exponent ++ rest))).bind Json.skipExponent? = some rest
    rw [hfractional.skipDigits? hdigits, Option.bind_some, hskip]

theorem Whole.append_ne_cons {whole : List Char} (hwhole : Whole whole) (rest behind : List Char) :
    whole ++ rest ≠ '-' :: behind := by
  cases hwhole with
  | zero => exact nofun
  | nonzero hdigits _ => exact hdigits.append_ne_cons rfl rest behind

theorem Number.skipNumber? {number rest : List Char} (hnumber : Number number)
    (hrest : EndsNumber rest) : skipNumber? (number ++ rest) = some rest := by
  obtain @⟨sign, whole, fraction, exponent, hsign, hwhole, hfraction, hexponent⟩ := hnumber
  obtain ⟨hends, hskip⟩ := hfraction.skip hexponent hrest
  have hunsigned : (if (sign ++ (whole ++ (fraction ++ (exponent ++ rest)))).head? = some '-' then
      (sign ++ (whole ++ (fraction ++ (exponent ++ rest)))).drop 1
      else sign ++ (whole ++ (fraction ++ (exponent ++ rest)))) =
      whole ++ (fraction ++ (exponent ++ rest)) := by
    rcases hsign with rfl | rfl
    · refine if_neg fun hhead => ?_
      obtain ⟨behind, hbehind⟩ := List.head?_eq_some_iff.1 hhead
      exact hwhole.append_ne_cons _ behind hbehind
    · exact if_pos rfl
  simp only [Json.skipNumber?, List.append_assoc, hunsigned]
  cases hwhole with
  | zero =>
    have hnone : ¬(fraction ++ (exponent ++ rest)).head?.any Char.isDigit = true := by
      rw [Option.any_eq_true]
      rintro ⟨c, hc, hdigit⟩
      rw [hends c hc] at hdigit
      cases hdigit
    exact (if_neg hnone).trans hskip
  | @nonzero d digits hdigits hzero =>
    split
    · next behind hbehind => exact absurd (List.cons.inj hbehind).1 hzero
    · rw [hdigits.skipDigits? hends]
      exact hskip

theorem Label.skipName? {label : List Char} (hlabel : Label label) (rest : List Char) :
    skipName? (label ++ rest) = some rest := by
  obtain @⟨space, body, gap, hspace, hbody, hgap⟩ := hlabel
  have htext : space ++ '"' :: (body ++ '"' :: (gap ++ [':'])) ++ rest =
      space ++ '"' :: (body ++ '"' :: (gap ++ ':' :: rest)) := by
    simp
  rw [htext, Json.skipName?, hspace.dropSpace_cons rfl]
  simp only [hbody.skipBody?, Option.map_some, hgap.dropSpace_cons (c := ':') rfl]

theorem Label.exists_dropSpace {label : List Char} (hlabel : Label label) (rest : List Char) :
    ∃ behind, dropSpace (label ++ rest) = '"' :: behind := by
  obtain @⟨space, body, gap, hspace, hbody, hgap⟩ := hlabel
  refine ⟨body ++ '"' :: (gap ++ [':']) ++ rest, ?_⟩
  rw [List.append_assoc, List.cons_append, hspace.dropSpace_cons rfl]

theorem dropSpace_dropSpace (cs : List Char) : dropSpace (dropSpace cs) = dropSpace cs := by
  rw [dropSpace, dropSpace, List.dropWhile_idempotent]

theorem skipName?_dropSpace (cs : List Char) : skipName? (dropSpace cs) = skipName? cs := by
  rw [skipName?, skipName?, dropSpace_dropSpace]

/-- Space at the front makes no difference to what is skipped. -/
theorem skipRest?_dropSpace (steps : Nat) (stack : List Open) (cs : List Char) :
    skipRest? steps stack false (dropSpace cs) = skipRest? steps stack false cs := by
  cases steps with
  | zero => rfl
  | succ steps => cases stack <;> simp only [skipRest?, dropSpace_dropSpace]

theorem Number.exists_eq_cons {number : List Char} (hnumber : Number number) :
    ∃ c behind, number = c :: behind ∧ (c = '-' ∨ c.isDigit = true) := by
  obtain @⟨sign, whole, fraction, exponent, rfl | rfl, hwhole, -, -⟩ := hnumber
  · cases hwhole with
    | zero => exact ⟨'0', _, rfl, .inr rfl⟩
    | @nonzero d digits hdigits _ =>
      exact ⟨d, _, rfl, .inr (hdigits.2 d List.mem_cons_self)⟩
  · exact ⟨'-', _, rfl, .inl rfl⟩

/-- Every other value begins with a character of its own. -/
theorem Scalar.exists_eq_cons {scalar : List Char} (hscalar : Scalar scalar) :
    ∃ c behind, scalar = c :: behind ∧ isSpace c = false ∧ c ∉ ['"', '[', '\x7b', ']'] := by
  cases hscalar with
  | nullWord => exact ⟨'n', _, rfl, by decide⟩
  | trueWord => exact ⟨'t', _, rfl, by decide⟩
  | falseWord => exact ⟨'f', _, rfl, by decide⟩
  | number hnumber =>
    obtain ⟨c, behind, rfl, rfl | hdigit⟩ := hnumber.exists_eq_cons
    · exact ⟨'-', behind, rfl, by decide⟩
    · refine ⟨c, behind, rfl, isSpace_of_isDigit hdigit, fun hmem => ?_⟩
      simp only [List.mem_cons, List.not_mem_nil, or_false] at hmem
      rcases hmem with rfl | rfl | rfl | rfl <;> cases hdigit

theorem Scalar.skipScalar? {scalar rest : List Char} (hscalar : Scalar scalar)
    (hrest : EndsNumber rest) : skipScalar? (scalar ++ rest) = some rest := by
  cases hscalar with
  | nullWord => rfl
  | trueWord => rfl
  | falseWord => rfl
  | number hnumber =>
    rw [← hnumber.skipNumber? hrest]
    obtain ⟨c, behind, rfl, hc⟩ := hnumber.exists_eq_cons
    rw [List.cons_append, Json.skipScalar?]
    all_goals
      intro tail htail
      rw [(List.cons.inj htail).1] at hc
      simp at hc

theorem Derives.begins {text : List Char} (hvalue : Derives .value text) : BeginsValue text := by
  cases hvalue with
  | scalar hspace hscalar =>
    obtain ⟨c, behind, rfl, hc, hmem⟩ := hscalar.exists_eq_cons
    exact .intro hspace hc (by rintro rfl; simp at hmem) behind
  | string hspace _ => exact .intro hspace rfl (by decide) _
  | emptyArray hspace _ => exact .intro hspace rfl (by decide) _
  | array hspace _ _ => exact .intro hspace rfl (by decide) _
  | emptyObject hspace _ => exact .intro hspace rfl (by decide) _
  | object hspace _ _ _ => exact .intro hspace rfl (by decide) _

/-- A value is one without the space before it. -/
theorem Derives.exists_dropSpace {text : List Char} (hvalue : Derives .value text) :
    ∃ value, Derives .value value ∧ ∀ rest, dropSpace (text ++ rest) = value ++ rest := by
  have hdrop : ∀ {space : List Char} {c : Char} (behind : List Char), IsSpace space →
      isSpace c = false → ∀ rest,
        dropSpace (space ++ c :: behind ++ rest) = c :: behind ++ rest := by
    intro space c behind hspace hc rest
    rw [List.append_assoc, List.cons_append, hspace.dropSpace_cons hc]
  cases hvalue with
  | @scalar space scalar hspace hscalar =>
    obtain ⟨c, behind, hcons, hc, -⟩ := hscalar.exists_eq_cons
    exact ⟨scalar, .scalar isSpace_nil hscalar, hcons ▸ hdrop behind hspace hc⟩
  | string hspace hbody => exact ⟨_, .string isSpace_nil hbody, hdrop _ hspace rfl⟩
  | emptyArray hspace hgap => exact ⟨_, .emptyArray isSpace_nil hgap, hdrop _ hspace rfl⟩
  | array hspace hfirst hothers =>
    exact ⟨_, .array isSpace_nil hfirst hothers, hdrop _ hspace rfl⟩
  | emptyObject hspace hgap => exact ⟨_, .emptyObject isSpace_nil hgap, hdrop _ hspace rfl⟩
  | object hspace hlabel hfirst hothers =>
    exact ⟨_, .object isSpace_nil hlabel hfirst hothers, hdrop _ hspace rfl⟩

/-- What stands behind a value in a collection does not continue a number. -/
theorem Derives.endsNumber {phrase : Phrase} {text : List Char} (hderives : Derives phrase text)
    (hphrase : phrase ≠ .value) (rest : List Char) : EndsNumber (text ++ rest) := by
  cases hderives with
  | scalar | string | emptyArray | array | emptyObject | object => exact absurd rfl hphrase
  | endArray hspace | element hspace _ _ | endObject hspace | member hspace _ _ _ =>
    rw [List.append_assoc]
    exact hspace.endsNumber_cons (by decide) _

namespace Phrase

/-- The collections that are open where a phrase begins. -/
def stack (outer : List Open) : Phrase → List Open
  | value => outer
  | elements => .array :: outer
  | members => .object :: outer

/-- Whether a phrase begins behind a value. -/
def afterValue : Phrase → Bool
  | value => false
  | elements | members => true

/-- A text is skipped in so many steps, to the end of the collection that the phrase stands in. -/
def Skips (phrase : Phrase) (afterValue : Bool) (steps : Nat) (text : List Char) : Prop :=
  ∀ more outer rest, EndsNumber rest →
    skipRest? (more + steps) (phrase.stack outer) afterValue (text ++ rest) =
      skipRest? more outer true rest

namespace Skips

variable {space gap : List Char}

theorem scalar {scalar : List Char} (hspace : IsSpace space) (hscalar : Scalar scalar) :
    value.Skips false 1 (space ++ scalar) := by
  intro more outer rest hrest
  obtain ⟨c, behind, hcons, hc, hmem⟩ := hscalar.exists_eq_cons
  have hskip := hscalar.skipScalar? hrest
  rw [hcons, List.cons_append] at hskip
  rw [hcons, List.append_assoc, List.cons_append, stack, skipRest?, hspace.dropSpace_cons hc]
  simp only [List.mem_cons, List.not_mem_nil, or_false, not_or] at hmem
  split
  · next h => exact absurd (List.cons.inj h).1 hmem.1
  · next h => exact absurd (List.cons.inj h).1 hmem.2.1
  · next h => exact absurd (List.cons.inj h).1 hmem.2.2.1
  · rw [hskip, Option.bind_some]

theorem string {body : List Char} (hspace : IsSpace space) (hbody : Body body) :
    value.Skips false 1 (space ++ '"' :: (body ++ ['"'])) := by
  intro more outer rest _
  have htext : space ++ '"' :: (body ++ ['"']) ++ rest = space ++ '"' :: (body ++ '"' :: rest) := by
    simp
  rw [htext, stack, skipRest?, hspace.dropSpace_cons rfl]
  simp only [hbody.skipBody?, Option.bind_some]

theorem emptyArray (hspace : IsSpace space) (hgap : IsSpace gap) :
    value.Skips false 1 (space ++ '[' :: (gap ++ [']'])) := by
  intro more outer rest _
  have htext : space ++ '[' :: (gap ++ [']']) ++ rest = space ++ '[' :: (gap ++ ']' :: rest) := by
    simp
  rw [htext, stack, skipRest?, hspace.dropSpace_cons rfl]
  simp only [hgap.dropSpace_cons (c := ']') rfl]

theorem emptyObject (hspace : IsSpace space) (hgap : IsSpace gap) :
    value.Skips false 1 (space ++ '\x7b' :: (gap ++ ['\x7d'])) := by
  intro more outer rest _
  have htext : space ++ '\x7b' :: (gap ++ ['\x7d']) ++ rest =
      space ++ '\x7b' :: (gap ++ '\x7d' :: rest) := by
    simp
  rw [htext, stack, skipRest?, hspace.dropSpace_cons rfl]
  simp only [hgap.dropSpace_cons (c := '\x7d') rfl]

theorem endArray (hspace : IsSpace space) : elements.Skips true 1 (space ++ [']']) := by
  intro more outer rest _
  rw [List.append_assoc, List.singleton_append, stack, skipRest?, hspace.dropSpace_cons rfl]
  rfl

theorem endObject (hspace : IsSpace space) : members.Skips true 1 (space ++ ['\x7d']) := by
  intro more outer rest _
  rw [List.append_assoc, List.singleton_append, stack, skipRest?, hspace.dropSpace_cons rfl]
  rfl

/-- A value in a collection is skipped, and then the rest of the collection. -/
theorem append {phrase : Phrase} {steps steps' : Nat} {first others : List Char}
    (hfirst : value.Skips false steps first) (hothers : phrase.Skips true steps' others)
    (hends : ∀ rest, EndsNumber (others ++ rest)) :
    phrase.Skips false (steps' + steps) (first ++ others) := by
  intro more outer rest hrest
  rw [List.append_assoc, ← Nat.add_assoc]
  exact (hfirst (more + steps') (phrase.stack outer) (others ++ rest) (hends rest)).trans
    (hothers more outer rest hrest)

variable {steps : Nat} {label parts : List Char}

theorem array (hparts : elements.Skips false steps parts) (hspace : IsSpace space)
    (hbegins : BeginsValue parts) : value.Skips false (steps + 1) (space ++ '[' :: parts) := by
  intro more outer rest hrest
  obtain ⟨c, behind, hc, hdrop⟩ := hbegins.exists_dropSpace rest
  rw [List.append_assoc, List.cons_append, ← Nat.add_assoc, stack, skipRest?,
    hspace.dropSpace_cons rfl, ← hparts more outer rest hrest]
  simp only [stack]
  split
  · next h => exact absurd (List.cons.inj (hdrop.symm.trans h)).1 hc
  · exact skipRest?_dropSpace _ _ _

theorem object (hparts : members.Skips false steps parts) (hspace : IsSpace space)
    (hlabel : Label label) : value.Skips false (steps + 1) (space ++ '\x7b' :: (label ++ parts)) := by
  intro more outer rest hrest
  obtain ⟨behind, hdrop⟩ := hlabel.exists_dropSpace (parts ++ rest)
  rw [List.append_assoc, List.cons_append, List.append_assoc, ← Nat.add_assoc, stack, skipRest?,
    hspace.dropSpace_cons rfl, ← hparts more outer rest hrest]
  simp only [stack]
  split
  · next h => cases hdrop.symm.trans h
  · rw [skipName?_dropSpace, hlabel.skipName?, Option.bind_some]

theorem element (hparts : elements.Skips false steps parts) (hspace : IsSpace space) :
    elements.Skips true (steps + 1) (space ++ ',' :: parts) := by
  intro more outer rest hrest
  rw [List.append_assoc, List.cons_append, ← Nat.add_assoc, stack, skipRest?,
    hspace.dropSpace_cons rfl]
  exact hparts more outer rest hrest

theorem member (hparts : members.Skips false steps parts) (hspace : IsSpace space)
    (hlabel : Label label) : members.Skips true (steps + 1) (space ++ ',' :: (label ++ parts)) := by
  intro more outer rest hrest
  rw [List.append_assoc, List.cons_append, List.append_assoc, ← Nat.add_assoc, stack, skipRest?,
    hspace.dropSpace_cons rfl]
  simp only [hlabel.skipName?, Option.bind_some]
  exact hparts more outer rest hrest

end Skips

end Phrase

/-- A phrase is skipped in no more steps than it has characters. -/
theorem Derives.exists_skips {phrase : Phrase} {text : List Char} (hderives : Derives phrase text) :
    ∃ steps ≤ text.length, phrase.Skips phrase.afterValue steps text := by
  induction hderives with
  | scalar hspace hscalar =>
    obtain ⟨c, behind, hcons, -⟩ := hscalar.exists_eq_cons
    exact ⟨1, by simp [hcons]; omega, .scalar hspace hscalar⟩
  | string hspace hbody => exact ⟨1, by simp; omega, .string hspace hbody⟩
  | emptyArray hspace hgap => exact ⟨1, by simp; omega, .emptyArray hspace hgap⟩
  | array hspace hfirst hothers ihfirst ihothers =>
    obtain ⟨steps, hsteps, ihfirst⟩ := ihfirst
    obtain ⟨steps', hsteps', ihothers⟩ := ihothers
    have hparts := ihfirst.append ihothers (hothers.endsNumber nofun)
    exact ⟨steps' + steps + 1, by simp; omega, hparts.array hspace (hfirst.begins.append _)⟩
  | emptyObject hspace hgap => exact ⟨1, by simp; omega, .emptyObject hspace hgap⟩
  | object hspace hlabel hfirst hothers ihfirst ihothers =>
    obtain ⟨steps, hsteps, ihfirst⟩ := ihfirst
    obtain ⟨steps', hsteps', ihothers⟩ := ihothers
    have hparts := ihfirst.append ihothers (hothers.endsNumber nofun)
    exact ⟨steps' + steps + 1, by simp; omega, hparts.object hspace hlabel⟩
  | endArray hspace => exact ⟨1, by simp, .endArray hspace⟩
  | element hspace hnext hothers ihnext ihothers =>
    obtain ⟨steps, hsteps, ihnext⟩ := ihnext
    obtain ⟨steps', hsteps', ihothers⟩ := ihothers
    have hparts := ihnext.append ihothers (hothers.endsNumber nofun)
    exact ⟨steps' + steps + 1, by simp; omega, hparts.element hspace⟩
  | endObject hspace => exact ⟨1, by simp, .endObject hspace⟩
  | member hspace hlabel hnext hothers ihnext ihothers =>
    obtain ⟨steps, hsteps, ihnext⟩ := ihnext
    obtain ⟨steps', hsteps', ihothers⟩ := ihothers
    have hparts := ihnext.append ihothers (hothers.endsNumber nofun)
    exact ⟨steps' + steps + 1, by simp; omega, hparts.member hspace hlabel⟩

theorem Derives.skipValue? {text rest : List Char} (hvalue : Derives .value text)
    (hrest : EndsNumber rest) : skipValue? (text ++ rest) = some rest := by
  obtain ⟨steps, hsteps, hskip⟩ := hvalue.exists_skips
  obtain ⟨more, hmore⟩ : ∃ more, (text ++ rest).length + 1 = more + 1 + steps := by
    refine ⟨(text ++ rest).length - steps, ?_⟩
    rw [List.length_append]
    omega
  rw [Json.skipValue?, hmore]
  exact hskip (more + 1) [] rest hrest

/-- Every value is skipped as a whole. -/
theorem Derives.reads_skipped {text : List Char} (hvalue : Derives .value text) :
    (Reader.skipped Json.skipValue?).Reads text () := by
  intro rest hrest
  obtain ⟨value, hvalue, hdrop⟩ := hvalue.exists_dropSpace
  refine Reader.run_token ?_
  rw [hdrop, hvalue.skipValue? hrest]
  rfl

end EventSourcing.Json
