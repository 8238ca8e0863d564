import EventSourcing.Json.Codec
import Mathlib.Data.List.Forall2

namespace EventSourcing.Json

/-- Only what may stand between tokens. -/
def IsSpace (space : List Char) : Prop :=
  ∀ c ∈ space, isSpace c = true

theorem isSpace_nil : IsSpace [] :=
  List.forall_mem_nil _

theorem IsSpace.append {space more : List Char} (hspace : IsSpace space) (hmore : IsSpace more) :
    IsSpace (space ++ more) :=
  fun c hc => (List.mem_append.1 hc).elim (hspace c) (hmore c)

/-- One of some literals, with space behind it or without. -/
def Padded (literals : List Char → Prop) (text : List Char) : Prop :=
  ∃ literal space, literals literal ∧ IsSpace space ∧ text = literal ++ space

/-- A literal is padded with nothing. -/
theorem padded_of_literal {literals : List Char → Prop} {literal : List Char}
    (hliteral : literals literal) : Padded literals literal :=
  ⟨literal, [], hliteral, isSpace_nil, (List.append_nil literal).symm⟩

/-- What may stand between quotes for a text. -/
inductive Spells : (body text : List Char) → Prop where
  | nil : Spells [] []
  | plain {c : Char} {body text : List Char} (hquote : c ≠ '"') (hslash : c ≠ '\\')
      (hcontrol : 0x20 ≤ c.toNat) (rest : Spells body text) : Spells (c :: body) (c :: text)
  | short {e c : Char} {body text : List Char} (hescape : simpleEscape? e = some c)
      (rest : Spells body text) : Spells ('\\' :: e :: body) (c :: text)
  | unit {a b c d : Char} {unit : Nat} {body text : List Char}
      (hread : Text.Hex.read? [a, b, c, d] = some unit) (hhigh : isHighSurrogate unit = false)
      (hlow : isLowSurrogate unit = false) (rest : Spells body text) :
      Spells ('\\' :: 'u' :: a :: b :: c :: d :: body) (Char.ofNat unit :: text)
  | pair {a b c d e f g h : Char} {high low : Nat} {body text : List Char}
      (hread : Text.Hex.read? [a, b, c, d] = some high) (hhigh : isHighSurrogate high = true)
      (hread' : Text.Hex.read? [e, f, g, h] = some low) (hlow : isLowSurrogate low = true)
      (rest : Spells body text) :
      Spells ('\\' :: 'u' :: a :: b :: c :: d :: '\\' :: 'u' :: e :: f :: g :: h :: body)
        (ofSurrogates high low :: text)

/-- A literal of a text, behind space. -/
def Quoted (text : String) (literal : List Char) : Prop :=
  ∃ space body, IsSpace space ∧ Spells body text.toList ∧ literal = space ++ '"' :: body ++ ['"']

def Digits (digits : List Char) : Prop :=
  digits ≠ [] ∧ ∀ c ∈ digits, c.isDigit = true

inductive Whole : List Char → Prop where
  | zero : Whole ['0']
  | nonzero {d : Char} {digits : List Char} (hdigits : Digits (d :: digits)) (hzero : d ≠ '0') :
      Whole (d :: digits)

inductive Fraction : List Char → Prop where
  | absent : Fraction []
  | present {digits : List Char} (hdigits : Digits digits) : Fraction ('.' :: digits)

inductive Exponent : List Char → Prop where
  | absent : Exponent []
  | present {e : Char} {sign digits : List Char} (hmark : e = 'e' ∨ e = 'E')
      (hsign : sign = [] ∨ sign = ['+'] ∨ sign = ['-']) (hdigits : Digits digits) :
      Exponent (e :: (sign ++ digits))

inductive Number : List Char → Prop where
  | mk {sign whole fraction exponent : List Char} (hsign : sign = [] ∨ sign = ['-'])
      (hwhole : Whole whole) (hfraction : Fraction fraction) (hexponent : Exponent exponent) :
      Number (sign ++ (whole ++ (fraction ++ exponent)))

/-- The digits of a number, behind space. -/
def Numeral (n : Nat) (literal : List Char) : Prop :=
  ∃ space digits, IsSpace space ∧ Whole digits ∧ decimalValue digits = n ∧
    literal = space ++ digits

theorem Digits.exists_eq_cons {digits : List Char} (hdigits : Digits digits) :
    ∃ d behind, digits = d :: behind ∧ d.isDigit = true := by
  cases digits with
  | nil => exact absurd rfl hdigits.1
  | cons d behind => exact ⟨d, behind, rfl, hdigits.2 d List.mem_cons_self⟩

theorem Whole.digits {digits : List Char} (hwhole : Whole digits) : Digits digits := by
  cases hwhole with
  | zero => exact ⟨List.cons_ne_nil _ _, List.forall_mem_singleton.2 rfl⟩
  | nonzero hdigits _ => exact hdigits

/-- What may stand between quotes where it does not matter what it spells; an escaped unit may be
half of a pair. -/
inductive Body : List Char → Prop where
  | nil : Body []
  | plain {c : Char} {body : List Char} (hquote : c ≠ '"') (hslash : c ≠ '\\')
      (hcontrol : 0x20 ≤ c.toNat) (rest : Body body) : Body (c :: body)
  | short {e c : Char} {body : List Char} (hescape : simpleEscape? e = some c) (rest : Body body) :
      Body ('\\' :: e :: body)
  | unit {a b c d : Char} {unit : Nat} {body : List Char}
      (hread : Text.Hex.read? [a, b, c, d] = some unit) (rest : Body body) :
      Body ('\\' :: 'u' :: a :: b :: c :: d :: body)

/-- A name and the colon behind it. -/
inductive Label : List Char → Prop where
  | mk {space body gap : List Char} (hspace : IsSpace space) (hbody : Body body)
      (hgap : IsSpace gap) : Label (space ++ '"' :: (body ++ '"' :: (gap ++ [':'])))

/-- A value that is neither a string nor a collection. -/
inductive Scalar : List Char → Prop where
  | nullWord : Scalar ['n', 'u', 'l', 'l']
  | trueWord : Scalar ['t', 'r', 'u', 'e']
  | falseWord : Scalar ['f', 'a', 'l', 's', 'e']
  | number {number : List Char} (hnumber : Number number) : Scalar number

/-- What a text may be: a value, or what stands behind the first part of a collection, with its
end. -/
inductive Phrase where
  | value
  | elements
  | members

/-- The texts of a phrase. Space may stand before every token. -/
inductive Derives : Phrase → List Char → Prop where
  | scalar {space scalar : List Char} (hspace : IsSpace space) (hscalar : Scalar scalar) :
      Derives .value (space ++ scalar)
  | string {space body : List Char} (hspace : IsSpace space) (hbody : Body body) :
      Derives .value (space ++ '"' :: (body ++ ['"']))
  | emptyArray {space gap : List Char} (hspace : IsSpace space) (hgap : IsSpace gap) :
      Derives .value (space ++ '[' :: (gap ++ [']']))
  | array {space first others : List Char} (hspace : IsSpace space) (hfirst : Derives .value first)
      (hothers : Derives .elements others) : Derives .value (space ++ '[' :: (first ++ others))
  | emptyObject {space gap : List Char} (hspace : IsSpace space) (hgap : IsSpace gap) :
      Derives .value (space ++ '\x7b' :: (gap ++ ['\x7d']))
  | object {space label first others : List Char} (hspace : IsSpace space) (hlabel : Label label)
      (hfirst : Derives .value first) (hothers : Derives .members others) :
      Derives .value (space ++ '\x7b' :: (label ++ (first ++ others)))
  | endArray {space : List Char} (hspace : IsSpace space) : Derives .elements (space ++ [']'])
  | element {space next others : List Char} (hspace : IsSpace space) (hnext : Derives .value next)
      (hothers : Derives .elements others) : Derives .elements (space ++ ',' :: (next ++ others))
  | endObject {space : List Char} (hspace : IsSpace space) : Derives .members (space ++ ['\x7d'])
  | member {space label next others : List Char} (hspace : IsSpace space) (hlabel : Label label)
      (hnext : Derives .value next) (hothers : Derives .members others) :
      Derives .members (space ++ ',' :: (label ++ (next ++ others)))

/-- What a text says under one name. -/
structure Member where
  name : String
  /-- The texts of its value. -/
  spelled : List Char → Prop
  mayBeOmitted : Prop

/-- What stands before a part of a collection. -/
inductive Comma : (isFirst : Bool) → List Char → Prop where
  | absent : Comma true []
  | present {space : List Char} (hspace : IsSpace space) : Comma false (space ++ [','])

/-- A name in quotes and the colon behind it. -/
inductive Named (name : String) : List Char → Prop where
  | mk {literal gap : List Char} (hquoted : Quoted name literal) (hgap : IsSpace gap) :
      Named name (literal ++ (gap ++ [':']))

/-- The rest of an object, with its end, when some members are `given` already. -/
inductive ObjectBody (members : List Member) :
    (isFirst : Bool) → (given : List String) → List Char → Prop where
  | close {isFirst : Bool} {given : List String} {space : List Char} (hspace : IsSpace space)
      (hcomplete : ∀ member ∈ members, member.name ∉ given → member.mayBeOmitted) :
      ObjectBody members isFirst given (space ++ ['\x7d'])
  | member {isFirst : Bool} {given : List String} {member : Member}
      {comma label text others : List Char} (hcomma : Comma isFirst comma)
      (hmember : member ∈ members) (hnew : member.name ∉ given) (hlabel : Named member.name label)
      (htext : member.spelled text)
      (hothers : ObjectBody members false (member.name :: given) others) :
      ObjectBody members isFirst given (comma ++ (label ++ (text ++ others)))
  | other {isFirst : Bool} {given : List String} {name : String}
      {comma label text others : List Char} (hcomma : Comma isFirst comma)
      (hname : ∀ member ∈ members, member.name ≠ name) (hlabel : Named name label)
      (htext : Derives .value text) (hothers : ObjectBody members false given others) :
      ObjectBody members isFirst given (comma ++ (label ++ (text ++ others)))

/-- The rest of an array, with its end, when some members are still to come. -/
inductive ArrayBody : (isFirst : Bool) → (members : List Member) → List Char → Prop where
  | close {isFirst : Bool} {members : List Member} {space : List Char} (hspace : IsSpace space)
      (homitted : ∀ member ∈ members, member.mayBeOmitted) :
      ArrayBody isFirst members (space ++ [']'])
  | element {isFirst : Bool} {member : Member} {members : List Member}
      {comma text others : List Char} (hcomma : Comma isFirst comma) (htext : member.spelled text)
      (hothers : ArrayBody false members others) :
      ArrayBody isFirst (member :: members) (comma ++ (text ++ others))

/-- The texts of a record with these members. -/
inductive Layout (members : List Member) : List Char → Prop where
  | object {space body : List Char} (hspace : IsSpace space)
      (hbody : ObjectBody members true [] body) : Layout members (space ++ '\x7b' :: body)
  | array {space body : List Char} (hspace : IsSpace space)
      (hbody : ArrayBody true members body) : Layout members (space ++ '[' :: body)

/-- One member says what another one says, and maybe in fewer ways. -/
structure Member.Implies (member other : Member) : Prop where
  name_eq : member.name = other.name
  spelled : ∀ text, member.spelled text → other.spelled text
  mayBeOmitted : member.mayBeOmitted → other.mayBeOmitted

section Implies

variable {members others : List Member}

theorem exists_implied (himplies : List.Forall₂ Member.Implies members others) {member : Member}
    (hmember : member ∈ members) : ∃ other ∈ others, member.Implies other := by
  induction himplies with
  | nil => cases hmember
  | cons hfirst _ ih =>
    rcases List.mem_cons.1 hmember with rfl | hmember
    · exact ⟨_, List.mem_cons_self, hfirst⟩
    · obtain ⟨other, hother, himplied⟩ := ih hmember
      exact ⟨other, List.mem_cons_of_mem _ hother, himplied⟩

theorem exists_implying (himplies : List.Forall₂ Member.Implies members others) {other : Member}
    (hother : other ∈ others) : ∃ member ∈ members, member.Implies other := by
  induction himplies with
  | nil => cases hother
  | cons hfirst _ ih =>
    rcases List.mem_cons.1 hother with rfl | hother
    · exact ⟨_, List.mem_cons_self, hfirst⟩
    · obtain ⟨member, hmember, himplying⟩ := ih hother
      exact ⟨member, List.mem_cons_of_mem _ hmember, himplying⟩

theorem ObjectBody.mono (himplies : List.Forall₂ Member.Implies members others) {isFirst : Bool}
    {given : List String} {text : List Char} (hbody : ObjectBody members isFirst given text) :
    ObjectBody others isFirst given text := by
  induction hbody with
  | close hspace hcomplete =>
    refine .close hspace fun other hother hnotMem => ?_
    obtain ⟨member, hmember, himplying⟩ := exists_implying himplies hother
    exact himplying.mayBeOmitted (hcomplete member hmember (himplying.name_eq ▸ hnotMem))
  | member hcomma hmember hnew hlabel htext _ ih =>
    obtain ⟨other, hother, himplied⟩ := exists_implied himplies hmember
    rw [himplied.name_eq] at hnew hlabel ih
    exact .member hcomma hother hnew hlabel (himplied.spelled _ htext) ih
  | other hcomma hname hlabel htext _ ih =>
    refine .other hcomma (fun other hother => ?_) hlabel htext ih
    obtain ⟨member, hmember, himplying⟩ := exists_implying himplies hother
    exact himplying.name_eq ▸ hname member hmember

theorem ArrayBody.mono {isFirst : Bool} {text : List Char}
    (hbody : ArrayBody isFirst members text)
    (himplies : List.Forall₂ Member.Implies members others) : ArrayBody isFirst others text := by
  induction hbody generalizing others with
  | close hspace homitted =>
    refine .close hspace fun other hother => ?_
    obtain ⟨member, hmember, himplying⟩ := exists_implying himplies hother
    exact himplying.mayBeOmitted (homitted member hmember)
  | element hcomma htext _ ih =>
    obtain _ | ⟨hfirst, himplies⟩ := himplies
    exact .element hcomma (hfirst.spelled _ htext) (ih himplies)

/-- Members that say the same in more ways have more layouts. -/
theorem Layout.mono (himplies : List.Forall₂ Member.Implies members others) {text : List Char}
    (hlayout : Layout members text) : Layout others text := by
  cases hlayout with
  | object hspace hbody => exact .object hspace (hbody.mono himplies)
  | array hspace hbody => exact .array hspace (hbody.mono himplies)

end Implies

end EventSourcing.Json

namespace EventSourcing.Uuid

/-- Thirty-two digits that stand for the identifier. Each letter among them may have either case. -/
def IsDigits (u : Uuid) (digits : List Char) : Prop :=
  digits.length = 32 ∧ Text.Hex.read? digits = some u.bits.toNat

/-- The forms of an identifier: its digits alone, in groups, in groups within braces and in groups
behind the mark of a URN. -/
inductive Form (u : Uuid) : List Char → Prop where
  | simple {digits : List Char} (hdigits : u.IsDigits digits) : Form u digits
  | grouped {digits : List Char} (hdigits : u.IsDigits digits) : Form u (hyphenate digits)
  | braced {digits : List Char} (hdigits : u.IsDigits digits) :
      Form u ('\x7b' :: hyphenate digits ++ ['\x7d'])
  | urn {digits : List Char} (hdigits : u.IsDigits digits) : Form u (urnMark ++ hyphenate digits)

end EventSourcing.Uuid
