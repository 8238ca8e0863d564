import EventSourcing.Text.Hex

namespace EventSourcing

structure Uuid where
  bits : BitVec 128
  deriving DecidableEq, Repr

namespace Uuid

def nil : Uuid :=
  ⟨0⟩

/-- The identifier with a value, if the value has at most 128 bits. -/
def ofNat? (n : Nat) : Option Uuid :=
  if h : n < 2 ^ 128 then some ⟨⟨n, h⟩⟩ else none

/-- Puts a hyphen after the 8th, 12th, 16th and 20th digit. -/
def hyphenate (digits : List Char) : List Char :=
  digits.take 8 ++ '-' :: (digits.drop 8).take 4 ++ '-' :: (digits.drop 12).take 4 ++
    '-' :: (digits.drop 16).take 4 ++ '-' :: digits.drop 20

def toChars (u : Uuid) : List Char :=
  hyphenate (Text.Hex.write 32 u.bits.toNat)

instance : ToString Uuid :=
  ⟨fun u => String.ofList u.toChars⟩

/-- Reads 32 digits. -/
def parseDigits? (cs : List Char) : Option Uuid :=
  if cs.length = 32 then (Text.Hex.read? cs).bind ofNat? else none

/-- Reads 32 digits in groups of 8, 4, 4, 4 and 12. -/
def parseGroups? (cs : List Char) : Option Uuid :=
  if cs.length = 36 ∧ hyphenate (cs.filter (· != '-')) = cs then
    parseDigits? (cs.filter (· != '-'))
  else
    none

/-- What stands before the groups of a URN, in lower case. -/
def urnMark : List Char :=
  "urn:uuid:".toList

/-- Splits off the mark of a URN. Each of its letters may have either case. -/
def dropUrnMark? (cs : List Char) : Option (List Char) :=
  if (cs.take 9).map Char.toLower = urnMark then some (cs.drop 9) else none

/-- Reads digits alone, groups, groups in braces, or groups after the mark of a URN. -/
def parseChars? (cs : List Char) : Option Uuid :=
  if cs.length = 32 then
    parseDigits? cs
  else if cs.length = 38 ∧ cs.head? = some '\x7b' ∧ cs.getLast? = some '\x7d' then
    parseGroups? (cs.drop 1).dropLast
  else if cs.length = 45 then
    (dropUrnMark? cs).bind parseGroups?
  else
    parseGroups? cs

/-- Reads any of the written forms. -/
def parse? (s : String) : Option Uuid :=
  parseChars? s.toList

theorem ofNat?_toNat (u : Uuid) : ofNat? u.bits.toNat = some u := by
  unfold ofNat?
  rw [dif_pos u.bits.isLt]
  rfl

theorem filter_hyphenate {digits : List Char} (h : '-' ∉ digits) :
    (hyphenate digits).filter (· != '-') = digits := by
  have keep : ∀ ds : List Char, (∀ c ∈ ds, c ∈ digits) → ds.filter (· != '-') = ds := by
    intro ds hds
    rw [List.filter_eq_self]
    intro c hc
    have : c ≠ '-' := fun e => h (e ▸ hds c hc)
    simpa using this
  have middle (i j : Nat) :
      ((digits.drop i).take j).filter (· != '-') = (digits.drop i).take j :=
    keep _ fun c hc => List.mem_of_mem_drop (List.mem_of_mem_take hc)
  have front : (digits.take 8).filter (· != '-') = digits.take 8 :=
    keep _ fun c hc => List.mem_of_mem_take hc
  have back : (digits.drop 20).filter (· != '-') = digits.drop 20 :=
    keep _ fun c hc => List.mem_of_mem_drop hc
  have join (i j : Nat) : (digits.drop i).take j ++ digits.drop (i + j) = digits.drop i := by
    rw [← List.drop_drop]
    exact List.take_append_drop _ _
  have h8 := join 8 4
  have h12 := join 12 4
  have h16 := join 16 4
  simp only [hyphenate, List.cons_append, List.append_assoc, List.filter_append,
    List.filter_cons, front, middle, back]
  simp_all

theorem length_hyphenate {digits : List Char} (h : digits.length = 32) :
    (hyphenate digits).length = 36 := by
  simp [hyphenate, h]

end Uuid

end EventSourcing
