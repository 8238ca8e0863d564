import EventSourcing.Text.Hex

namespace EventSourcing.Json

/-- The characters that stand for one character inside quotes. -/
def escape (c : Char) : List Char :=
  if c = '"' then ['\\', '"']
  else if c = '\\' then ['\\', '\\']
  else if c = '\x08' then ['\\', 'b']
  else if c = '\x0c' then ['\\', 'f']
  else if c = '\n' then ['\\', 'n']
  else if c = '\r' then ['\\', 'r']
  else if c = '\t' then ['\\', 't']
  else if c.toNat < 0x20 then '\\' :: 'u' :: Text.Hex.write 4 c.toNat
  else [c]

def writeString (s : String) : List Char :=
  '"' :: s.toList.flatMap escape ++ ['"']

def writeNat (n : Nat) : List Char :=
  Nat.toDigits 10 n

/-- The character that a backslash and a single other character stand for. -/
def simpleEscape? (c : Char) : Option Char :=
  if c = '"' ∨ c = '\\' ∨ c = '/' then some c
  else if c = 'b' then some '\x08'
  else if c = 'f' then some '\x0c'
  else if c = 'n' then some '\n'
  else if c = 'r' then some '\r'
  else if c = 't' then some '\t'
  else none

/-- No single character behind a backslash is the beginning of a unit. -/
theorem simpleEscape?_ne {e c : Char} (h : simpleEscape? e = some c) : e ≠ 'u' := by
  rintro rfl
  cases h

def isHighSurrogate (n : Nat) : Bool :=
  0xD800 ≤ n && n ≤ 0xDBFF

def isLowSurrogate (n : Nat) : Bool :=
  0xDC00 ≤ n && n ≤ 0xDFFF

def ofSurrogates (high low : Nat) : Char :=
  Char.ofNat (0x10000 + (high - 0xD800) * 0x400 + (low - 0xDC00))

/-- Puts a character before the text that was read behind it. -/
def consChar (c : Char) (read : Option (List Char × List Char)) :
    Option (List Char × List Char) :=
  read.map fun (text, rest) => (c :: text, rest)

/-- Reads the rest of a string literal, up to and with the closing quote; the result is the text and
what follows the quote. Control characters must be escaped, and the units of a surrogate pair must
stand together. -/
def readBody? : List Char → Option (List Char × List Char)
  | [] => none
  | '"' :: rest => some ([], rest)
  | '\\' :: 'u' :: a :: b :: c :: d :: rest =>
    match Text.Hex.read? [a, b, c, d] with
    | none => none
    | some unit =>
      if isHighSurrogate unit then
        match rest with
        | '\\' :: 'u' :: e :: f :: g :: h :: rest =>
          match Text.Hex.read? [e, f, g, h] with
          | none => none
          | some second =>
            if isLowSurrogate second then consChar (ofSurrogates unit second) (readBody? rest)
            else none
        | _ => none
      else if isLowSurrogate unit then none
      else consChar (Char.ofNat unit) (readBody? rest)
  | '\\' :: c :: rest =>
    match simpleEscape? c with
    | none => none
    | some c => consChar c (readBody? rest)
  | c :: rest =>
    if c = '\\' ∨ c.toNat < 0x20 then none else consChar c (readBody? rest)

/-- Skips the rest of a string literal, up to and with the closing quote. An escaped unit needs four
digits here but may stand for anything. -/
def skipBody? : List Char → Option (List Char)
  | [] => none
  | '"' :: rest => some rest
  | '\\' :: 'u' :: a :: b :: c :: d :: rest =>
    if (Text.Hex.read? [a, b, c, d]).isSome then skipBody? rest else none
  | '\\' :: c :: rest => if (simpleEscape? c).isSome then skipBody? rest else none
  | c :: rest => if c = '\\' ∨ c.toNat < 0x20 then none else skipBody? rest

def decimalValue (digits : List Char) : Nat :=
  Nat.ofDigitChars 10 digits 0

/-- Reads a number literal without sign, fraction or exponent; the result is its value and what
follows it. Only zero may begin with the digit zero. -/
def readNat? (cs : List Char) : Option (Nat × List Char) :=
  let digits := cs.takeWhile Char.isDigit
  let rest := cs.dropWhile Char.isDigit
  if digits = [] ∨ (digits.head? = some '0' ∧ digits.length ≠ 1) then
    none
  else if rest.head? = some '.' ∨ rest.head? = some 'e' ∨ rest.head? = some 'E' then
    none
  else
    some (decimalValue digits, rest)

/-- Skips the digits at the front, of which there must be one. -/
def skipDigits? (cs : List Char) : Option (List Char) :=
  match cs with
  | c :: rest => if c.isDigit then some (rest.dropWhile Char.isDigit) else none
  | [] => none

def skipExponent? (cs : List Char) : Option (List Char) :=
  match cs with
  | c :: rest =>
    if c = 'e' ∨ c = 'E' then
      match rest with
      | '+' :: digits => skipDigits? digits
      | '-' :: digits => skipDigits? digits
      | digits => skipDigits? digits
    else
      some cs
  | [] => some cs

def skipNumber? (cs : List Char) : Option (List Char) := do
  let unsigned := if cs.head? = some '-' then cs.drop 1 else cs
  let afterInteger ←
    match unsigned with
    | '0' :: rest => if rest.head?.any Char.isDigit then none else some rest
    | digits => skipDigits? digits
  match afterInteger with
  | '.' :: fraction => skipExponent? (← skipDigits? fraction)
  | rest => skipExponent? rest

theorem decimalValue_writeNat (n : Nat) : decimalValue (writeNat n) = n :=
  Nat.ofDigitChars_toDigits (by decide) (by decide)

/-- Only zero is written with the digit zero in front. -/
theorem head?_writeNat (n : Nat) (h : (writeNat n).head? = some '0') : n = 0 := by
  unfold writeNat at h
  induction n using Nat.strongRecOn with
  | ind n ih =>
    rw [Nat.toDigits_eq_if (by decide)] at h
    split at h
    · next hlt =>
      have : ∀ k : Fin 10, Nat.digitChar k = '0' → k.val = 0 := by decide
      exact this ⟨n, hlt⟩ (by simpa using h)
    · next hge =>
      have hne : Nat.toDigits 10 (n / 10) ≠ [] := Nat.toDigits_ne_nil
      rw [List.head?_append] at h
      cases hhead : (Nat.toDigits 10 (n / 10)).head? with
      | none => exact absurd (List.head?_eq_none_iff.1 hhead) hne
      | some c =>
        rw [hhead, Option.some_or] at h
        have := ih (n / 10) (by omega) (hhead.trans h)
        omega

end EventSourcing.Json
