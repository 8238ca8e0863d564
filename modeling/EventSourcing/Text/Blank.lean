namespace EventSourcing.Text

/-- Whether a character has the Unicode property White_Space. -/
def isBlank (c : Char) : Bool :=
  let n := c.toNat
  (0x9 ≤ n && n ≤ 0xD) || n == 0x20 || n == 0x85 || n == 0xA0 || n == 0x1680 ||
    (0x2000 ≤ n && n ≤ 0x200A) || n == 0x2028 || n == 0x2029 || n == 0x202F || n == 0x205F ||
    n == 0x3000

/-- The characters without the blanks at either end. -/
def trimChars (cs : List Char) : List Char :=
  ((cs.dropWhile isBlank).reverse.dropWhile isBlank).reverse

/-- The text without the blanks at either end. -/
def trim (s : String) : String :=
  String.ofList (trimChars s.toList)

/-- No blank stands at either end. -/
def IsTrimmed (cs : List Char) : Prop :=
  (∀ c, cs.head? = some c → isBlank c = false) ∧ (∀ c, cs.getLast? = some c → isBlank c = false)

private theorem getLast?_dropWhile {cs : List Char} {c : Char}
    (h : (cs.dropWhile isBlank).getLast? = some c) : cs.getLast? = some c := by
  induction cs with
  | nil => simp at h
  | cons a rest ih =>
    by_cases ha : isBlank a = true
    · rw [List.dropWhile_cons_of_pos ha] at h
      rw [List.getLast?_cons, ih h]
      rfl
    · rwa [List.dropWhile_cons_of_neg ha] at h

private theorem head?_dropWhile {cs : List Char} {c : Char}
    (h : (cs.dropWhile isBlank).head? = some c) : isBlank c = false := by
  have := List.head?_dropWhile_not isBlank cs
  rwa [h] at this

theorem isTrimmed_trimChars (cs : List Char) : IsTrimmed (trimChars cs) := by
  constructor
  · intro c h
    rw [trimChars, List.head?_reverse] at h
    have h := getLast?_dropWhile h
    rw [List.getLast?_reverse] at h
    exact head?_dropWhile h
  · intro c h
    rw [trimChars, List.getLast?_reverse] at h
    exact head?_dropWhile h

theorem isTrimmed_trim (s : String) : IsTrimmed (trim s).toList := by
  simpa [trim] using isTrimmed_trimChars s.toList

private theorem dropWhile_eq_self {cs : List Char}
    (h : ∀ c, cs.head? = some c → isBlank c = false) : cs.dropWhile isBlank = cs := by
  cases cs with
  | nil => rfl
  | cons a rest => exact List.dropWhile_cons_of_neg (by simp [h a rfl])

theorem trimChars_of_isTrimmed {cs : List Char} (h : IsTrimmed cs) : trimChars cs = cs := by
  have hrev : ∀ c, cs.reverse.head? = some c → isBlank c = false := by
    intro c hc
    rw [List.head?_reverse] at hc
    exact h.2 c hc
  rw [trimChars, dropWhile_eq_self h.1, dropWhile_eq_self hrev, List.reverse_reverse]

theorem trim_of_isTrimmed {s : String} (h : IsTrimmed s.toList) : trim s = s := by
  rw [trim, trimChars_of_isTrimmed h, String.ofList_toList]

end EventSourcing.Text
