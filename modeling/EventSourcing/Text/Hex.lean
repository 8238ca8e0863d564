namespace EventSourcing.Text.Hex

/-- The lower-case digit of a value below sixteen. -/
def digit (n : Nat) : Char :=
  Nat.digitChar n

/-- The value of a digit of either case. -/
def value? (c : Char) : Option Nat :=
  if '0' ≤ c ∧ c ≤ '9' then some (c.toNat - '0'.toNat)
  else if 'a' ≤ c ∧ c ≤ 'f' then some (c.toNat - 'a'.toNat + 10)
  else if 'A' ≤ c ∧ c ≤ 'F' then some (c.toNat - 'A'.toNat + 10)
  else none

/-- The last `width` hexadecimal digits of a number, highest first. -/
def write : (width : Nat) → (n : Nat) → List Char
  | 0, _ => []
  | width + 1, n => write width (n / 16) ++ [digit (n % 16)]

/-- How many numbers can be written with `width` digits. -/
def capacity : (width : Nat) → Nat
  | 0 => 1
  | width + 1 => 16 * capacity width

/-- The number that digits continue when `high` has been read before them. -/
def readFrom? (high : Nat) : List Char → Option Nat
  | [] => some high
  | c :: rest => (value? c).bind fun v => readFrom? (16 * high + v) rest

/-- The number that digits of either case stand for; `none` if one is no digit. -/
def read? (cs : List Char) : Option Nat :=
  readFrom? 0 cs

theorem value?_digit {n : Nat} (h : n < 16) : value? (digit n) = some n := by
  have : ∀ k : Fin 16, value? (digit k) = some k.val := by decide
  exact this ⟨n, h⟩

@[simp]
theorem length_write (width n : Nat) : (write width n).length = width := by
  induction width generalizing n with
  | zero => rfl
  | succ width ih => simp [write, ih]

theorem readFrom?_append (high : Nat) (cs ds : List Char) :
    readFrom? high (cs ++ ds) = (readFrom? high cs).bind fun n => readFrom? n ds := by
  induction cs generalizing high with
  | nil => rfl
  | cons c rest ih =>
    cases hv : value? c with
    | none => simp [readFrom?, hv]
    | some v => simp [readFrom?, hv, ih]

theorem readFrom?_write (high : Nat) {width n : Nat} (h : n < capacity width) :
    readFrom? high (write width n) = some (capacity width * high + n) := by
  induction width generalizing n with
  | zero =>
    have : n = 0 := by simpa [capacity] using h
    simp [write, readFrom?, capacity, this]
  | succ width ih =>
    have hdiv : n / 16 < capacity width := Nat.div_lt_of_lt_mul h
    have hmod : n % 16 < 16 := Nat.mod_lt _ (by decide)
    rw [write, readFrom?_append, ih hdiv]
    simp only [Option.bind_some, readFrom?, value?_digit hmod]
    rw [capacity, Nat.mul_add, Nat.mul_assoc]
    congr 1
    omega

theorem read?_write {width n : Nat} (h : n < capacity width) : read? (write width n) = some n := by
  rw [read?, readFrom?_write 0 h]
  simp

end EventSourcing.Text.Hex
