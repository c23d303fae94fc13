/-!
Decimal digits of natural numbers, most significant first, and the value of a row of
digits.  `ofDigits_toDigits` says that reading the digits of a number gives the number.
-/

namespace DeliveryLedger.Decimal

/-- The character of a digit below ten. -/
def digitChar (d : Nat) : Char := Char.ofNat (48 + d)

/-- The value of a decimal digit. -/
def digitValue (c : Char) : Nat := c.toNat - 48

/-- One of the ten ASCII digits. -/
def isDigit (c : Char) : Bool := 48 ≤ c.toNat && c.toNat ≤ 57

/-- The value of a row of digits that follow the number `start`. -/
def ofDigitsFrom (start : Nat) (digits : List Char) : Nat :=
  digits.foldl (fun total c => 10 * total + digitValue c) start

def ofDigits (digits : List Char) : Nat := ofDigitsFrom 0 digits

/-- The digits of a number, without leading zeros; zero has one digit. -/
def toDigits (n : Nat) : List Char :=
  if n < 10 then [digitChar n] else toDigits (n / 10) ++ [digitChar (n % 10)]
termination_by n
decreasing_by omega

/-- Digits filled up with zeros on the left to at least `width` characters. -/
def padLeft (width : Nat) (digits : List Char) : List Char :=
  List.replicate (width - digits.length) '0' ++ digits

/-- A number as text. -/
def natText (n : Nat) : String := String.ofList (toDigits n)

/-- A number as text of at least `width` digits. -/
def natTextPadded (width n : Nat) : String := String.ofList (padLeft width (toDigits n))

/-- An integer as characters: a minus sign if it is negative, then the digits. -/
def intChars (i : Int) : List Char :=
  if i < 0 then '-' :: toDigits i.natAbs else toDigits i.natAbs

/-- An integer as text. -/
def intText (i : Int) : String := String.ofList (intChars i)

/-- The number of decimal digits of a number. -/
def digitCount (n : Nat) : Nat := (toDigits n).length

theorem digitValue_digitChar {d : Nat} (h : d < 10) : digitValue (digitChar d) = d := by
  revert d
  decide

theorem isDigit_digitChar {d : Nat} (h : d < 10) : isDigit (digitChar d) = true := by
  revert d
  decide

theorem ofDigitsFrom_append (start : Nat) (xs ys : List Char) :
    ofDigitsFrom start (xs ++ ys) = ofDigitsFrom (ofDigitsFrom start xs) ys := by
  simp [ofDigitsFrom]

theorem ofDigits_toDigits (n : Nat) : ofDigits (toDigits n) = n := by
  fun_induction toDigits n with
  | case1 n h => simp [ofDigits, ofDigitsFrom, digitValue_digitChar h]
  | case2 n h ih =>
    rw [ofDigits, ofDigitsFrom_append]
    rw [ofDigits] at ih
    rw [ih]
    simp only [ofDigitsFrom, List.foldl_cons, List.foldl_nil]
    rw [digitValue_digitChar (Nat.mod_lt _ (by decide))]
    omega

theorem toDigits_ne_nil (n : Nat) : toDigits n ≠ [] := by
  rw [toDigits]
  split <;> simp

theorem isDigit_of_mem_toDigits {n : Nat} {c : Char} (h : c ∈ toDigits n) :
    isDigit c = true := by
  fun_induction toDigits n with
  | case1 n hn =>
    rw [List.mem_singleton] at h
    exact h ▸ isDigit_digitChar hn
  | case2 n hn ih =>
    rcases List.mem_append.1 h with h | h
    · exact ih h
    · rw [List.mem_singleton] at h
      exact h ▸ isDigit_digitChar (Nat.mod_lt _ (by decide))

end DeliveryLedger.Decimal
