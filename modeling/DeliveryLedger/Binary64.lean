/-!
Numbers of the 64-bit binary floating-point format.

A number is a sign and a magnitude; the magnitude is the 63-bit field that holds
exponent and fraction, so magnitudes are ordered as the numbers are.  A finite number
stands for `significand * 2 ^ power`, and `ofRatio` rounds any quotient of natural
numbers to the nearest number, a tie going to the even significand.
-/

namespace DeliveryLedger

/-- A quotient rounded to the nearest natural number, a tie going to the even one. -/
def divideToEven (num den : Nat) : Nat :=
  let floor := num / den
  let rest := num % den
  if 2 * rest < den then floor
  else if den < 2 * rest then floor + 1
  else floor + floor % 2

/-- A binary floating-point number: its sign and the field of its magnitude. -/
structure Binary64 where
  negative : Bool
  magnitude : Nat
deriving DecidableEq, Repr, Inhabited

namespace Binary64

/-- The magnitude field of an infinity; finite numbers lie below it, the others above. -/
def infiniteMagnitude : Nat := 2047 * Nat.pow 2 52

def zero : Binary64 := ⟨false, 0⟩

def infinity (negative : Bool) : Binary64 := ⟨negative, infiniteMagnitude⟩

/-- The number that is no number. -/
def nan : Binary64 := ⟨false, infiniteMagnitude + Nat.pow 2 51⟩

def isFinite (x : Binary64) : Bool := x.magnitude < infiniteMagnitude

def isInfinite (x : Binary64) : Bool := x.magnitude == infiniteMagnitude

def isNaN (x : Binary64) : Bool := infiniteMagnitude < x.magnitude

/-- The exponent field. -/
def exponentField (x : Binary64) : Nat := x.magnitude / Nat.pow 2 52

/-- The integer significand of a finite number. -/
def significand (x : Binary64) : Nat :=
  if x.exponentField = 0 then x.magnitude % Nat.pow 2 52
  else Nat.pow 2 52 + x.magnitude % Nat.pow 2 52

/-- The power of two that the significand is multiplied by. -/
def power (x : Binary64) : Int := (max x.exponentField 1 : Nat) - 1075

/-- The numerator of the value's magnitude, as a quotient of natural numbers. -/
def numerator (x : Binary64) : Nat := x.significand * Nat.pow 2 x.power.toNat

/-- The denominator of the value's magnitude, as a quotient of natural numbers. -/
def denominator (x : Binary64) : Nat := Nat.pow 2 (-x.power).toNat

theorem denominator_pos (x : Binary64) : 0 < x.denominator :=
  Nat.pow_pos (by decide)

/-- The power of two of the unit in the last place of `num / den`, never below that of the
smallest number. -/
def unitPower (num den : Nat) : Int :=
  let guess : Int := (Nat.log2 num : Int) - (Nat.log2 den : Int)
  let reached : Bool := den * Nat.pow 2 guess.toNat ≤ num * Nat.pow 2 (-guess).toNat
  let top : Int := if reached then guess else guess - 1
  max (top - 52) (-1074)

/-- The number nearest to `num / den`; infinite if it is beyond every finite number. -/
def ofRatio (negative : Bool) (num den : Nat) : Binary64 :=
  if num = 0 then ⟨negative, 0⟩
  else
    let unit := unitPower num den
    let rounded := divideToEven (num * Nat.pow 2 (-unit).toNat) (den * Nat.pow 2 unit.toNat)
    ⟨negative, min ((unit + 1074).toNat * Nat.pow 2 52 + rounded) infiniteMagnitude⟩

/-- The number nearest to `coefficient * 10 ^ exponent`.  Exponents far beyond the range are
settled without computing the power. -/
def ofDecimal (negative : Bool) (coefficient : Nat) (exponent : Int) : Binary64 :=
  if coefficient = 0 then ⟨negative, 0⟩
  else if 400 < exponent then infinity negative
  else if exponent < -(400 + (Nat.log2 coefficient : Int)) then ⟨negative, 0⟩
  else ofRatio negative (coefficient * Nat.pow 10 exponent.toNat) (Nat.pow 10 (-exponent).toNat)

/-- The number nearest to an integer. -/
def ofInt (i : Int) : Binary64 := ofRatio (i < 0) i.natAbs 1

/-- The numerator of a finite number's value over `denominator`, with its sign. -/
def signedNumerator (x : Binary64) : Int :=
  if x.negative then -(x.numerator : Int) else x.numerator

/-- The integer part of a finite number, cut towards zero. -/
def truncate (x : Binary64) : Int :=
  let whole : Nat := x.numerator / x.denominator
  if x.negative then -(whole : Int) else whole

/-- The part of a finite number behind the point, with the number's sign. -/
def fractional (x : Binary64) : Binary64 :=
  ofRatio x.negative (x.numerator % x.denominator) x.denominator

/-- The product of two finite numbers, rounded once. -/
def mul (x y : Binary64) : Binary64 :=
  ofRatio (x.negative != y.negative) (x.numerator * y.numerator) (x.denominator * y.denominator)

/-- The sum of two finite numbers, rounded once; an exact zero is positive unless both are
negative zeros. -/
def add (x y : Binary64) : Binary64 :=
  let total := x.signedNumerator * y.denominator + y.signedNumerator * x.denominator
  if total = 0 then ⟨x.negative && y.negative, 0⟩
  else ofRatio (total < 0) total.natAbs (x.denominator * y.denominator)

/-- Equality of values: the zeros are equal, and the number that is no number differs from
itself. -/
def sameValue (x y : Binary64) : Bool :=
  !x.isNaN && !y.isNaN && (x == y || (x.magnitude == 0 && y.magnitude == 0))

theorem ofRatio_zero (negative : Bool) (den : Nat) :
    ofRatio negative 0 den = ⟨negative, 0⟩ := by
  simp [ofRatio]

end Binary64

end DeliveryLedger
