import DeliveryLedger.Binary64
import DeliveryLedger.Decimal.Digits
/-!
The shortest decimal that reads back as a given binary number, and its layout as text.

`shortest` tries one digit, then two, and so on.  On each grid only the value's two
neighbours can read back if any point does; the first grid with a hit wins, of two hits the
nearer one, and of two equally near ones the even one.  Seventeen digits always suffice; the
exact expansion stands behind them, so that the search has an answer by its form.
-/

namespace DeliveryLedger.Decimal

/-- A decimal number `coefficient * 10 ^ exponent`. -/
structure Scaled where
  coefficient : Nat
  exponent : Int
deriving DecidableEq, Repr

/-- The number of digits of `num / den` before the point, at most zero if it is below one:
the power of ten just above the value. -/
def pointPosition (num den : Nat) : Int :=
  let guess : Int := (digitCount num : Int) - (digitCount den : Int)
  if den * Nat.pow 10 guess.toNat ≤ num * Nat.pow 10 (-guess).toNat then guess + 1 else guess

/-- The grid point that stands for `x` with `count` digits, if one of its two neighbours on
that grid reads back as `x`. -/
def gridPoint? (x : Binary64) (count : Nat) : Option Scaled :=
  let unit := pointPosition x.numerator x.denominator - count
  let num := x.numerator * Nat.pow 10 (-unit).toNat
  let den := x.denominator * Nat.pow 10 unit.toNat
  let below := num / den
  let rest := num % den
  let reads (c : Nat) : Bool := Binary64.ofDecimal x.negative c unit == x
  let upperFirst : Bool := den < 2 * rest || (den == 2 * rest && below % 2 == 1)
  let first := if upperFirst then below + 1 else below
  let second := if upperFirst then below else below + 1
  if reads first then some ⟨first, unit⟩
  else if reads second then some ⟨second, unit⟩
  else none

/-- The value itself: halving `k` times is multiplying by `5 ^ k` and moving the point. -/
def exactDecimal (x : Binary64) : Scaled :=
  let halvings := (-x.power).toNat
  ⟨x.numerator * Nat.pow 5 halvings, -halvings⟩

/-- The decimal with the fewest digits that reads back as the finite number `x`. -/
def shortest (x : Binary64) : Scaled :=
  if x.magnitude = 0 then ⟨0, 0⟩
  else ((List.range 17).findSome? fun i => gridPoint? x (i + 1)).getD (exactDecimal x)

/-- Which decimals are written with an exponent, and how. -/
structure Layout where
  /-- The smallest exponent of the leading digit that is still written positionally. -/
  lowest : Int
  /-- The largest exponent of the leading digit that is still written positionally. -/
  highest : Int
  /-- The letter before the exponent. -/
  mark : Char
  /-- The least number of digits of the exponent. -/
  exponentWidth : Nat
  /-- What follows the digits of a whole number that is written positionally. -/
  wholeEnd : List Char

/-- Trailing zeros of the digits moved into the exponent. -/
def dropTrailingZeros (digits : List Char) : List Char :=
  (digits.reverse.dropWhile (· == '0')).reverse

/-- A non-negative decimal laid out as text. -/
def Layout.write (layout : Layout) (value : Scaled) : List Char :=
  let all := toDigits value.coefficient
  let leading : Int := value.exponent + all.length - 1
  let digits := match dropTrailingZeros all with
    | [] => ['0']
    | ds => ds
  let leading := if value.coefficient = 0 then 0 else leading
  if leading < layout.lowest || layout.highest < leading then
    let sign := if leading < 0 then '-' else '+'
    let tail := match digits.drop 1 with
      | [] => []
      | ds => '.' :: ds
    digits.take 1 ++ tail ++ layout.mark :: sign ::
      padLeft layout.exponentWidth (toDigits leading.natAbs)
  else if leading < 0 then
    '0' :: '.' :: (List.replicate (leading.natAbs - 1) '0' ++ digits)
  else
    let before := leading.toNat + 1
    if digits.length ≤ before then
      digits ++ List.replicate (before - digits.length) '0' ++ layout.wholeEnd
    else digits.take before ++ '.' :: digits.drop before

/-- Numbers in a payload are positional from `1e-4` up to `1e16`, keep a `.0`, and have a
signed exponent of at least two digits otherwise. -/
def payloadLayout : Layout :=
  { lowest := -4, highest := 15, mark := 'e', exponentWidth := 2, wholeEnd := ['.', '0'] }

/-- The text of a binary number in a payload. -/
def floatChars (x : Binary64) : List Char :=
  if x.isNaN then ['N', 'a', 'N']
  else
    let body := if x.isFinite then payloadLayout.write (shortest x) else "Infinity".toList
    if x.negative then '-' :: body else body

def floatText (x : Binary64) : String := String.ofList (floatChars x)

end DeliveryLedger.Decimal
