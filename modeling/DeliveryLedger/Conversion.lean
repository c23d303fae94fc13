import DeliveryLedger.Decimal.Reading
import DeliveryLedger.Decimal.Shortest
import DeliveryLedger.Json.Value
/-!
Data taken for a value of another kind.

Whoever reads data decides which conversions there are.  `Conversions.strict` has none but from
an integer to a floating-point number; `Conversions.lax` also takes numbers, truth values and
words for each other where they stand for the same.  Text is made from text only.
-/

namespace DeliveryLedger

/-- What is taken for a value of each of the simple types. -/
structure Conversions where
  integer : Json → Option Int
  boolean : Json → Option Bool
  float : Json → Option Binary64
  decimal : Json → Option Decimal.Numeral

namespace Conversions

/-- An integer as a floating-point number, if it is not too large for one. -/
def floatOfInt? (i : Int) : Option Binary64 :=
  let x := Binary64.ofInt i
  if x.isFinite then some x else none

def strict : Conversions where
  integer := Json.asInt?
  boolean := Json.asBool?
  float
    | .int i => floatOfInt? i
    | .float x => some x
    | _ => none
  decimal
    | .str s => Decimal.Numeral.parse? s
    | _ => none

/-! ### Conversions between kinds -/

/-- The truth value of a word. -/
def truthOfWord? (word : String) : Option Bool :=
  let word := word.toLower
  if ["true", "1", "yes", "on", "t", "y"].contains word then some true
  else if ["false", "0", "no", "off", "f", "n"].contains word then some false
  else none

/-- The truth value of a number. -/
def truthOfNumber? (x : Binary64) : Option Bool :=
  if x.magnitude = 0 then some false
  else if x = Binary64.ofInt 1 then some true
  else none

/-- The integer that a floating-point number is, within the range of 64 bits. -/
def integerOfFloat? (x : Binary64) : Option Int :=
  if x.isFinite ∧ x.numerator % x.denominator = 0 ∧ x.truncate.natAbs < Nat.pow 2 63 then
    some x.truncate
  else none

/-- The integer of digits, perhaps with underscores between them and with zeros behind a
point. -/
def naturalOfDigits? (cs : List Char) : Option Nat :=
  let whole := cs.takeWhile (· ≠ '.')
  let digits := whole.filter (· ≠ '_')
  if Binary64.underscoresFit '.' whole ∧ digits ≠ [] ∧ digits.all Decimal.isDigit ∧
      (cs.drop (whole.length + 1)).all (· == '0') then
    some (Decimal.ofDigits digits)
  else none

/-- The integer that a text spells; blanks around it do not count. -/
def integerOfText? (s : String) : Option Int :=
  match Text.trim s.toList with
  | '-' :: cs => (naturalOfDigits? cs).map fun n => -(n : Int)
  | '+' :: cs => (naturalOfDigits? cs).map Int.ofNat
  | cs => (naturalOfDigits? cs).map Int.ofNat

/-- Numbers without any exponent, and whole ones without a point. -/
def positionalLayout : Decimal.Layout :=
  { lowest := -400, highest := 400, mark := 'e', exponentWidth := 1, wholeEnd := [] }

/-- The numeral of the shortest text of a floating-point number. -/
def decimalOfFloat? (x : Binary64) : Option Decimal.Numeral :=
  if x.isFinite then
    let digits := positionalLayout.write (Decimal.shortest x)
    Decimal.Numeral.parse? (String.ofList (if x.negative then '-' :: digits else digits))
  else none

def lax : Conversions where
  integer
    | .int i => some i
    | .bool b => some (if b then 1 else 0)
    | .float x => integerOfFloat? x
    | .str s => integerOfText? s
    | _ => none
  boolean
    | .bool b => some b
    | .int i => if i = 0 then some false else if i = 1 then some true else none
    | .float x => truthOfNumber? x
    | .str s => truthOfWord? s
    | _ => none
  float
    | .int i => floatOfInt? i
    | .float x => some x
    | .str s => Binary64.ofText? s
    | .bool b => some (Binary64.ofInt (if b then 1 else 0))
    | _ => none
  decimal
    | .str s => Decimal.Numeral.parse? s
    | .int i => Decimal.Numeral.parse? (Decimal.intText i)
    | .float x => decimalOfFloat? x
    | _ => none

end Conversions

end DeliveryLedger
