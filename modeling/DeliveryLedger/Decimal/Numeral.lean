import DeliveryLedger.Decimal.Digits
import DeliveryLedger.Text.Blank
import DeliveryLedger.Text.Digit
/-!
Decimal numbers as they were written: trailing zeros and the sign of zero count, leading
zeros do not.  They stand for `coefficient * 10 ^ exponent`.
-/

namespace DeliveryLedger.Decimal

structure Numeral where
  negative : Bool
  coefficient : Nat
  exponent : Int
deriving DecidableEq, Repr, Inhabited

namespace Numeral

/-- The largest power of ten of a leading digit, and the smallest of a last one. -/
def exponentLimit : Int := 999999999999999999

/-- The exponent behind its letter. -/
def exponent? (cs : List Char) : Option Int :=
  let read (negative : Bool) (digits : List Char) : Option Int :=
    if digits ≠ [] ∧ digits.all isDigit then
      let n : Int := ofDigits digits
      some (if negative then -n else n)
    else none
  match cs with
  | '+' :: rest => read false rest
  | '-' :: rest => read true rest
  | _ => read false cs

/-- The numeral without its sign: digits, perhaps with a point among them, perhaps with an
exponent. -/
def unsigned? (negative : Bool) (cs : List Char) : Option Numeral := do
  let isMark (c : Char) : Bool := c == 'e' || c == 'E'
  let mantissa := cs.takeWhile (!isMark ·)
  let exponent ← match cs.dropWhile (!isMark ·) with
    | [] => some 0
    | _ :: rest => exponent? rest
  let whole := mantissa.takeWhile isDigit
  let behind ← match mantissa.dropWhile isDigit with
    | [] => some []
    | '.' :: rest => if rest.all isDigit then some rest else none
    | _ => none
  if whole = [] ∧ behind = [] then none
  else
    let coefficient := ofDigits (whole ++ behind)
    let last := exponent - behind.length
    if exponentLimit < last + digitCount coefficient - 1 ∨ last < 1 - 2 * exponentLimit then none
    else some ⟨negative, coefficient, last⟩

/-- The numeral of a text, in the digits of any script; blanks around it and underscores in it
do not count. -/
def parse? (text : String) : Option Numeral :=
  match (Text.plainDigits (Text.trim text.toList)).filter (· ≠ '_') with
  | '+' :: rest => unsigned? false rest
  | '-' :: rest => unsigned? true rest
  | cs => unsigned? false cs

/-- The numeral as text: positional unless its last digit stands before the point with
zeros missing, or its first one more than six places behind the point. -/
def chars (n : Numeral) : List Char :=
  let digits := toDigits n.coefficient
  let point : Int := n.exponent + digits.length
  let body :=
    if n.exponent ≤ 0 ∧ -6 < point then
      if point ≤ 0 then
        '0' :: (if n.exponent = 0 then [] else
          '.' :: (List.replicate (-point).toNat '0' ++ digits))
      else if digits.length ≤ point.toNat then digits
      else digits.take point.toNat ++ '.' :: digits.drop point.toNat
    else
      let behind := digits.drop 1
      digits.take 1 ++ (if behind = [] then [] else '.' :: behind) ++
        'E' :: (if 0 ≤ point - 1 then '+' else '-') :: toDigits (point - 1).natAbs
  if n.negative then '-' :: body else body

def text (n : Numeral) : String := String.ofList n.chars

end Numeral

end DeliveryLedger.Decimal
