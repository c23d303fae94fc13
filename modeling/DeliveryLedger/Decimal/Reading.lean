import DeliveryLedger.Binary64
import DeliveryLedger.Decimal.Numeral
/-!
Floating-point numbers as people write them: digits with a point or an exponent, perhaps with
underscores between digits, or a word for an infinity or for no number.
-/

namespace DeliveryLedger.Binary64

/-- Underscores stand between two digits only.  `before` is the character on the left. -/
def underscoresFit (before : Char) : List Char → Bool
  | [] => before != '_'
  | '_' :: cs => Decimal.isDigit before && underscoresFit '_' cs
  | c :: cs => (before != '_' || Decimal.isDigit c) && underscoresFit c cs

/-- The number of digits, point and exponent, without a sign. -/
def ofUnsigned? (negative : Bool) (cs : List Char) : Option Binary64 := do
  let isMark (c : Char) : Bool := c == 'e' || c == 'E'
  let mantissa := cs.takeWhile (!isMark ·)
  let exponent ← match cs.dropWhile (!isMark ·) with
    | [] => some 0
    | _ :: rest => Decimal.Numeral.exponent? rest
  let whole := mantissa.takeWhile Decimal.isDigit
  let behind ← match mantissa.dropWhile Decimal.isDigit with
    | [] => some []
    | '.' :: rest => if rest.all Decimal.isDigit then some rest else none
    | _ => none
  if whole = [] ∧ behind = [] then none
  else
    some (ofDecimal negative (Decimal.ofDigits (whole ++ behind)) (exponent - behind.length))

/-- The number that a word stands for. -/
def ofWord? (negative : Bool) (cs : List Char) : Option Binary64 :=
  let word := String.ofList (cs.map Char.toLower)
  if word = "inf" ∨ word = "infinity" then some (infinity negative)
  else if word = "nan" then some nan
  else none

/-- The number behind a sign. -/
def ofSigned? (negative : Bool) (cs : List Char) : Option Binary64 :=
  match ofWord? negative cs with
  | some x => some x
  | none =>
    if underscoresFit '.' cs then ofUnsigned? negative (cs.filter (· ≠ '_')) else none

/-- The number that a text spells; blanks around it do not count. -/
def ofText? (text : String) : Option Binary64 :=
  match Text.trim text.toList with
  | '+' :: cs => ofSigned? false cs
  | '-' :: cs => ofSigned? true cs
  | cs => ofSigned? false cs

end DeliveryLedger.Binary64
