import DeliveryLedger.Json.Value
import DeliveryLedger.Json.Canonical
/-!
Values as they appear inside messages: text between quotes, lists in brackets.

Text stands in single quotes, or in double quotes if it holds a single quote and no double
quote.  The quote itself, the backslash, control characters and invisible characters are
escaped, so a quoted text never breaks a line.
-/

namespace DeliveryLedger.Text

/-- Code points of characters that are escaped because they cannot be seen: controls,
format characters, separators other than the space, surrogates and private use. -/
def invisibleRanges : List (Nat × Nat) :=
  [(0x00, 0x1f), (0x7f, 0xa0), (0xad, 0xad), (0x600, 0x605), (0x61c, 0x61c), (0x6dd, 0x6dd),
   (0x70f, 0x70f), (0x8e2, 0x8e2), (0x1680, 0x1680), (0x180e, 0x180e), (0x2000, 0x200f),
   (0x2028, 0x202f), (0x205f, 0x206f), (0x3000, 0x3000), (0xd800, 0xf8ff), (0xfeff, 0xfeff),
   (0xfff0, 0xfffb), (0xfffe, 0xffff), (0xe0000, 0x10ffff)]

def isInvisible (c : Char) : Bool :=
  invisibleRanges.any fun r => r.1 ≤ c.toNat && c.toNat ≤ r.2

/-- The lowest `width` hexadecimal digits of a number. -/
def hexDigits (width n : Nat) : List Char :=
  (List.range width).map fun i => Json.hexDigit (n / Nat.pow 16 (width - 1 - i) % 16)

/-- A character between two marks `mark`. -/
def quoteChar (mark c : Char) : List Char :=
  if c = mark ∨ c = '\\' then ['\\', c]
  else if c = '\n' then ['\\', 'n']
  else if c = '\r' then ['\\', 'r']
  else if c = '\t' then ['\\', 't']
  else if isInvisible c then
    if c.toNat < 0x100 then '\\' :: 'x' :: hexDigits 2 c.toNat
    else if c.toNat < 0x10000 then '\\' :: 'u' :: hexDigits 4 c.toNat
    else '\\' :: 'U' :: hexDigits 8 c.toNat
  else [c]

/-- The mark around a text: single unless only the double one avoids an escape. -/
def markFor (cs : List Char) : Char :=
  if cs.contains '\'' && !cs.contains '"' then '"' else '\''

/-- A text in quotes. -/
def quoted (s : String) : String :=
  let cs := s.toList
  let mark := markFor cs
  String.ofList (mark :: (cs.flatMap (quoteChar mark) ++ [mark]))

/-- Quoted texts in brackets. -/
def quotedList (xs : List String) : String :=
  "[" ++ String.intercalate ", " (xs.map quoted) ++ "]"

/-- A floating-point number inside a message. -/
def floatLiteral (x : Binary64) : String :=
  if x.isNaN then "nan"
  else if x.isFinite then Decimal.floatText x
  else if x.negative then "-inf" else "inf"

mutual

/-- A value inside a message, with text in quotes. -/
def literal : Json → String
  | .null => "None"
  | .bool true => "True"
  | .bool false => "False"
  | .int i => Decimal.intText i
  | .float x => floatLiteral x
  | .str s => quoted s
  | .arr items => "[" ++ String.intercalate ", " (literals items) ++ "]"
  | .obj members => "\x7b" ++ String.intercalate ", " (memberLiterals members) ++ "\x7d"

def literals : List Json → List String
  | [] => []
  | x :: xs => literal x :: literals xs

def memberLiterals : List (String × Json) → List String
  | [] => []
  | (k, v) :: ms => (quoted k ++ ": " ++ literal v) :: memberLiterals ms

end

/-- A value inside a message, a text as it is. -/
def plain : Json → String
  | .str s => s
  | j => literal j

end DeliveryLedger.Text
