import DeliveryLedger.Json.Value
import DeliveryLedger.Decimal.Digits
/-!
A strict reader of JSON text.

Blanks are space, tab, line feed and carriage return, and may stand around every token.
Strings hold no raw control characters and no lone surrogates, numbers no leading zeros,
lists no trailing comma.  A number with a point or an exponent is a floating-point number, any
other an integer; `NaN` and the infinities are numbers, too.  `read?` keeps the members of an
object as they were written; of a repeated key `parse?` keeps the last value.

The recursion passes fuel; the length of the text is enough, because each nested call comes
after at least one character was read.
-/

namespace DeliveryLedger.Json

/-- The characters that may stand between tokens. -/
def isBlank (c : Char) : Bool := c == ' ' || c == '\t' || c == '\n' || c == '\r'

def skipBlanks (cs : List Char) : List Char := cs.dropWhile isBlank

/-- The value of a hexadecimal digit. -/
def hexValue? (c : Char) : Option Nat :=
  let n := c.toNat
  if 48 ≤ n ∧ n ≤ 57 then some (n - 48)
  else if 97 ≤ n ∧ n ≤ 102 then some (n - 87)
  else if 65 ≤ n ∧ n ≤ 70 then some (n - 55)
  else none

/-- The value of four hexadecimal digits. -/
def hexUnit? (a b c d : Char) : Option Nat := do
  let a ← hexValue? a
  let b ← hexValue? b
  let c ← hexValue? c
  let d ← hexValue? d
  pure (((a * 16 + b) * 16 + c) * 16 + d)

/-- The character that a backslash and one letter stand for. -/
def shortEscape? (c : Char) : Option Char :=
  if c = '"' then some '"'
  else if c = '\\' then some '\\'
  else if c = '/' then some '/'
  else if c = 'b' then some '\x08'
  else if c = 'f' then some '\x0c'
  else if c = 'n' then some '\n'
  else if c = 'r' then some '\r'
  else if c = 't' then some '\t'
  else none

/-- The character of a pair of surrogates. -/
def joinSurrogates (high low : Nat) : Char :=
  Char.ofNat (0x10000 + (high - 0xD800) * 0x400 + (low - 0xDC00))

/-- A character put in front of what was read. -/
def pushFront (c : Char) : Option (List Char × List Char) → Option (List Char × List Char)
  | none => none
  | some (body, rest) => some (c :: body, rest)

/-- The characters of a string up to its closing quote, and what follows it. -/
def stringBody : List Char → Option (List Char × List Char)
  | [] => none
  | c :: rest =>
    if c = '"' then some ([], rest)
    else if c = '\\' then
      match rest with
      | [] => none
      | e :: rest =>
        if e = 'u' then
          match rest with
          | a :: b :: c :: d :: rest =>
            match hexUnit? a b c d with
            | none => none
            | some unit =>
              if 0xD800 ≤ unit ∧ unit < 0xDC00 then
                match rest with
                | '\\' :: 'u' :: a :: b :: c :: d :: rest =>
                  match hexUnit? a b c d with
                  | none => none
                  | some low =>
                    if 0xDC00 ≤ low ∧ low < 0xE000 then
                      pushFront (joinSurrogates unit low) (stringBody rest)
                    else none
                | _ => none
              else if 0xDC00 ≤ unit ∧ unit < 0xE000 then none
              else pushFront (Char.ofNat unit) (stringBody rest)
          | _ => none
        else
          match shortEscape? e with
          | none => none
          | some c => pushFront c (stringBody rest)
    else if c.toNat < 32 then none
    else pushFront c (stringBody rest)

/-- The longest row of digits at the front, and the rest. -/
def digitRun (cs : List Char) : List Char × List Char :=
  (cs.takeWhile Decimal.isDigit, cs.dropWhile Decimal.isDigit)

/-- The digits after a point, if a point stands in front. -/
def fractionPart (cs : List Char) : Option (Option (List Char) × List Char) :=
  match cs with
  | '.' :: rest =>
    match digitRun rest with
    | ([], _) => none
    | (digits, rest) => some (some digits, rest)
  | _ => some (none, cs)

/-- The digits of an exponent with its sign, `negative` for a minus sign. -/
def exponentDigits (negative : Bool) (cs : List Char) : Option (Option Int × List Char) :=
  match digitRun cs with
  | ([], _) => none
  | (digits, rest) =>
    let n : Int := Decimal.ofDigits digits
    some (some (if negative then -n else n), rest)

/-- The exponent, if its letter stands in front. -/
def exponentPart (cs : List Char) : Option (Option Int × List Char) :=
  match cs with
  | [] => some (none, [])
  | c :: rest =>
    if c = 'e' ∨ c = 'E' then
      match rest with
      | '+' :: rest => exponentDigits false rest
      | '-' :: rest => exponentDigits true rest
      | _ => exponentDigits false rest
    else some (none, cs)

/-- Digits of a whole number: no zero in front of another digit. -/
def wholePart (cs : List Char) : Option (List Char × List Char) :=
  match digitRun cs with
  | ([], _) => none
  | ('0' :: _ :: _, _) => none
  | (digits, rest) => some (digits, rest)

/-- A number without its sign. -/
def unsignedNumber (negative : Bool) (cs : List Char) : Option (Json × List Char) :=
  match wholePart cs with
  | none => none
  | some (whole, rest) =>
    match fractionPart rest with
    | none => none
    | some (fraction, rest) =>
      match exponentPart rest with
      | none => none
      | some (exponent, rest) =>
        match fraction, exponent with
        | none, none =>
          let n : Int := Decimal.ofDigits whole
          some (.int (if negative then -n else n), rest)
        | _, _ =>
          let digits := fraction.getD []
          let coefficient := Decimal.ofDigits (whole ++ digits)
          let scale := exponent.getD 0 - digits.length
          some (.float (Binary64.ofDecimal negative coefficient scale), rest)

def number (cs : List Char) : Option (Json × List Char) :=
  match cs with
  | '-' :: rest => unsignedNumber true rest
  | _ => unsignedNumber false cs

/-- The value of a word at the front, and the rest. -/
def word? (cs : List Char) : Option (Json × List Char) :=
  match cs with
  | 'n' :: 'u' :: 'l' :: 'l' :: rest => some (.null, rest)
  | 't' :: 'r' :: 'u' :: 'e' :: rest => some (.bool true, rest)
  | 'f' :: 'a' :: 'l' :: 's' :: 'e' :: rest => some (.bool false, rest)
  | 'N' :: 'a' :: 'N' :: rest => some (.float Binary64.nan, rest)
  | 'I' :: 'n' :: 'f' :: 'i' :: 'n' :: 'i' :: 't' :: 'y' :: rest =>
    some (.float (Binary64.infinity false), rest)
  | '-' :: 'I' :: 'n' :: 'f' :: 'i' :: 'n' :: 'i' :: 't' :: 'y' :: rest =>
    some (.float (Binary64.infinity true), rest)
  | _ => none

mutual

/-- A value, blanks in front of it allowed. -/
def value : Nat → List Char → Option (Json × List Char)
  | 0, _ => none
  | fuel + 1, cs =>
    match skipBlanks cs with
    | [] => none
    | c :: rest =>
      if c = '"' then
        match stringBody rest with
        | none => none
        | some (body, rest) => some (.str (String.ofList body), rest)
      else if c = '[' then
        match skipBlanks rest with
        | ']' :: rest => some (.arr [], rest)
        | rest =>
          match elements fuel rest with
          | none => none
          | some (items, rest) => some (.arr items, rest)
      else if c = '{' then
        match skipBlanks rest with
        | '}' :: rest => some (.obj [], rest)
        | rest =>
          match members fuel rest with
          | none => none
          | some (ms, rest) => some (.obj ms, rest)
      else
        match word? (c :: rest) with
        | some found => some found
        | none => number (c :: rest)

/-- One or more values with commas between them, up to the closing bracket. -/
def elements : Nat → List Char → Option (List Json × List Char)
  | 0, _ => none
  | fuel + 1, cs =>
    match value fuel cs with
    | none => none
    | some (item, rest) =>
      match skipBlanks rest with
      | ']' :: rest => some ([item], rest)
      | ',' :: rest =>
        match elements fuel rest with
        | none => none
        | some (items, rest) => some (item :: items, rest)
      | _ => none

/-- One or more members with commas between them, up to the closing brace. -/
def members : Nat → List Char → Option (List (String × Json) × List Char)
  | 0, _ => none
  | fuel + 1, cs =>
    match skipBlanks cs with
    | '"' :: rest =>
      match stringBody rest with
      | none => none
      | some (key, rest) =>
        match skipBlanks rest with
        | ':' :: rest =>
          match value fuel rest with
          | none => none
          | some (item, rest) =>
            match skipBlanks rest with
            | '}' :: rest => some ([(String.ofList key, item)], rest)
            | ',' :: rest =>
              match members fuel rest with
              | none => none
              | some (ms, rest) => some ((String.ofList key, item) :: ms, rest)
            | _ => none
        | _ => none
    | _ => none

end

/-- The value of a text that is JSON from end to end, with all members that it has. -/
def read? (text : String) : Option Json :=
  let cs := text.toList
  match value (2 * cs.length + 1) cs with
  | some (v, rest) => if skipBlanks rest = [] then some v else none
  | none => none

/-- The same with each key once in every object: the last value of a key counts. -/
def parse? (text : String) : Option Json := (read? text).map collect

end DeliveryLedger.Json
