import DeliveryLedger.Module.Space
import DeliveryLedger.Text.Blank
import DeliveryLedger.Text.Word
/-!
References to objects: a module, and a path of attributes inside it.

A reference is written `module : path [extras]`.  The path may be missing, the extras do not
count, and blanks may stand around each part but not inside it.
-/

namespace DeliveryLedger

structure Reference where
  moduleName : String
  path : List String
deriving DecidableEq, Repr

namespace Reference

/-- A character of a dotted name. -/
def isNamePart (c : Char) : Bool := Text.isWord c || c == '.'

/-- A dotted name, which must not be empty, and what follows it and the blanks behind it. -/
def name? (cs : List Char) : Option (List Char × List Char) :=
  match cs.takeWhile isNamePart with
  | [] => none
  | name => some (name, Text.trimStart (cs.dropWhile isNamePart))

/-- Nothing, or extras in brackets with nothing but blanks behind them. -/
def endsWell (cs : List Char) : Bool :=
  match cs with
  | [] => true
  | '[' :: rest =>
    match Text.trimEnd rest with
    | [] => false
    | inner => inner.getLast? == some ']' && !inner.contains '\n'
  | _ => false

/-- The parts of a path; empty ones do not count. -/
def pathParts (cs : List Char) : List String :=
  ((Text.splitAt '.' cs).filter (· ≠ [])).map String.ofList

/-- The reference that a text spells, if it spells one. -/
def parse? (text : String) : Option Reference :=
  match name? text.toList with
  | none => none
  | some (moduleName, ':' :: rest) =>
    match name? (Text.trimStart rest) with
    | none => none
    | some (path, rest) =>
      if endsWell rest then some ⟨String.ofList moduleName, pathParts path⟩ else none
  | some (moduleName, rest) =>
    if endsWell rest then some ⟨String.ofList moduleName, []⟩ else none

end Reference

end DeliveryLedger
