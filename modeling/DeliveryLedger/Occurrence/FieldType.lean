import DeliveryLedger.Checked
import DeliveryLedger.Conversion
import DeliveryLedger.Occurrence.Value
/-!
Types of the fields of an occurrence, and what they make of JSON data.

Numbers, truth values and decimals may be converted from data of another kind.  Each wrong value
is one mistake, with the path that leads to it; of a repeated key every value is checked, and the
last one counts.
-/

namespace DeliveryLedger

inductive FieldType where
  | text
  | integer
  | boolean
  | float
  | any
  | decimal
  | list (item : FieldType)
  | keyed (item : FieldType)
  | optional (inner : FieldType)
deriving DecidableEq, Repr, Inhabited

namespace FieldType

/-- The value that data stands for in a field of this type. -/
def check (how : Conversions) : FieldType → Json → Checked Value
  | .text, j => (Checked.ofOption j.asText?).map .text
  | .integer, j => (Checked.ofOption (how.integer j)).map .int
  | .boolean, j => (Checked.ofOption (how.boolean j)).map .bool
  | .float, j => (Checked.ofOption (how.float j)).map .float
  | .decimal, j => (Checked.ofOption (how.decimal j)).map .decimal
  | .any, j => .ok (Value.ofJson j.collect)
  | .list item, .arr items =>
    (Checked.gather ((Checked.numbered items).map fun p => (p.1, item.check how p.2))).map
      fun values => .list (values.map (·.2))
  | .keyed item, .obj members =>
    (Checked.gather (members.map fun m => (m.1, item.check how m.2))).map
      fun values => .record (collectMembers values)
  | .optional _, .null => .ok .null
  | .optional inner, j => inner.check how j
  | _, _ => .error [[]]

/-- A type and what follows its spelling.  A spelling is a word, `list[T]` or `dict[T]`, each
perhaps with question marks behind it. -/
def read : Nat → List Char → Option (FieldType × List Char)
  | 0, _ => none
  | fuel + 1, cs =>
    let word := cs.takeWhile Char.isAlpha
    let rest := cs.dropWhile Char.isAlpha
    let base : Option (FieldType × List Char) :=
      match String.ofList word, rest with
      | "str", rest => some (.text, rest)
      | "int", rest => some (.integer, rest)
      | "bool", rest => some (.boolean, rest)
      | "float", rest => some (.float, rest)
      | "any", rest => some (.any, rest)
      | "decimal", rest => some (.decimal, rest)
      | "list", '[' :: rest =>
        match read fuel rest with
        | some (item, ']' :: rest) => some (.list item, rest)
        | _ => none
      | "dict", '[' :: rest =>
        match read fuel rest with
        | some (item, ']' :: rest) => some (.keyed item, rest)
        | _ => none
      | _, _ => none
    match base with
    | none => none
    | some (t, rest) =>
      let marks := rest.takeWhile (· == '?')
      some (marks.foldl (fun t _ => .optional t) t, rest.dropWhile (· == '?'))

/-- The type that a spelling stands for. -/
def ofSpelling? (spelling : String) : Option FieldType :=
  let cs := spelling.toList
  match read (cs.length + 1) cs with
  | some (t, []) => some t
  | _ => none

end FieldType

end DeliveryLedger
