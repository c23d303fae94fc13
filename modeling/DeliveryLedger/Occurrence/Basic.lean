import DeliveryLedger.Occurrence.Catalogue
/-!
Occurrences: a class and a value for each of its fields.

`Occurrence.check` reads the fields from data: a missing field takes its default, a field
that the class does not have is dropped, and of a repeated one the last value counts.  The class
may then refuse the values, or raise a fault.
-/

namespace DeliveryLedger

structure Occurrence where
  type : ClassId
  fields : List (String × Value)
deriving Repr, BEq

namespace Occurrence

/-- The value of a field in the members of some data. -/
def checkField (how : Conversions) (members : List (String × Json)) (f : Field) :
    Checked Value :=
  match member? f.name members.reverse with
  | some j => f.type.check how j
  | none =>
    match f.default with
    | some v => .ok v
    | none => .error [[]]

/-- The values that were read, unless there are mistakes in the data or the class's checks find
some or raise a fault. -/
def judge {α : Type} : Except Rejection Unit → Checked α → Except Rejection α
  | .error (.raised fault), _ => .error (.raised fault)
  | .ok _, .ok values => .ok values
  | .ok _, .error paths => .error (.mistakes paths)
  | .error (.mistakes more), .ok _ => .error (.mistakes more)
  | .error (.mistakes more), .error paths => .error (.mistakes (paths ++ more))

/-- The fault of a value that is called although no value can be. -/
def notCallable (v : Value) : Fault :=
  .foreign .type ("'" ++ v.kindName ++ "' object is not callable")

/-- The new object with its values, on which the hook is called in the end. -/
def finish (cat : Catalogue) (type : ClassId) (fields : List (String × Value)) :
    Except Rejection Occurrence :=
  match cat.hidesHook type, member? hookName fields with
  | true, some v => .error (.raised (notCallable v))
  | _, _ => .ok ⟨type, fields⟩

/-- The occurrence of a class that data describes, or why there is none. -/
def check (cat : Catalogue) (type : ClassId) (data : Json) : Except Rejection Occurrence :=
  match data with
  | .obj members =>
    let rules := cat.rules type
    let values := (cat.fields type).map fun f =>
      (f.name, checkField rules.conversions members f)
    (judge (rules.verdict (Checked.results values)) (Checked.gather values)).bind (finish cat type)
  | _ => .error (.mistakes [[]])

/-- The occurrence of a class that data describes. -/
def ofData (cat : Catalogue) (type : ClassId) (data : Json) : Except Fault Occurrence :=
  (check cat type data).mapError (·.fault)

/-- The fields as JSON. -/
def toJson (o : Occurrence) : Json := .obj (o.fields.map fun f => (f.1, f.2.toJson))

/-- Occurrences of one class are equal if their fields are. -/
def equal (a b : Occurrence) : Bool :=
  a.type == b.type && Value.equal (.record a.fields) (.record b.fields)

end Occurrence

end DeliveryLedger
