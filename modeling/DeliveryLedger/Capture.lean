import DeliveryLedger.Occurrence.Basic
/-!
Views of the occurrences that a collector has seen.
-/

namespace DeliveryLedger.Capture

/-- The occurrences of a class and its descendants. -/
def ofType (cat : Catalogue) (type : ClassId) (seen : List Occurrence) : List Occurrence :=
  seen.filter fun o => cat.derives o.type type

/-- The occurrences with a value in a field. -/
def withField (field : String) (value : Value) (seen : List Occurrence) : List Occurrence :=
  seen.filter fun o =>
    match member? field o.fields with
    | some v => v.equal value
    | none => false

/-- The first occurrence of a view, which must not be empty. -/
def first (seen : List Occurrence) : Except Fault Occurrence :=
  match seen with
  | o :: _ => .ok o
  | [] => .error .nothingCaptured

end DeliveryLedger.Capture
