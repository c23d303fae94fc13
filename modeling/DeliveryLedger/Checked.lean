import DeliveryLedger.Decimal.Digits
/-!
Checks that report every mistake, each with the path that leads to it.
-/

namespace DeliveryLedger

/-- The steps from a value to a part of it: keys and positions. -/
abbrev Path := List String

/-- A path with points between its steps. -/
def Path.dotted (path : Path) : String := String.intercalate "." path

/-- The paths to all mistakes, or a result. -/
abbrev Checked (α : Type) := Except (List Path) α

namespace Checked

/-- What is there, or a mistake at this very place. -/
def ofOption {α : Type} : Option α → Checked α
  | some a => .ok a
  | none => .error [[]]

/-- The results, without what is no result. -/
def results {α : Type} (row : List (String × Checked α)) : List (String × α) :=
  row.filterMap fun part => part.2.toOption.map (part.1, ·)

/-- All results, or all mistakes, each behind the step of its part. -/
def gather {α : Type} : List (String × Checked α) → Checked (List (String × α))
  | [] => .ok []
  | (step, .ok a) :: rest =>
    match gather rest with
    | .ok as => .ok ((step, a) :: as)
    | .error paths => .error paths
  | (step, .error paths) :: rest =>
    let here := paths.map (step :: ·)
    match gather rest with
    | .ok _ => .error here
    | .error more => .error (here ++ more)

/-- Items with their positions as steps. -/
def numbered {α : Type} (items : List α) : List (String × α) :=
  (List.range items.length).zipWith (fun i a => (Decimal.natText i, a)) items

/-- Mistakes behind one more step. -/
def within {α : Type} (step : String) : Checked α → Checked α
  | .ok a => .ok a
  | .error paths => .error (paths.map (step :: ·))

/-- Two results, or the mistakes of both. -/
def both {α β : Type} : Checked α → Checked β → Checked (α × β)
  | .ok a, .ok b => .ok (a, b)
  | .ok _, .error paths => .error paths
  | .error paths, .ok _ => .error paths
  | .error paths, .error more => .error (paths ++ more)

/-- All results of a row, or all mistakes, each behind its position. -/
def each {α β : Type} (check : α → Checked β) (items : List α) : Checked (List β) :=
  (gather ((numbered items).map fun p => (p.1, check p.2))).map fun results => results.map (·.2)

end Checked

end DeliveryLedger
