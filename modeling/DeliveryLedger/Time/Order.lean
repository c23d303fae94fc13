import DeliveryLedger.Time.Instant
import DeliveryLedger.Fault
import DeliveryLedger.Ordered
/-!
Comparing instants where naive and aware ones may meet: a comparison across the kinds is a
fault, and so is a sorting that has to make one.
-/

namespace DeliveryLedger.Instant

/-- Whether `a` is not after `b`. -/
def notAfter (a b : Instant) : Except Fault Bool :=
  if comparable a b then .ok (decide (a.key ≤ b.key)) else .error .unorderedInstants

/-- The time from `earlier` to `later`. -/
def elapsed (later earlier : Instant) : Except Fault Duration :=
  if comparable later earlier then .ok ⟨later.key - earlier.key⟩ else .error .unrelatedInstants

/-- The instants are all of one kind. -/
def allComparable : List Instant → Bool
  | [] => true
  | t :: ts => ts.all (comparable t)

/-- Items in the order of their instants; items of one instant keep their order. -/
def sortOldestFirst {α : Type} (instant : α → Instant) (items : List α) :
    Except Fault (List α) :=
  if allComparable (items.map instant) then
    .ok (sortBy (fun a b => decide ((instant a).key ≤ (instant b).key)) items)
  else .error .unorderedInstants

/-- An instant in relation to the present: minutes, hours or days ago, and the date after a
week. -/
def relativeText (t now : Instant) : Except Fault String := do
  let passed ← elapsed now t
  let seconds := passed.micros.fdiv Duration.microsPerSecond
  let count (n : Int) (unit : String) : String :=
    Decimal.intText n ++ " " ++ unit ++ (if n = 1 then "" else "s") ++ " ago"
  if seconds < 60 then pure "just now"
  else if seconds < 3600 then pure (count (seconds / 60) "minute")
  else if seconds < 86400 then pure (count (seconds / 3600) "hour")
  else if seconds < 604800 then pure (count (seconds / 86400) "day")
  else pure t.minuteText

end DeliveryLedger.Instant
