import DeliveryLedger.Publication.Record
/-!
What the operations of a record store report besides their values.
-/

namespace DeliveryLedger

/-- How a batch came to be stored. -/
inductive Insertion where
  | stored
  /-- The whole batch was stored before, with the same content. -/
  | alreadyStored
  /-- Another writer stored the same batch at the same time. -/
  | storedConcurrently
deriving DecidableEq, Repr

/-- What became of a completion. -/
inductive Completion where
  | completed
  | alreadyCompleted
  | unknown
deriving DecidableEq, Repr

namespace Completion

/-- Only a completion that completed the record counts. -/
def won : Completion → Bool
  | .completed => true
  | _ => false

end Completion

/-- The fault of a batch that overlaps with stored records without being the same. -/
def overlap (found size : Nat) (ids : List String) : Fault :=
  .duplicateRecords (Decimal.natText found ++ " of " ++ Decimal.natText size ++
    " publication ids already exist with different content") ids

end DeliveryLedger
