import DeliveryLedger.Console
import DeliveryLedger.Proofs.NumberText
import DeliveryLedger.Proofs.Outcome
/-!
What the cells of a table show.

A text without an opening bracket is shown as it stands.  Of the texts in a row about a record
only the two that come from outside, the handler and the type, may have one; the row is shown
exactly if both of them can be.
-/

namespace DeliveryLedger.Console

open DeliveryLedger.Decimal

end DeliveryLedger.Console
