import DeliveryLedger.Publication.Record
import DeliveryLedger.Text.Split
/-!
Records as text, one canonical JSON object a line.

Line breaks inside a record are escaped, so that each record takes exactly one line.
-/

namespace DeliveryLedger.Archive

/-- The line of a record, without its end. -/
def line (r : PublicationRecord) : String := r.toJson.canonical

/-- The text of a row of records. -/
def write (records : List PublicationRecord) : String :=
  String.join (records.map fun r => line r ++ "\n")

/-- The instant in a member; a missing one is none at all. -/
def instant? (data : Json) (name : String) : Option (Option Instant) :=
  match data.get? name with
  | some (.str s) => (Instant.parse? s).map some
  | some .null | none => some none
  | _ => none

/-- The record of a line. -/
def record? (text : String) : Option PublicationRecord := do
  let data ← Json.parse? text
  let publishedAt ← (← instant? data "published_at")
  let completedAt ← instant? data "completed_at"
  (PublicationRecord.ofData data publishedAt completedAt).toOption

/-- The records of a text, if every line that is not empty holds one. -/
def read? (text : String) : Option (List PublicationRecord) :=
  let lines := (Text.splitAt '\n' text.toList).filter (· ≠ [])
  lines.mapM fun cs => record? (String.ofList cs)

end DeliveryLedger.Archive
