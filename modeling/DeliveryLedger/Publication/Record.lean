import DeliveryLedger.Payload
import DeliveryLedger.Time.Order
/-!
Publication records: the delivery state of one occurrence for one handler.

A record is pending until it is completed, and the first completion counts.
-/

namespace DeliveryLedger

structure PublicationRecord where
  id : RecordId
  handlerId : String
  payload : Payload
  publishedAt : Instant
  completedAt : Option Instant
deriving DecidableEq, Repr, Inhabited

namespace PublicationRecord

def isCompleted (r : PublicationRecord) : Bool := r.completedAt.isSome

def isPending (r : PublicationRecord) : Bool := !r.isCompleted

/-- The record completed at an instant, unless it was completed before. -/
def markCompleted (r : PublicationRecord) (instant : Instant) : PublicationRecord :=
  match r.completedAt with
  | some _ => r
  | none => { r with completedAt := some instant }

def statusText (r : PublicationRecord) : String :=
  if r.isCompleted then "completed" else "pending"

theorem markCompleted_of_completed {r : PublicationRecord} (h : r.isCompleted)
    (instant : Instant) : r.markCompleted instant = r := by
  unfold markCompleted
  split
  · rfl
  · simp_all [isCompleted]

theorem isCompleted_markCompleted (r : PublicationRecord) (instant : Instant) :
    (r.markCompleted instant).isCompleted := by
  unfold markCompleted
  split <;> simp_all [isCompleted]

theorem id_markCompleted (r : PublicationRecord) (instant : Instant) :
    (r.markCompleted instant).id = r.id := by
  unfold markCompleted
  split <;> rfl

/-- Two records have the same handler and content, whatever their completion. -/
def sameContent (stored given : PublicationRecord) : Bool :=
  stored.handlerId == given.handlerId && stored.payload == given.payload &&
    stored.publishedAt.sameMoment given.publishedAt

/-- The record as the members of an object. -/
def toJson (r : PublicationRecord) : Json :=
  .obj [("id", .str r.id.text), ("handler_id", .str r.handlerId),
    ("occurrence_type", .str r.payload.occurrenceType), ("payload", .str r.payload.text),
    ("published_at", .str r.publishedAt.text),
    ("completed_at", match r.completedAt with
      | some t => .str t.text
      | none => .null),
    ("status", .str r.statusText)]

/-- The text of a member, or its name as the place of a mistake. -/
def textMember (data : Json) (name : String) : Except (List String) String :=
  match data.get? name with
  | some (.str s) => .ok s
  | _ => .error [name]

/-- The record that a row of members describes.  Type and payload are looked at first; only
if they are right, mistakes in identifier and handler are reported. -/
def ofData (data : Json) (publishedAt : Instant) (completedAt : Option Instant) :
    Except Fault PublicationRecord :=
  let failures {α : Type} : Except (List String) α → List String
    | .ok _ => []
    | .error places => places
  let id : Except (List String) RecordId :=
    match data.get? "id" with
    | some (.str s) =>
      match RecordId.parse? s with
      | some id => .ok id
      | none => .error ["id"]
    | _ => .error ["id"]
  match textMember data "occurrence_type", textMember data "payload" with
  | .ok occurrenceType, .ok text =>
    match id, textMember data "handler_id" with
    | .ok id, .ok handlerId =>
      .ok { id, handlerId, payload := ⟨occurrenceType, text⟩, publishedAt, completedAt }
    | id, handlerId => .error (.malformed (failures handlerId ++ failures id))
  | a, b => .error (.malformed (failures a ++ failures b))

end PublicationRecord

end DeliveryLedger
