import DeliveryLedger.Store.Basic
/-!
The record store in a database: a table of rows in the order of their insertion.

A row keeps the wall clock of each instant and drops its offset; read back, every instant is
universal time.  An insertion first looks up the identifiers of the batch.  If none is
stored, it inserts row by row, and one refused row undoes the whole batch; then the
identifiers are looked up again, because another writer may have been faster.
-/

namespace DeliveryLedger

structure Row where
  id : RecordId
  handlerId : String
  payload : Payload
  fingerprint : String
  published : Int
  completed : Option Int
deriving DecidableEq, Repr, Inhabited

namespace Row

def ofRecord (r : PublicationRecord) : Row :=
  { id := r.id, handlerId := r.handlerId, payload := r.payload,
    fingerprint := r.payload.fingerprint, published := r.publishedAt.wall,
    completed := r.completedAt.map (·.wall) }

def toRecord (r : Row) : PublicationRecord :=
  { id := r.id, handlerId := r.handlerId, payload := r.payload,
    publishedAt := ⟨r.published, some 0⟩,
    completedAt := r.completed.map fun wall => ⟨wall, some 0⟩ }

def isPending (r : Row) : Bool := r.completed.isNone

end Row

structure Table where
  rows : List Row
  /-- The handlers whose rows the database refuses, each with its message. -/
  refused : List (String × String)
deriving DecidableEq, Repr, Inhabited

/-- What a look-up of stored identifiers sees. -/
inductive Sight where
  /-- The rows as they are. -/
  | clear
  /-- No rows, as if others had yet to write them. -/
  | blind
  /-- The look-up fails. -/
  | broken (message : String)
deriving DecidableEq, Repr

namespace Table

def empty : Table := ⟨[], []⟩

/-- The records that the rows stand for. -/
def records (t : Table) : List PublicationRecord := t.rows.map Row.toRecord

def get? (t : Table) (id : RecordId) : Option PublicationRecord :=
  (t.rows.find? (·.id = id)).map Row.toRecord

/-- The stored records with an identifier of the batch. -/
def stored (t : Table) (batch : List PublicationRecord) : List PublicationRecord :=
  (t.rows.filter fun row => batch.any (·.id = row.id)).map Row.toRecord

/-- A batch is accepted again if each of its records is among the stored ones, with the same
content. -/
def checkRetry (existing batch : List PublicationRecord) : Except Fault Unit :=
  let matching (r : PublicationRecord) : Bool :=
    match existing.find? (·.id = r.id) with
    | some s => s.sameContent { r with publishedAt := r.publishedAt.assumeUtc }
    | none => false
  if batch.all matching then .ok ()
  else
    .error (overlap existing.length batch.length (sortTexts (existing.map (·.id.text))))

/-- A row is refused because of its handler, or because its identifier is taken. -/
def refusal? (t : Table) (row : Row) : Option String :=
  match member? row.handlerId t.refused with
  | some message => some message
  | none =>
    if t.rows.any (·.id = row.id) then
      some "UNIQUE constraint failed: event_publications.id"
    else none

/-- The table with a row of further rows, or the message of the first refusal. -/
def append (t : Table) : List Row → Except String Table
  | [] => .ok t
  | row :: rows =>
    match t.refusal? row with
    | some message => .error message
    | none => append { t with rows := t.rows ++ [row] } rows

/-- A look-up through a sight. -/
def look (t : Table) (batch : List PublicationRecord) : Sight → Except String (List PublicationRecord)
  | .clear => .ok (t.stored batch)
  | .blind => .ok []
  | .broken message => .error message

def couldNotInsert (message : String) : Fault :=
  .storeUnavailable ("Could not insert publications: " ++ message)

def couldNotRead (message : String) : Fault :=
  .storeUnavailable ("Could not read publications: " ++ message)

/-- What follows a refused batch: it is accepted if by now it is stored with the same
content. -/
def afterRefusal (t : Table) (batch : List PublicationRecord) (again : Sight)
    (message : String) : Except Fault (Insertion × Table) :=
  match t.look batch again with
  | .error text => .error (couldNotRead text)
  | .ok [] =>
    .error (.duplicateRecords ("Publication batch collides with stored records: " ++ message)
      (batch.map (·.id.text)))
  | .ok existing =>
    match checkRetry existing batch with
    | .ok () => .ok (.storedConcurrently, t)
    | .error fault => .error fault

/-- A batch inserted, where `first` and `again` are what the two look-ups see. -/
def insertSeeing (t : Table) (first again : Sight) (batch : List PublicationRecord) :
    Except Fault (Insertion × Table) :=
  if batch = [] then .ok (.stored, t)
  else
    match t.look batch first with
    | .error text => .error (couldNotInsert text)
    | .ok [] =>
      match t.append (batch.map Row.ofRecord) with
      | .ok t => .ok (.stored, t)
      | .error message => t.afterRefusal batch again message
    | .ok existing =>
      match checkRetry existing batch with
      | .ok () => .ok (.alreadyStored, t)
      | .error fault => .error fault

def insert (t : Table) (batch : List PublicationRecord) : Except Fault (Insertion × Table) :=
  t.insertSeeing .clear .clear batch

/-- The row of an identifier completed, unless it was completed before. -/
def complete (t : Table) (id : RecordId) (now : Instant) : Completion × Table :=
  match t.rows.find? (·.id = id) with
  | none => (.unknown, t)
  | some row =>
    if row.isPending then
      (.completed,
        { t with rows := t.rows.map fun row =>
            if row.id = id then { row with completed := some now.wall } else row })
    else (.alreadyCompleted, t)

/-- The records of the rows that pass a test, in the order of their publication. -/
def select (t : Table) (test : Row → Bool) : List PublicationRecord :=
  (sortBy (fun a b => decide (a.published ≤ b.published)) (t.rows.filter test)).map Row.toRecord

def findIncomplete (t : Table) : List PublicationRecord := t.select (·.isPending)

def findIncompleteUpTo (t : Table) (cutoff : Instant) : List PublicationRecord :=
  t.select fun row => row.isPending && row.published ≤ cutoff.wall

def findIncompleteByFingerprint (t : Table) (fingerprint handlerId : String) :
    List PublicationRecord :=
  t.select fun row =>
    row.isPending && row.fingerprint == fingerprint && row.handlerId == handlerId

/-- The row was completed, and not after the cutoff. -/
def isOutdated (cutoff : Instant) (row : Row) : Bool :=
  match row.completed with
  | none => false
  | some wall => wall ≤ cutoff.wall

/-- The number of rows that were completed up to the cutoff, and the others. -/
def deleteCompletedUpTo (t : Table) (cutoff : Instant) : Nat × Table :=
  ((t.rows.filter (isOutdated cutoff)).length,
    { t with rows := t.rows.filter fun row => !isOutdated cutoff row })

end Table

end DeliveryLedger
