import DeliveryLedger.Store.Basic
/-!
The record store in memory: a row of records in the order of their insertion.

A batch is stored as a whole or not at all.  A batch that is stored already, with the same
content, is accepted again and changes nothing.
-/

namespace DeliveryLedger

structure Memory where
  records : List PublicationRecord
deriving DecidableEq, Repr, Inhabited

namespace Memory

def empty : Memory := ⟨[]⟩

def get? (m : Memory) (id : RecordId) : Option PublicationRecord :=
  m.records.find? (·.id = id)

/-- The stored record of the same identifier has the same content. -/
def holds (m : Memory) (r : PublicationRecord) : Bool :=
  match m.get? r.id with
  | some stored => stored.sameContent r
  | none => false

/-- The identifiers that a batch repeats. -/
def repeated (batch : List PublicationRecord) : List RecordId :=
  let ids := batch.map (·.id)
  distinct (ids.filter fun id => 1 < ids.count id)

def insert (m : Memory) (batch : List PublicationRecord) : Except Fault (Insertion × Memory) :=
  let existing := batch.filter fun r => (m.get? r.id).isSome
  if existing ≠ [] then
    if existing.length = batch.length ∧ batch.all m.holds then .ok (.alreadyStored, m)
    else
      .error (overlap existing.length batch.length (sortTexts (existing.map (·.id.text))))
  else if (batch.map (·.id)).Nodup then .ok (.stored, ⟨m.records ++ batch⟩)
  else
    .error (.duplicateRecords "Publication batch contains the same id twice"
      (sortTexts ((repeated batch).map (·.text))))

/-- The record of an identifier completed, unless it was completed before. -/
def complete (m : Memory) (id : RecordId) (now : Instant) : Completion × Memory :=
  match m.get? id with
  | none => (.unknown, m)
  | some r =>
    if r.isCompleted then (.alreadyCompleted, m)
    else
      (.completed,
        ⟨m.records.map fun r => if r.id = id then r.markCompleted now else r⟩)

/-- Records in the order of their publication. -/
def oldestFirst (records : List PublicationRecord) : Except Fault (List PublicationRecord) :=
  Instant.sortOldestFirst (·.publishedAt) records

/-- The members that pass a test which may fail. -/
def keepIf {α : Type} (test : α → Except Fault Bool) : List α → Except Fault (List α)
  | [] => .ok []
  | a :: as => do
    let keep ← test a
    let rest ← keepIf test as
    pure (if keep then a :: rest else rest)

def pending (m : Memory) : List PublicationRecord := m.records.filter (·.isPending)

def findIncomplete (m : Memory) : Except Fault (List PublicationRecord) :=
  oldestFirst m.pending

def findIncompleteUpTo (m : Memory) (cutoff : Instant) :
    Except Fault (List PublicationRecord) := do
  oldestFirst (← keepIf (fun r => r.publishedAt.notAfter cutoff) m.pending)

def findIncompleteByFingerprint (m : Memory) (fingerprint handlerId : String) :
    Except Fault (List PublicationRecord) :=
  oldestFirst (m.pending.filter fun r =>
    r.handlerId == handlerId && r.payload.fingerprint == fingerprint)

/-- The record was completed, and not after the cutoff. -/
def isOutdated (cutoff : Instant) (r : PublicationRecord) : Except Fault Bool :=
  match r.completedAt with
  | none => .ok false
  | some t => t.notAfter cutoff

/-- The number of records that were completed up to the cutoff, and the others. -/
def deleteCompletedUpTo (m : Memory) (cutoff : Instant) : Except Fault (Nat × Memory) := do
  let outdated ← keepIf (isOutdated cutoff) m.records
  let kept ← keepIf (fun r => (isOutdated cutoff r).map (!·)) m.records
  pure (outdated.length, ⟨kept⟩)

end Memory

end DeliveryLedger
