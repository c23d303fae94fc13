import DeliveryLedger.Node
/-!
The ledger: recording publications, completing them, and looking for pending ones.

A fan-out is recorded as one batch, with one pending record per handler, before any handler
runs.  Every operation of the store may be struck by an outage before it has any effect.
-/

namespace DeliveryLedger.Ledger

/-! ### Access to the store -/

/-- An outage strikes a call of a method for some handlers. -/
def concerns (method : StoreMethod) (handlers : List String) (o : Outage) : Bool :=
  o.method == method &&
    match o.handlerId with
    | none => true
    | some id => handlers.contains id

/-- A call of a store method that concerns some handlers: it counts for the outages of the
method and fails if one of them strikes. -/
def passOutages (method : StoreMethod) (handlers : List String) : Act Unit := do
  let p ← get
  match p.outages.find? (concerns method handlers) with
  | none => pure ()
  | some o =>
    let count (x : Outage) : Outage :=
      if concerns method handlers x then { x with calls := x.calls + 1 } else x
    set { p with outages := p.outages.map count }
    if o.strikes o.calls then throw o.fault

/-- A connection to the database: the message of its failure, if it fails.  A store in memory
needs none. -/
def connect : Act (Option String) := do
  let p ← get
  match p.store, p.databaseOutage with
  | .table _, some o =>
    set { p with databaseOutage := some { o with calls := o.calls + 1 } }
    pure (if o.strikes o.calls then some o.message else none)
  | _, _ => pure none

/-- A connection whose failure is a fault of its own. -/
def connectOr (fault : String → Fault) : Act Unit := do
  match ← connect with
  | some message => throw (fault message)
  | none => pure ()

/-- The handler of a stored record. -/
def handlerOf (id : RecordId) : Act (List String) := do
  let p ← get
  pure (((p.store.get? id).map (·.handlerId)).toList)

/-- What the `n`-th look-up of an insertion sees if the first `late` ones see nothing, and
those after them fail with a message. -/
def sight (late : Nat) (thenFails : Option String) (n : Nat) : Sight :=
  if n < late then .blind
  else
    match thenFails with
    | some message => .broken message
    | none => .clear

/-- A look-up over a connection that may fail. -/
def sightOver (s : Sight) : Act Sight := do
  match ← connect with
  | some message => pure (.broken message)
  | none => pure s

/-- Whether a batch is refused after the first look-up, so that a second one follows. -/
def isRefused (t : Table) (first : Sight) (batch : List PublicationRecord) : Bool :=
  match t.look batch first, t.append (batch.map Row.ofRecord) with
  | .ok [], .error _ => true
  | _, _ => false

def insertionLog (size : Nat) : Insertion → Act Unit
  | .stored => pure ()
  | .alreadyStored =>
    Act.logged .debug ("Batch of " ++ Decimal.natText size ++ " publications already stored")
  | .storedConcurrently =>
    Act.logged .debug ("Batch of " ++ Decimal.natText size ++ " publications stored concurrently")

/-- A batch inserted into the store. -/
def insertSeeing (late : Nat) (thenFails : Option String) (batch : List PublicationRecord) :
    Act Unit := do
  passOutages .insert (batch.map (·.handlerId))
  match (← get).store with
  | .memory m =>
    let (how, m) ← Act.lift (m.insert batch)
    modify fun p => { p with store := .memory m }
    insertionLog batch.length how
  | .table t =>
    if batch = [] then pure ()
    else
      let first ← sightOver (sight late thenFails 0)
      let again ←
        if isRefused t first batch then sightOver (sight late thenFails 1)
        else pure .clear
      let (how, t) ← Act.lift (t.insertSeeing first again batch)
      modify fun p => { p with store := .table t }
      insertionLog batch.length how

def insert (batch : List PublicationRecord) : Act Unit := insertSeeing 0 none batch

/-- The record of an identifier. -/
def get? (id : RecordId) : Act (Option PublicationRecord) := do
  passOutages .get (← handlerOf id)
  connectOr Table.couldNotRead
  pure ((← get).store.get? id)

def findIncomplete : Act (List PublicationRecord) := do
  passOutages .findIncomplete []
  connectOr Table.couldNotRead
  match (← get).store with
  | .memory m => Act.lift m.findIncomplete
  | .table t => pure t.findIncomplete

def findIncompleteOlderThan (age : Duration) : Act (List PublicationRecord) := do
  passOutages .findIncompleteOlderThan []
  let cutoff ← Act.lift ((← get).clock.cutoff age)
  connectOr Table.couldNotRead
  match (← get).store with
  | .memory m => Act.lift (m.findIncompleteUpTo cutoff)
  | .table t => pure (t.findIncompleteUpTo cutoff)

def findIncompleteByFingerprint (fingerprint handlerId : String) :
    Act (List PublicationRecord) := do
  passOutages .findIncompleteByFingerprint [handlerId]
  connectOr Table.couldNotRead
  match (← get).store with
  | .memory m => Act.lift (m.findIncompleteByFingerprint fingerprint handlerId)
  | .table t => pure (t.findIncompleteByFingerprint fingerprint handlerId)

def completionLog (id : RecordId) : Completion → Act Unit
  | .completed => Act.logged .debug ("Completed publication " ++ id.text)
  | .alreadyCompleted => Act.logged .debug ("Publication " ++ id.text ++ " already completed")
  | .unknown =>
    Act.logged .warning ("Completion for unknown publication " ++ id.text ++ " ignored")

/-- The record of an identifier completed at the present: true if this call did it. -/
def complete (id : RecordId) : Act Bool := do
  passOutages .complete (← handlerOf id)
  let now := (← get).clock.now
  connectOr fun message =>
    .storeUnavailable ("Could not complete publication " ++ id.text ++ ": " ++ message)
  let p ← get
  let how ← match p.store with
    | .memory m =>
      let (how, m) := m.complete id now
      set { p with store := .memory m }
      pure how
    | .table t =>
      let (how, t) := t.complete id now
      set { p with store := .table t }
      pure how
  completionLog id how
  pure how.won

/-- Completed records deleted if they were completed at least `age` ago. -/
def deleteCompletedOlderThan (age : Duration) : Act Nat := do
  passOutages .deleteCompletedOlderThan []
  let cutoff ← Act.lift ((← get).clock.cutoff age)
  connectOr fun message => .storeUnavailable ("Could not delete publications: " ++ message)
  let p ← get
  match p.store with
  | .memory m =>
    let (count, m) ← Act.lift (m.deleteCompletedUpTo cutoff)
    set { p with store := .memory m }
    pure count
  | .table t =>
    let (count, t) := t.deleteCompletedUpTo cutoff
    set { p with store := .table t }
    pure count

/-! ### Operations of the ledger -/

/-- The texts that occur more than once, in the order of their first occurrence. -/
def duplicates (ids : List String) : List String := (distinct ids).filter fun id => 1 < ids.count id

/-- The fault of a fan-out in which handlers are repeated. -/
def repeatedHandlers (handlerIds : List String) : Fault :=
  .invalidInput
    ("Handler ids must be unique per publication: " ++ Text.quotedList (duplicates handlerIds))
    (some "handler_ids")

/-- The pending records of a fan-out, with identifiers drawn one after the other from a source
that has been drawn from before. -/
def newRecordsFrom (source : Nat → RecordId) (drawn : Nat) (payload : Payload)
    (publishedAt : Instant) : List String → List PublicationRecord
  | [] => []
  | handlerId :: rest =>
    { id := source (drawn + 1), handlerId, payload, publishedAt, completedAt := none }
      :: newRecordsFrom source (drawn + 1) payload publishedAt rest

/-- The pending records of a fan-out under the identifiers that a node draws. -/
def newRecords : Nat → Payload → Instant → List String → List PublicationRecord :=
  newRecordsFrom RecordId.drawn

/-- The records of one fan-out of an occurrence, stored as one batch under identifiers of a
source.  `meanwhile` is what other tasks do after the records were made and before they are
stored. -/
def recordFrom (source : Nat → RecordId) (meanwhile : Act Unit) (o : Occurrence)
    (handlerIds : List String) : Act (List PublicationRecord) := do
  if duplicates handlerIds ≠ [] then throw (repeatedHandlers handlerIds)
  else if handlerIds = [] then pure []
  else
    let p ← get
    let payload := Payload.ofOccurrence p.space.catalogue o
    let records := newRecordsFrom source p.drawn payload p.clock.now handlerIds
    set { p with drawn := p.drawn + handlerIds.length }
    meanwhile
    insert records
    Act.logged .debug ("Recorded " ++ payload.occurrenceType ++ " for " ++
      Decimal.natText records.length ++ " handlers")
    pure records

/-- The records of one fan-out of an occurrence, while other tasks may go on. -/
def recordAnd (meanwhile : Act Unit) (o : Occurrence) (handlerIds : List String) :
    Act (List PublicationRecord) :=
  recordFrom RecordId.drawn meanwhile o handlerIds

/-- The records of one fan-out of an occurrence, one per handler, stored as one batch. -/
def record (o : Occurrence) (handlerIds : List String) : Act (List PublicationRecord) :=
  recordAnd (pure ()) o handlerIds

/-- The only pending record of an occurrence for a handler, completed.  Several such records
cannot be told apart, and none of them is completed. -/
def completeMatching (o : Occurrence) (handlerId : String) : Act Bool := do
  let payload := Payload.ofOccurrence (← get).space.catalogue o
  match ← findIncompleteByFingerprint payload.fingerprint handlerId with
  | [] =>
    Act.logged .warning ("No pending publication of " ++ payload.occurrenceType ++
      " for handler '" ++ handlerId ++ "'")
    pure false
  | [r] => complete r.id
  | found => throw (.ambiguous handlerId payload.fingerprint found.length)

/-- The record of an identifier, which has to be known. -/
def require (id : RecordId) : Act PublicationRecord := do
  match ← get? id with
  | some r => pure r
  | none => throw (.unknownRecord (.str id.text))

/-- Old completed records deleted; the number of them is logged if there are any. -/
def prune (age : Duration) : Act Nat := do
  let count ← deleteCompletedOlderThan age
  if count = 0 then pure ()
  else
    Act.logged .info ("Pruned " ++ Decimal.natText count ++
      " completed publications older than " ++ age.text)
  pure count

end DeliveryLedger.Ledger
