import DeliveryLedger.Ledger
/-!
Dispatching: an occurrence is recorded for its handlers, and then each of them is invoked.

A handler that returns has its own record completed; one that fails leaves it pending.
Background handlers become tasks that run when the node next waits, inline ones run
before the dispatch ends; no failure of a handler reaches its siblings or the publisher.
-/

namespace DeliveryLedger.Dispatch

/-- The invocation of a handler begins: it enters the journal, unless the handler has no
body. -/
def announce (h : HandlerDescriptor) (o : Occurrence) : Act String := do
  match h.body with
  | none => throw (.unimplemented h.name)
  | some body =>
    modify fun p =>
      { p with journal := p.journal ++
          [⟨h.id, o.type, (Payload.ofOccurrence p.space.catalogue o).text⟩] }
    pure body

/-- The handler reacts, as its script says for this time. -/
def react (body : String) : Act Unit := do
  let p ← get
  let times := (member? body p.reacted).getD 0
  let reaction := (p.script body).reaction times
  match reaction.advance with
  | none => pure ()
  | some seconds =>
    let clock ← Act.lift (p.clock.advanceSeconds seconds)
    modify fun p => { p with clock := clock }
  modify fun p => { p with reacted := insertMember body (times + 1) p.reacted }
  match reaction.fault with
  | none => pure ()
  | some fault => throw fault

/-- A handler invoked and awaited. -/
def invoke (h : HandlerDescriptor) (o : Occurrence) : Act Unit := do
  react (← announce h o)

/-- The record of a handler that returned is completed. -/
def confirm (t : Task) : Act Unit := do
  match ← Act.attempt (Ledger.complete t.record) with
  | .ok _ => pure ()
  | .error fault =>
    Act.logged .error ("Could not complete publication " ++ t.record.text ++ ": " ++
      fault.message)

/-- What follows an invocation: completion, or a line in the log. -/
def settleInvocation (t : Task) : Except Fault Unit → Act Unit
  | .ok () => confirm t
  | .error fault =>
    Act.logged .error ("Handler '" ++ t.handler.id ++ "' failed for publication " ++
      t.record.text ++ ": " ++ fault.message)

/-- An inline invocation from beginning to end. -/
def runInline (t : Task) : Act Unit := do
  settleInvocation t (← Act.attempt (invoke t.handler t.occurrence))

/-- A task that waited goes on. -/
def resume (t : Task) (body : String) : Act Unit := do
  settleInvocation t (← Act.attempt (react body))

/-- A background task starts: it runs to its end, or to its gate. -/
def startTask (t : Task) : Act Unit := do
  match ← Act.attempt (announce t.handler t.occurrence) with
  | .error fault => settleInvocation t (.error fault)
  | .ok body =>
    let p ← get
    if (p.script body).pauses && !p.opened.contains body then
      set { p with paused := p.paused ++ [t] }
    else resume t body

/-- A row of acts, one after the other. -/
def each {α : Type} (act : α → Act Unit) : List α → Act Unit
  | [] => pure ()
  | a :: as => do
    act a
    each act as

/-- The node waits: the background tasks that are queued start, in order. -/
def runQueued : Act Unit := do
  let p ← get
  set { p with queued := [] }
  each startTask p.queued

/-- While a database stores a batch, queued tasks get their turn; a store in memory makes
nobody wait, and an operation that fails at once neither. -/
def whileStoring (handlers : List String) : Act Unit := do
  let p ← get
  let fails :=
    match p.outages.find? (Ledger.concerns .insert handlers) with
    | some o => o.strikes o.calls
    | none => false
  if p.store.isTable && !fails then runQueued else pure ()

/-- The gate of a handler opens: its waiting tasks go on, and later ones will not wait. -/
def release (handler : String) : Act Unit := do
  let p ← get
  let (freed, waiting) := p.paused.partition (·.handler.body = some handler)
  set { p with opened := handler :: p.opened, paused := waiting }
  each (fun t => resume t handler) freed

/-- The node waits, round by round, until no background task is left.  After a round in which some
still wait at their gates, the next of `gates` opens; the wait does not come to its end if they
are used up. -/
def drain : List String → Act Bool
  | [] => do
    runQueued
    pure (← get).background.isEmpty
  | gate :: gates => do
    runQueued
    if (← get).background.isEmpty then pure true
    else
      release gate
      drain gates

/-- One task per record and handler. -/
def tasks (o : Occurrence) (handlers : List HandlerDescriptor)
    (records : List PublicationRecord) : List Task :=
  List.zipWith (fun h r => ⟨h, r.id, o⟩) handlers records

/-- A collector sees an occurrence. -/
def captured (capture : Option String) (o : Occurrence) : Act Unit :=
  match capture with
  | none => pure ()
  | some name => modify fun p =>
      { p with captures := insertMember name ((member? name p.captures).getD [] ++ [o]) p.captures }

/-- An occurrence recorded for its handlers, and the tasks that follow from it: background
ones queued, inline ones run, once everything queued before them has started. -/
def dispatch (o : Occurrence) (capture : Option String) : Act (List PublicationRecord) := do
  captured capture o
  let p ← get
  let handlers := p.registry.handlersFor p.space.catalogue o.type
  if handlers = [] then
    Act.logged .debug ("No handlers for " ++ p.space.catalogue.typeName o.type)
    pure []
  else
    let ids := handlers.map (·.id)
    let records ← Ledger.recordAnd (whileStoring ids) o ids
    let all := tasks o handlers records
    let inline := all.filter (!·.handler.asynchronous)
    modify fun p => { p with queued := p.queued ++ all.filter (·.handler.asynchronous) }
    if inline = [] then pure ()
    else
      runQueued
      each runInline inline
    pure records

end DeliveryLedger.Dispatch
