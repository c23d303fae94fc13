import DeliveryLedger.Resubmission
import DeliveryLedger.Deferral
import DeliveryLedger.Capture
import DeliveryLedger.Discovery
import DeliveryLedger.Settings.Sources
import DeliveryLedger.Sweeper
import DeliveryLedger.Text.Blank
/-!
Rehearsals: a node taken through a list of steps, with scripted handlers and outages.

After each step the background tasks run until they are done or wait for their gates, unless
the rehearsal leaves them waiting for a step that waits for them.
-/

namespace DeliveryLedger

/-- A unit of work by name, whose backend may refuse to commit. -/
structure NamedUnit where
  unit : UnitOfWork Deferred
  refuses : Bool

structure Rehearsal where
  node : Node
  sweeper : Sweeper
  units : List (String × NamedUnit)
  /-- Background tasks run after every step. -/
  settles : Bool

namespace Rehearsal

/-- What a rehearsal begins with. -/
structure Plan where
  space : ModuleSpace
  classes : List HandlerClass
  /-- The handlers to register; if there is no such list, handlers are discovered. -/
  registered : Option (List Registrable)
  entryPoints : List EntryPoint
  sources : SettingsSources
  store : Store
  clock : Instant
  scripts : List (String × Script)
  settles : Bool

/-- The handlers of a plan, and the modules after they were found. -/
def Plan.handlers (p : Plan) (s : LedgerSettings) :
    Except Fault (List Registrable) × ModuleSpace :=
  match p.registered with
  | some handlers => (.ok handlers, p.space)
  | none =>
    let found := Discovery.discover p.classes p.space p.entryPoints s.handlers
    (found.outcome, found.space)

/-- The rehearsal at its beginning. -/
def start (p : Plan) : Except Fault Rehearsal := do
  let settings ← p.sources.load
  let (handlers, space) := p.handlers settings.ledger
  let registry ← HandlerRegistry.build (← handlers)
  let clock ← Clock.start p.clock
  pure
    { node := { Node.start space clock p.store with registry, scripts := p.scripts }
      sweeper := Sweeper.ofSettings settings.ledger, units := [], settles := p.settles }

/-- A selection of records for a sweep; all parts that are given must hold. -/
structure Selection where
  handlerIds : Option (List String)
  occurrenceType : Option String
  ids : Option (List String)
  all : Option Bool
  raises : Option Fault

/-- The predicate of a selection. -/
def Selection.predicate (s : Selection) : Resubmission.Predicate := fun r =>
  match s.raises with
  | some fault => .error fault
  | none =>
    .ok ((s.handlerIds.map (·.contains r.handlerId)).getD true &&
      (s.occurrenceType.map (· == r.payload.occurrenceType)).getD true &&
      (s.ids.map (·.contains r.id.text)).getD true && s.all.getD true)

/-- What is asked about the occurrences of a view. -/
inductive Question where
  | all
  | first
  | any

/-- Which part of what a collector has seen is looked at. -/
structure View where
  name : String
  type : Option String
  field : Option (String × Value)
  question : Question

inductive Step where
  | record (type : String) (data : Json) (handlerIds : List String)
  | insert (late : Nat) (thenFails : Option String)
      (records : Except Fault (List PublicationRecord))
  | get (id : RecordId)
  | require (id : RecordId)
  | complete (id : RecordId)
  | raceComplete (ids : List RecordId)
  | completeMatching (type : String) (data : Json) (handlerId : String)
  | findIncomplete
  | pending
  | olderThan (seconds : Json)
  | byFingerprint (fingerprint handlerId : String)
  | prune (seconds : Json)
  | publish (type : String) (data : Json) (unit : Option String) (capture : Option String)
  | drain
  | release (handler : String)
  | behavior (handler : String) (script : Script)
  | openUnit (name : String) (refuses : Bool)
  | commitUnit (name : String)
  | rollbackUnit (name : String)
  | leaveUnit (name : String) (raises : Option Fault)
  | resubmit (selection : Option Selection)
  | resubmitOlderThan (seconds : Json) (selection : Option Selection)
  | scheduledResubmit (olderThanSeconds : Json) (handlerIds : List String)
  | scheduledPrune (completedOlderThanSeconds : Json)
  | advance (seconds : Json)
  | setClock (instant : Instant)
  | breakMethod (outage : Outage)
  | breakDatabase (outage : DatabaseOutage)
  | repair
  | rejectHandler (handlerId message : String)
  | captured (view : View)
  | clearCaptured (name : String)
  | sweep (id : String)
  /-- A schedule run by the timer that it was handed to. -/
  | fire (id : String)
  | sweeperFailures (id : String)
  | startSweeper
  | stopSweeper
  | withinSweeper

/-- What a step answers. -/
inductive Answer where
  | nothing
  | records (rs : List PublicationRecord)
  | record? (r : Option PublicationRecord)
  | flag (b : Bool)
  | flags (bs : List Bool)
  | pairs (ps : List (RecordId × String))
  | count (n : Nat)
  | report (r : Report)
  | instant (t : Instant)
  | callbacks (n : Nat)
  | occurrence (o : Occurrence)
  | occurrences (seen : List Occurrence)
  | failures (n : Nat)
  | sweeper (running : Bool) (timer : Timer)

/-- An act of the node as a step of the rehearsal. -/
def act {α : Type} (r : Rehearsal) (a : Act α) (answer : α → Answer) :
    Except Fault Answer × Rehearsal :=
  let (result, p) := a.outcome r.node
  (result.map answer, { r with node := p })

/-- The class that declarations call `key`, which may be declared by a module. -/
def classOf (cat : Catalogue) (key : String) : Except Fault ClassId :=
  match cat.byKey? key with
  | some type => .ok type
  | none => .error (.foreign .key key)

/-- The occurrence of a class that data describes. -/
def occurrenceIn (cat : Catalogue) (key : String) (data : Json) : Except Fault Occurrence := do
  Occurrence.ofData cat (← classOf cat key) data

/-- The occurrence of a class that data describes. -/
def occurrence (key : String) (data : Json) : Act Occurrence := do
  Act.lift (occurrenceIn (← get).space.catalogue key data)

def seconds (amount : Json) : Act Duration := Act.lift (liftTime (Duration.ofSeconds amount))

/-- The backend of a unit of work that may refuse to commit. -/
def backend (refuses : Bool) : UnitOfWork.Backend Deferred Node :=
  Deferred.backend
    (fun p => (if refuses then .error (.foreign .runtime "commit refused") else .ok (), p))
    (fun p => (.ok (), p))

def unit (r : Rehearsal) (name : String) : NamedUnit :=
  (member? name r.units).getD ⟨UnitOfWork.fresh, false⟩

/-- A unit of work taken through one of its operations. -/
def onUnit (r : Rehearsal) (name : String)
    (op : UnitOfWork.Backend Deferred Node → UnitOfWork Deferred × Node →
      Except Fault Unit × (UnitOfWork Deferred × Node)) :
    Except Fault Answer × Rehearsal :=
  let named := r.unit name
  let (result, (u, p)) := op (backend named.refuses) (named.unit, r.node)
  (result.map fun _ => .callbacks u.pending.length,
    { r with node := p, units := insertMember name { named with unit := u } r.units })

/-- An occurrence published at once, or deferred to a unit of work. -/
def publish (r : Rehearsal) (type : String) (data : Json) (unitName : Option String)
    (capture : Option String) : Except Fault Answer × Rehearsal :=
  match unitName with
  | none =>
    r.act (do Dispatch.dispatch (← occurrence type data) capture) .records
  | some name =>
    match occurrenceIn r.node.space.catalogue type data with
    | .error fault => (.error fault, r)
    | .ok o =>
      let named := r.unit name
      match Deferred.defer ⟨o, capture⟩ (named.unit, r.node) with
      | (.error fault, _) => (.error fault, r)
      | (.ok records, (u, p)) =>
        (.ok (.records records),
          { r with node := p, units := insertMember name { named with unit := u } r.units })

/-- A row of completions, one after the other. -/
def completeAll : List RecordId → Act (List Bool)
  | [] => pure []
  | id :: ids => do
    let won ← Ledger.complete id
    let more ← completeAll ids
    pure (won :: more)

/-- What a collector has seen, through a view. -/
def look (p : Node) (v : View) : Except Fault Answer := do
  let seen := (member? v.name p.captures).getD []
  let seen ← match v.type with
    | some key => do
      pure (Capture.ofType p.space.catalogue (← classOf p.space.catalogue key) seen)
    | none => pure seen
  let seen := match v.field with
    | some (field, value) => Capture.withField field value seen
    | none => seen
  match v.question with
  | .all => pure (.occurrences seen)
  | .first => do pure (.occurrence (← Capture.first seen))
  | .any => pure (.flag (!seen.isEmpty))

/-- The outages with a new one, which takes the place of any other of its method. -/
def withOutage (o : Outage) (outages : List Outage) : List Outage :=
  o :: outages.filter (·.method ≠ o.method)

/-- The store with handlers that the database refuses. -/
def refuse (handlerId message : String) : Store → Store
  | .memory m => .memory m
  | .table t => .table { t with refused := t.refused ++ [(handlerId, message)] }

def predicate (s : Option Selection) : Resubmission.Predicate :=
  match s with
  | some s => s.predicate
  | none => Resubmission.always

/-- The present state of the sweeper. -/
def sweeperState (s : Sweeper) : Answer := .sweeper s.isRunning s.last

/-- A schedule run once, if there is one of that identifier. -/
def sweep (r : Rehearsal) (known : Bool) (id : String) : Except Fault Answer × Rehearsal :=
  match if known then r.sweeper.schedule? id else none with
  | none => (.error (.foreign .key id), r)
  | some schedule =>
    let (result, (sweeper, node)) := Sweeper.runSchedule schedule (r.sweeper, r.node)
    (result.map fun _ => .failures (sweeper.failures id),
      { r with sweeper := sweeper, node := node })

/-- A timer that refuses nothing but cron expressions of a wrong length. -/
def timers : Timer.Make where
  create := .ok ()
  enter := .ok ()
  readCron cron :=
    let found := (Text.words cron.toList).length
    if found = 5 then .ok () else .error (.cronFields found)
  take _ _ := .ok ()
  launch _ := .ok ()

/-- The sweeper started, and stopped again if the start succeeds and `thenStop` says so. -/
def startSweeper (r : Rehearsal) (thenStop : Bool) : Except Fault Answer × Rehearsal :=
  let (result, state) := Sweeper.start timers (r.sweeper, r.node)
  match result with
  | .error fault => (.error fault, { r with sweeper := state.1, node := state.2 })
  | .ok () =>
    let (sweeper, node) := if thenStop then Sweeper.stop state else state
    (.ok (sweeperState sweeper), { r with sweeper := sweeper, node := node })

/-- A step, without what the background tasks do after it. -/
def perform (r : Rehearsal) : Step → Except Fault Answer × Rehearsal
  | .record type data handlerIds =>
    r.act (do Ledger.record (← occurrence type data) handlerIds) .records
  | .insert late thenFails records =>
    r.act (do Ledger.insertSeeing late thenFails (← Act.lift records)) fun _ => .nothing
  | .get id => r.act (Ledger.get? id) .record?
  | .require id => r.act (Ledger.require id) fun x => .record? (some x)
  | .complete id => r.act (Ledger.complete id) .flag
  | .raceComplete ids => r.act (completeAll ids) .flags
  | .completeMatching type data handlerId =>
    r.act (do Ledger.completeMatching (← occurrence type data) handlerId) .flag
  | .findIncomplete => r.act Ledger.findIncomplete .records
  | .pending =>
    r.act Ledger.findIncomplete fun rs => .pairs (rs.map fun x => (x.id, x.handlerId))
  | .olderThan amount =>
    r.act (do Ledger.findIncompleteOlderThan (← seconds amount)) .records
  | .byFingerprint fingerprint handlerId =>
    r.act (Ledger.findIncompleteByFingerprint fingerprint handlerId) .records
  | .prune amount => r.act (do Ledger.prune (← seconds amount)) .count
  | .publish type data unitName capture => r.publish type data unitName capture
  | .drain => r.act (Dispatch.drain []) fun _ => .nothing
  | .release handler => r.act (Dispatch.release handler) fun _ => .nothing
  | .behavior handler script =>
    (.ok .nothing, { r with node := { r.node with
      scripts := insertMember handler script r.node.scripts
      reacted := eraseMember handler r.node.reacted } })
  | .openUnit name refuses =>
    (.ok .nothing, { r with units := insertMember name ⟨UnitOfWork.fresh, refuses⟩ r.units })
  | .commitUnit name => r.onUnit name UnitOfWork.commit
  | .rollbackUnit name => r.onUnit name UnitOfWork.rollback
  | .leaveUnit name raises =>
    r.onUnit name fun b s =>
      UnitOfWork.leave b (match raises with
        | some fault => .error fault
        | none => .ok ()) s
  | .resubmit selection => r.act (Resubmission.resubmit (predicate selection)) .report
  | .resubmitOlderThan amount selection =>
    r.act (do Resubmission.resubmitOlderThan (← seconds amount) (predicate selection)) .report
  | .scheduledResubmit amount handlerIds =>
    r.act (Resubmission.scheduled amount handlerIds) .report
  | .scheduledPrune amount => r.act (Resubmission.scheduledPrune amount) .count
  | .advance amount =>
    r.act (do
      let clock ← Act.lift ((← get).clock.advanceSeconds amount)
      modify fun p => { p with clock := clock }
      pure clock.now) .instant
  | .setClock instant =>
    (.ok (.instant instant),
      { r with node := { r.node with clock := r.node.clock.set instant } })
  | .breakMethod outage =>
    (.ok .nothing, { r with node := { r.node with
      outages := withOutage outage r.node.outages } })
  | .breakDatabase outage =>
    (.ok .nothing, { r with node := { r.node with databaseOutage := some outage } })
  | .repair =>
    (.ok .nothing, { r with node := { r.node with outages := [], databaseOutage := none } })
  | .rejectHandler handlerId message =>
    (.ok .nothing, { r with node := { r.node with
      store := refuse handlerId message r.node.store } })
  | .captured view => (look r.node view, r)
  | .sweep id => r.sweep true id
  | .fire id => r.sweep (r.sweeper.last.jobs.contains id) id
  | .sweeperFailures id => (.ok (.count (r.sweeper.failures id)), r)
  | .startSweeper => r.startSweeper false
  | .withinSweeper => r.startSweeper true
  | .stopSweeper =>
    let (sweeper, node) := Sweeper.stop (r.sweeper, r.node)
    (.ok (sweeperState sweeper), { r with sweeper := sweeper, node := node })
  | .clearCaptured name =>
    (.ok .nothing, { r with node := { r.node with
      captures := insertMember name [] r.node.captures } })

/-- The background tasks run as far as they can. -/
def settle (r : Rehearsal) : Rehearsal :=
  if r.settles then { r with node := (Dispatch.runQueued.outcome r.node).2 } else r

/-- Handlers may overlap during the step, so that the order of its log lines means nothing. -/
def Step.overlaps : Step → Bool
  | .publish .. | .commitUnit _ | .leaveUnit .. | .release _ => true
  | _ => false

/-- What a step showed: its answer, the invocations and the log lines during it. -/
structure Outcome where
  answer : Except Fault Answer
  calls : List Call
  log : List String

/-- A step from beginning to end. -/
def step (r : Rehearsal) (s : Step) : Outcome × Rehearsal :=
  let r := { r with node := { r.node with journal := [], log := [] } }
  let (answer, r) := r.perform s
  let r := r.settle
  let lines := r.node.log.map LogLine.line
  (⟨answer, r.node.journal, if s.overlaps then sortTexts lines else lines⟩, r)

/-- All steps, one after the other, and the rehearsal after them. -/
def run (r : Rehearsal) : List Step → List Outcome × Rehearsal
  | [] => ([], r)
  | s :: rest =>
    let (outcome, r) := r.step s
    let (outcomes, r) := run r rest
    (outcome :: outcomes, r)

end Rehearsal

end DeliveryLedger
