import DeliveryLedger.CommandLine.Command
import DeliveryLedger.Console
import DeliveryLedger.Discovery
import DeliveryLedger.Logging
import DeliveryLedger.Resubmission
import DeliveryLedger.Settings.Sources
/-!
Commands carried out.

Each command reads the settings, brings the database up to date if it may, looks for the
handlers, and then works on the ledger.  The ledger's own faults end a command with a message
and the exit code 1; any other fault breaks it off.
-/

namespace DeliveryLedger.CommandLine

/-- What commands work on. -/
structure Installation where
  node : Node
  classes : List HandlerClass
  entryPoints : List EntryPoint
  sources : SettingsSources
  /-- The database has its tables. -/
  migrated : Bool

/-- What a command printed, and its exit code, or the fault that broke it off. -/
structure Ending where
  output : Console.Output
  exit : Except Fault Nat

namespace Installation

/-- The settings, which must describe a log that can be set up. -/
def settings (i : Installation) : Except Fault Settings := do
  let s ← i.sources.load
  let _ ← Logging.thresholdOf s.logging.level
  let _ ← Logging.format s.logging.format
  pure s

/-- The database may be brought up to date without being asked. -/
def mayMigrate (s : DatabaseSettings) : Bool :=
  s.autoMigrate && "sqlite".toList.isPrefixOf s.url.toList

/-- Every connection fails while the tables are missing. -/
def withoutTables : DatabaseOutage :=
  ⟨"no such table: event_publications", fun _ => true, 0⟩

/-- An act on the ledger, with the handlers that are found. -/
def onLedger {α : Type} (i : Installation) (act : Act α) : Except Fault α × Installation :=
  match i.settings with
  | .error fault => (.error fault, i)
  | .ok s =>
    let i := if mayMigrate s.database then { i with migrated := true } else i
    let found := Discovery.discover i.classes i.node.space i.entryPoints s.ledger.handlers
    let i := { i with node := { i.node with space := found.space } }
    match found.outcome.bind HandlerRegistry.build with
    | .error fault => (.error fault, i)
    | .ok registry =>
      let outage := if i.migrated then none else some withoutTables
      let (result, node) := act.outcome { i.node with registry, databaseOutage := outage }
      (result, { i with node := node })

end Installation

namespace Command

open Console

/-- A number of seconds as a duration. -/
def duration (seconds : Binary64) : Act Duration :=
  Act.lift (liftTime (Duration.ofSeconds (.float seconds)))

/-- The number is above zero. -/
def isPositive (x : Binary64) : Bool := Resubmission.isPositive (.float x)

/-- The number is below zero. -/
def isNegative (x : Binary64) : Bool := x.negative && x.magnitude ≠ 0 && !x.isNaN

/-- A command that ended well, or not. -/
def finished (output : Output) (code : Nat) : Ending := ⟨output, .ok code⟩

/-- A fault shown behind some words if it is the ledger's own. -/
def failed (words : String) (fault : Fault) : Ending :=
  match fault.category? with
  | some _ =>
    finished (Output.empty.say false (.error (words ++ ": " ++ fault.message) none)) 1
  | none => ⟨Output.empty, .error fault⟩

/-- Pending records of a least age; any record will do unless the age is positive. -/
def fetch (olderThan : Binary64) : Act (List PublicationRecord) := do
  if isPositive olderThan then Ledger.findIncompleteOlderThan (← duration olderThan)
  else Ledger.findIncomplete

/-- The records of some handlers; without any handlers, every record. -/
def restrict (handlers : List String) (rs : List PublicationRecord) : List PublicationRecord :=
  if handlers = [] then rs else rs.filter fun r => handlers.contains r.handlerId

/-- A list of pending records, in a table below a heading. -/
def list (now : Instant) (rs : List PublicationRecord) : Ending :=
  if rs = [] then
    finished (Output.empty.say false (.info "No incomplete publications")) 0
  else
    let o := Output.empty.print
      ("Incomplete publications (" ++ Decimal.natText rs.length ++ ")\n")
    match tableOf now rs with
    | .error fault => ⟨o, .error fault⟩
    | .ok table => finished { o with table := some table } 0

/-- A sweep over the records of a least age. -/
def sweep (olderThan : Binary64) (handlers : List String) : Act Report := do
  let predicate := Resubmission.ofHandlers handlers
  if isPositive olderThan then
    Resubmission.resubmitOlderThan (← duration olderThan) predicate
  else Resubmission.resubmit predicate

/-- A known record, and whether completing it changed it. -/
def mark (id : RecordId) : Act (PublicationRecord × Bool) := do
  let record ← Ledger.require id
  pure (record, ← Ledger.complete id)

/-- What the completion of a record showed. -/
def marked (id : RecordId) : Except Fault (PublicationRecord × Bool) → Ending
  | .error (.unknownRecord given) =>
    finished (Output.empty.say false (.error (Fault.unknownRecord given).message
      (some "List pending publications with: courier pending"))) 1
  | .error fault => failed "Completion failed" fault
  | .ok (record, true) =>
    finished (Output.empty.say false (.success ("Completed publication " ++ id.text ++
      " for handler '" ++ record.handlerId ++ "'"))) 0
  | .ok (_, false) =>
    finished (Output.empty.say false
      (.warning ("Publication " ++ id.text ++ " was already completed"))) 0

/-- A command carried out. -/
def run (i : Installation) : Command → Ending × Installation
  | .pending olderThan handlers =>
    match i.onLedger (fetch olderThan) with
    | (.error fault, i) => (failed "Could not list publications" fault, i)
    | (.ok rs, i) => (list i.node.clock.now (restrict handlers rs), i)
  | .resubmit olderThan handlers =>
    match i.onLedger (sweep olderThan handlers) with
    | (.error fault, i) => (failed "Resubmission failed" fault, i)
    | (.ok report, i) =>
      (finished (Output.empty.report false report) (if report.failed = 0 then 0 else 1), i)
  | .complete word =>
    match RecordId.parseLoose? word with
    | none =>
      (finished (Output.empty.say false (.error ("Not a publication id: " ++ word) none)) 1, i)
    | some id =>
      let (result, i) := i.onLedger (mark id)
      (marked id result, i)
  | .prune olderThan =>
    if isNegative olderThan then
      (finished (Output.empty.say false (.error "--older-than must not be negative" none)) 1, i)
    else
      match i.onLedger (do Ledger.prune (← duration olderThan)) with
      | (.error fault, i) => (failed "Prune failed" fault, i)
      | (.ok n, i) =>
        (finished (Output.empty.say false (.success ("Deleted " ++ Decimal.natText n ++
          " completed publication" ++ (if n = 1 then "" else "s")))) 0, i)
  | .migrate =>
    match i.settings with
    | .error fault => (⟨Output.empty, .error fault⟩, i)
    | .ok _ =>
      (finished (Output.empty.say false (.success "Database is up to date")) 0,
        { i with migrated := true })

end Command

namespace Session

inductive Step where
  /-- A fan-out is recorded, and its first records are completed. -/
  | seed (type : String) (data : Json) (handlerIds : List String) (completed : Nat)
  | advance (seconds : Json)
  | breakMethod (outage : Outage)
  | words (ws : List String)

/-- What a step answers. -/
inductive Answer where
  | ids (ids : List RecordId)
  | instant (t : Instant)
  | broken
  | misused (fault : UsageFault)
  | ended (ending : Ending) (calls : List Call)

/-- Records completed, one after the other. -/
def completeEach : List PublicationRecord → Act Unit
  | [] => pure ()
  | r :: rs => do
    let _ ← Ledger.complete r.id
    completeEach rs

def seed (type : String) (data : Json) (handlerIds : List String) (completed : Nat) :
    Act (List RecordId) := do
  let cat := (← get).space.catalogue
  match cat.byKey? type with
  | none => throw (.foreign .key type)
  | some type =>
    let o ← Act.lift (Occurrence.ofData cat type data)
    let records ← Ledger.record o handlerIds
    completeEach (records.take completed)
    pure (records.map (·.id))

/-- A step carried out. -/
def step (i : Installation) : Step → Except Fault Answer × Installation
  | .seed type data handlerIds completed =>
    let (result, i) := i.onLedger (seed type data handlerIds completed)
    (result.map .ids, i)
  | .advance seconds =>
    match i.node.clock.advanceSeconds seconds with
    | .error fault => (.error fault, i)
    | .ok clock => (.ok (.instant clock.now), { i with node := { i.node with clock := clock } })
  | .breakMethod outage =>
    (.ok .broken, { i with node := { i.node with
      outages := outage :: i.node.outages.filter (·.method ≠ outage.method) } })
  | .words ws =>
    match Command.ofWords ws with
    | .error fault => (.ok (.misused fault), i)
    | .ok command =>
      let i := { i with node := { i.node with journal := [] } }
      let (ending, i) := command.run i
      (.ok (.ended ending i.node.journal), i)

/-- All steps, one after the other, and the installation after them. -/
def run (i : Installation) : List Step → List (Except Fault Answer) × Installation
  | [] => ([], i)
  | s :: rest =>
    let (answer, i) := step i s
    let (answers, i) := run i rest
    (answer :: answers, i)

end Session

end DeliveryLedger.CommandLine
