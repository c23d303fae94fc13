import DeliveryLedger.Dispatch
import DeliveryLedger.Publication.Report
/-!
Resubmission: pending records are replayed, each to the one handler that it belongs to.

A sweep reads the pending records once and replays those that a predicate selects.  A record
that cannot be rebuilt, or whose handler is gone, is skipped; a failing handler or a failing
completion leaves its record pending; neither ends the sweep.  What ends it is a fault of another
kind that the class of a record raises over its payload.
-/

namespace DeliveryLedger.Resubmission

/-- A choice among pending records; making it may fail. -/
abbrev Predicate := PublicationRecord → Except Fault Bool

/-- The predicate that selects every record. -/
def always : Predicate := fun _ => .ok true

/-- What a replay came to. -/
inductive Replay where
  | succeeded
  | failed
  | skipped
deriving DecidableEq, Repr

/-- The line about a record that cannot be replayed. -/
def skip (r : PublicationRecord) (why : String) : Act Replay := do
  Act.logged .warning ("Skipping publication " ++ r.id.text ++ ": " ++ why)
  pure .skipped

/-- The occurrence of a record, rebuilt. -/
def rebuild (r : PublicationRecord) : Act (Except Fault Occurrence) := do
  let p ← get
  let (result, space) := r.payload.resolve p.space
  set { p with space := space }
  pure result

/-- The record of a handler that returned is completed. -/
def confirm (r : PublicationRecord) : Act Replay := do
  match ← Act.attempt (Ledger.complete r.id) with
  | .error fault =>
    Act.logged .error ("Replay of publication " ++ r.id.text ++
      " succeeded but completion failed: " ++ fault.message)
    pure .failed
  | .ok _ =>
    Act.logged .debug ("Replayed publication " ++ r.id.text ++ " to '" ++ r.handlerId ++ "'")
    pure .succeeded

/-- A single record replayed. -/
def replay (r : PublicationRecord) : Act Replay := do
  match ← rebuild r with
  | .error fault => if fault.isUnresolvable then skip r fault.message else throw fault
  | .ok o =>
    match (← get).registry.get? r.handlerId with
    | none => skip r ("handler '" ++ r.handlerId ++ "' is not registered")
    | some h =>
      match ← Act.attempt (Dispatch.invoke h o) with
      | .error fault =>
        Act.logged .error ("Replay of publication " ++ r.id.text ++ " to '" ++ r.handlerId ++
          "' failed: " ++ fault.message)
        pure .failed
      | .ok () => confirm r

/-- A report with one more replay. -/
def count (report : Report) : Replay → Report
  | .succeeded =>
    { report with attempted := report.attempted + 1, succeeded := report.succeeded + 1 }
  | .failed => { report with attempted := report.attempted + 1, failed := report.failed + 1 }
  | .skipped => { report with skipped := report.skipped + 1 }

/-- The selected ones of a row of records replayed in order, on top of a report. -/
def replayFrom (predicate : Predicate) (report : Report) : List PublicationRecord → Act Report
  | [] => pure report
  | r :: rest => do
    if ← Act.lift (predicate r) then
      let outcome ← replay r
      replayFrom predicate (count report outcome) rest
    else replayFrom predicate report rest

/-- The selected ones of a row of records replayed; the report is logged unless nothing was
selected. -/
def replayAll (records : List PublicationRecord) (predicate : Predicate) : Act Report := do
  let report ← replayFrom predicate Report.empty records
  if report.selected = 0 then pure ()
  else Act.logged .info ("Resubmission sweep finished: " ++ report.text)
  pure report

/-- Every pending record that the predicate selects, replayed. -/
def resubmit (predicate : Predicate) : Act Report := do
  replayAll (← Ledger.findIncomplete) predicate

/-- The same, among the records published at least `age` ago. -/
def resubmitOlderThan (age : Duration) (predicate : Predicate) : Act Report := do
  replayAll (← Ledger.findIncompleteOlderThan age) predicate

/-- The records of some handlers; without any handlers, every record. -/
def ofHandlers (handlerIds : List String) : Predicate :=
  if handlerIds = [] then always else fun r => .ok (handlerIds.contains r.handlerId)

/-- The number is above zero. -/
def isPositive : Json → Bool
  | .int i => 0 < i
  | .float x => !x.negative && x.magnitude ≠ 0 && !x.isNaN
  | _ => false

/-- A scheduled sweep: records of some handlers, restricted by age only if the number of
seconds is positive. -/
def scheduled (olderThanSeconds : Json) (handlerIds : List String) : Act Report := do
  if isPositive olderThanSeconds then
    let age ← Act.lift (liftTime (Duration.ofSeconds olderThanSeconds))
    resubmitOlderThan age (ofHandlers handlerIds)
  else resubmit (ofHandlers handlerIds)

/-- A scheduled deletion of old completed records. -/
def scheduledPrune (completedOlderThanSeconds : Json) : Act Nat := do
  let age ← Act.lift (liftTime (Duration.ofSeconds completedOlderThanSeconds))
  Ledger.prune age

end DeliveryLedger.Resubmission
