import DeliveryLedger.Resubmission
import DeliveryLedger.Settings.Basic
/-!
The sweeper: scheduled sweeps, run by a timer.

A failing sweep is logged and counted, and never ends the sweeper; a successful one resets
the count of its schedule.  Each run has a scope of its own, which is closed whatever the run
came to.  A start hands each schedule to a new timer, in order, and fails at the first one that
is refused, such as one with a malformed cron expression.
-/

namespace DeliveryLedger

/-- A timer, with the schedules that it was given. -/
structure Timer where
  given : List Schedule
  started : Bool
deriving DecidableEq, Repr, Inhabited

namespace Timer

/-- A timer at its beginning. -/
def fresh : Timer := ⟨[], false⟩

/-- The identifiers of the schedules. -/
def jobs (t : Timer) : List String := t.given.map (·.id)

/-- Timers of one make: how they answer to what a start asks of them. -/
structure Make where
  /-- A new timer is made. -/
  create : Except Fault Unit
  /-- It is entered; it then has to be closed in the end. -/
  enter : Except Fault Unit
  /-- A cron expression is read. -/
  readCron : String → Except Fault Unit
  /-- The timer takes a schedule. -/
  take : Timer → Schedule → Except Fault Unit
  /-- The timer sets off. -/
  launch : Timer → Except Fault Unit

end Timer

/-- What a start has opened and a stop has to close. -/
structure Exits where
  /-- The timer was entered. -/
  closesTimer : Bool
deriving DecidableEq, Repr

structure Sweeper where
  schedules : List Schedule
  /-- Pending records are replayed at each start. -/
  republishes : Bool
  /-- The timer in use, if the sweeper runs. -/
  timer : Option Timer
  /-- What is open, if a start opened it and no stop has closed it. -/
  exits : Option Exits
  /-- The timer that was in use last. -/
  last : Timer
  /-- How often each schedule has failed since it last succeeded; one that succeeded last is
  not there. -/
  failing : List (String × Nat)
deriving DecidableEq, Repr, Inhabited

namespace Sweeper

/-- A sweeper that does not run. -/
def ofSettings (s : LedgerSettings) : Sweeper :=
  { schedules := s.schedules, republishes := s.republishOutstandingOnStartup, timer := none,
    exits := none, last := Timer.fresh, failing := [] }

def isRunning (s : Sweeper) : Bool := s.timer.isSome

/-- How often a schedule has failed since it last succeeded. -/
def failures (s : Sweeper) (id : String) : Nat := (member? id s.failing).getD 0

/-- The number of failures in a row that is worth an alarm. -/
def alarmThreshold : Nat := 5

/-- The count of a schedule after one more run, and the lines about the run. -/
def note (s : Sweeper) (id : String) : Except Fault Unit → Sweeper × List LogLine
  | .ok () =>
    ({ s with failing := eraseMember id s.failing }, [⟨.debug, "Ran schedule " ++ id⟩])
  | .error fault =>
    let n := s.failures id + 1
    let count := Decimal.natText n
    ({ s with failing := insertMember id n s.failing },
      ⟨.error, "Failed to run schedule " ++ id ++ " (failures: " ++ count ++ "): " ++
          fault.message⟩ ::
        if alarmThreshold ≤ n then
          [⟨.critical, "Schedule " ++ id ++ " has failed " ++ count ++ " consecutive times"⟩]
        else [])

/-- What a schedule runs. -/
def act : Sweep → Act Unit
  | .resubmit olderThanSeconds handlerIds => do
    let _ ← Resubmission.scheduled (.float olderThanSeconds) (handlerIds.getD [])
  | .prune completedOlderThanSeconds => do
    let _ ← Resubmission.scheduledPrune (.float completedOlderThanSeconds)

/-- What goes wrong around the work of a run: at the opening of its scope, when what it runs is
looked up there, and at the closing. -/
structure Mishaps where
  opening : Option Fault
  lookup : Option Fault
  closing : Option Fault

def Mishaps.none : Mishaps := ⟨.none, .none, .none⟩

/-- A step that goes wrong, or not. -/
def pass : Option Fault → Act Unit
  | none => pure ()
  | some fault => throw fault

/-- Work done in a scope of its own, which is closed whatever the work came to.  A fault of the
closing takes the place of any other. -/
def inScope (m : Mishaps) (work : Act Unit) : Act Unit := do
  pass m.opening
  let result ← Act.attempt do
    pass m.lookup
    work
  pass m.closing
  Act.lift result

/-- Work run once for an identifier; its fault is counted and goes no further. -/
def runWork (m : Mishaps) (id : String) (work : Act Unit) (state : Sweeper × Node) :
    Except Fault Unit × (Sweeper × Node) :=
  let (result, node) := (inScope m work).outcome state.2
  let (sweeper, lines) := state.1.note id result
  (.ok (), (sweeper, node.logged lines))

/-- A schedule run once. -/
def runSchedule (schedule : Schedule) (state : Sweeper × Node) :
    Except Fault Unit × (Sweeper × Node) :=
  runWork .none schedule.id (act schedule.sweep) state

/-- The schedule of an identifier. -/
def schedule? (s : Sweeper) (id : String) : Option Schedule := s.schedules.find? (·.id = id)

/-- Every pending record replayed once; a failure is logged. -/
def republish (node : Node) : Node :=
  match (Resubmission.resubmit Resubmission.always).outcome node with
  | (.ok report, node) =>
    node.logged [⟨.info, "Republished outstanding publications on startup: " ++ report.text⟩]
  | (.error fault, node) =>
    node.logged [⟨.error, "Republishing outstanding publications on startup failed: " ++
      fault.message⟩]

/-- A schedule handed to a timer: its cron expression is read first. -/
def handOver (m : Timer.Make) (timer : Timer) (x : Schedule) : Except Fault Unit := do
  m.readCron x.cron
  m.take timer x

/-- Schedules handed to a timer, up to the first that is refused. -/
def register (m : Timer.Make) (timer : Timer) :
    List Schedule → Except Fault Unit × Timer × List LogLine
  | [] => (.ok (), timer, [])
  | x :: xs =>
    match handOver m timer x with
    | .ok () =>
      let (result, timer, lines) := register m { timer with given := timer.given ++ [x] } xs
      (result, timer,
        ⟨.debug, "Registered schedule " ++ x.id ++ " (cron=" ++ x.cron ++ ")"⟩ :: lines)
    | .error fault => (.error fault, timer, [])

/-- The sweeper with a timer in use. -/
def use (s : Sweeper) (timer : Timer) : Sweeper := { s with timer := some timer, last := timer }

/-- The sweeper started with a new timer of some make.  What was opened before a fault stays
open. -/
def start (m : Timer.Make) (state : Sweeper × Node) :
    Except Fault Unit × (Sweeper × Node) :=
  let node := if state.1.republishes then republish state.2 else state.2
  let sweeper := { state.1 with exits := some ⟨false⟩ }
  match m.create with
  | .error fault => (.error fault, (sweeper, node))
  | .ok () =>
    match m.enter with
    | .error fault => (.error fault, (sweeper.use Timer.fresh, node))
    | .ok () =>
      let sweeper := { sweeper with exits := some ⟨true⟩ }
      match register m Timer.fresh sweeper.schedules with
      | (.error fault, timer, lines) => (.error fault, (sweeper.use timer, node.logged lines))
      | (.ok (), timer, lines) =>
        match m.launch timer with
        | .error fault => (.error fault, (sweeper.use timer, node.logged lines))
        | .ok () =>
          (.ok (), (sweeper.use { timer with started := true },
            (node.logged lines).logged [⟨.info, "LedgerSweeper started with " ++
              Decimal.natText sweeper.schedules.length ++ " schedules"⟩]))

/-- The sweeper stopped. -/
def stop (state : Sweeper × Node) : Sweeper × Node :=
  ({ state.1 with timer := none, exits := none },
    state.2.logged [⟨.info, "LedgerSweeper stopped"⟩])

end Sweeper

end DeliveryLedger
