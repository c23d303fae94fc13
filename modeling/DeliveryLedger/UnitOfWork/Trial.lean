import DeliveryLedger.Log
import DeliveryLedger.UnitOfWork
/-!
Trials of a unit of work: a backend that keeps a journal and refuses some of its commits and
rollbacks, and callbacks that may reach back into their own unit.
-/

namespace DeliveryLedger.UnitOfWork.Trial

/-- What a callback does after it has entered the journal. -/
inductive Effect where
  | nothing
  | register
  | commit
  | rollback
  | fail
deriving DecidableEq, Repr

structure Callback where
  name : String
  effect : Effect
deriving DecidableEq, Repr

structure Journal where
  events : List String
  log : List LogLine
  /-- The commits and the rollbacks that were requested so far. -/
  commits : Nat
  rollbacks : Nat
deriving Repr, Inhabited

namespace Journal

def empty : Journal := ⟨[], [], 0, 0⟩

def note (j : Journal) (event : String) : Journal := { j with events := j.events ++ [event] }

def logged (j : Journal) (level : Level) (text : String) : Journal :=
  { j with log := j.log ++ [⟨level, text⟩] }

end Journal

/-- Which of the commits and which of the rollbacks are refused. -/
structure Refusals where
  commits : Nat → Bool
  rollbacks : Nat → Bool

/-- A request to the backend, which enters the journal unless it is refused. -/
def request (refused : Bool) (event : String) (j : Journal) : Except Fault Unit × Journal :=
  if refused then (.error (.foreign .runtime (event ++ " refused")), j)
  else (.ok (), j.note event)

/-- The backend, for callbacks that run as `run` says. -/
def backend (refusals : Refusals)
    (run : Callback → UnitOfWork Callback × Journal →
      Except Fault Unit × (UnitOfWork Callback × Journal)) : Backend Callback Journal :=
  { commit := fun j =>
      request (refusals.commits j.commits) "commit" { j with commits := j.commits + 1 }
    rollback := fun j =>
      request (refusals.rollbacks j.rollbacks) "rollback" { j with rollbacks := j.rollbacks + 1 }
    run := run
    failed := fun fault j =>
      j.logged .error ("After-commit callback <callback> failed: " ++ fault.message)
    dropped := fun count j =>
      j.logged .debug ("Rolled back unit of work, dropped " ++ Decimal.natText count ++
        " callbacks") }

/-- The backend as a running callback meets it: its unit is finished, and nothing waits. -/
def bare (refusals : Refusals) : Backend Callback Journal :=
  backend refusals fun _ s => (.ok (), s)

/-- A unit of work with one more callback. -/
def register (c : Callback) (s : UnitOfWork Callback × Journal) :
    Except Fault Unit × (UnitOfWork Callback × Journal) :=
  match s.1.afterCommit c with
  | .ok u => (.ok (), (u, s.2))
  | .error fault => (.error fault, s)

/-- A callback runs. -/
def react (refusals : Refusals) (c : Callback) (s : UnitOfWork Callback × Journal) :
    Except Fault Unit × (UnitOfWork Callback × Journal) :=
  let s := (s.1, s.2.note c.name)
  match c.effect with
  | .nothing => (.ok (), s)
  | .register => register c s
  | .commit => commit (bare refusals) s
  | .rollback => rollback (bare refusals) s
  | .fail => (.error (.foreign .value (c.name ++ " broke")), s)

inductive Move where
  | afterCommit (c : Callback)
  | commit
  | rollback
  | fail

inductive Step where
  | move (m : Move)
  /-- The unit as a block around a row of moves. -/
  | block (body : List Move)

variable (refusals : Refusals)

def full : Backend Callback Journal := backend refusals (react refusals)

def move (s : UnitOfWork Callback × Journal) : Move →
    Except Fault Unit × (UnitOfWork Callback × Journal)
  | .afterCommit c => register c s
  | .commit => UnitOfWork.commit (full refusals) s
  | .rollback => UnitOfWork.rollback (full refusals) s
  | .fail => (.error (.foreign .value "body failed"), s)

/-- Moves up to the first fault. -/
def moves (s : UnitOfWork Callback × Journal) : List Move →
    Except Fault Unit × (UnitOfWork Callback × Journal)
  | [] => (.ok (), s)
  | m :: ms =>
    match move refusals s m with
    | (.ok (), s) => moves s ms
    | (.error fault, s) => (.error fault, s)

def perform (s : UnitOfWork Callback × Journal) : Step →
    Except Fault Unit × (UnitOfWork Callback × Journal)
  | .move m => move refusals s m
  | .block body =>
    let (result, s) := moves refusals s body
    leave (full refusals) result s

/-- What a step showed. -/
structure Outcome where
  result : Except Fault Unit
  events : List String
  log : List LogLine
  pending : Nat

/-- All steps, one after the other. -/
def run (s : UnitOfWork Callback × Journal) : List Step → List Outcome
  | [] => []
  | step :: rest =>
    let s := (s.1, { s.2 with events := [], log := [] })
    let (result, s) := perform refusals s step
    ⟨result, s.2.events, s.2.log, s.1.pending.length⟩ :: run s rest

end DeliveryLedger.UnitOfWork.Trial
