import DeliveryLedger.Dispatch
import DeliveryLedger.UnitOfWork
/-!
Publications that wait for the commit of a unit of work.

The callbacks of such a unit are dispatches in a node: a commit carries them out there, and a
rollback forgets them.
-/

namespace DeliveryLedger

/-- A publication that waits for the commit of a unit of work. -/
structure Deferred where
  occurrence : Occurrence
  capture : Option String
deriving Repr

namespace Deferred

/-- The publication made at once. -/
def dispatch (d : Deferred) : Act (List PublicationRecord) :=
  Dispatch.dispatch d.occurrence d.capture

/-- The publication left to a unit of work; no records are known yet. -/
def defer (d : Deferred) (s : UnitOfWork Deferred × Node) :
    Except Fault (List PublicationRecord) × (UnitOfWork Deferred × Node) :=
  match s.1.afterCommit d with
  | .error fault => (.error fault, s)
  | .ok u => (.ok [], (u, s.2))

/-- A dispatch after the commit has failed. -/
def failed (fault : Fault) (p : Node) : Node :=
  p.logged [⟨.error, "After-commit callback <callback> failed: " ++ fault.message⟩]

/-- A rollback has forgotten a number of publications. -/
def dropped (count : Nat) (p : Node) : Node :=
  p.logged [⟨.debug, "Rolled back unit of work, dropped " ++ Decimal.natText count ++
    " callbacks"⟩]

/-- A transaction as the backend of a unit of work whose callbacks are dispatches. -/
def backend (commit rollback : Node → Except Fault Unit × Node) :
    UnitOfWork.Backend Deferred Node :=
  { commit, rollback, failed, dropped
    run := fun d s =>
      let (result, p) := d.dispatch.outcome s.2
      (result.map fun _ => (), (s.1, p)) }

end Deferred

end DeliveryLedger
