import DeliveryLedger.CommandLine.Session
import DeliveryLedger.Proofs.TableCells
import DeliveryLedger.Proofs.Views
/-!
The ways to ask for pending records by age and handlers select the same ones.

The command that lists records looks them up and then filters them.  The command that replays
them, and the scheduled sweep, look them up and take the handlers for a predicate, which is asked
between one invocation of a handler and the next.  All are one act, `Command.selected`, followed
by what is done with its records (`Command.sweep_eq`, `Resubmission.scheduled_eq`).
-/

namespace DeliveryLedger

namespace Instant

end Instant

/-! ### Sweeps over selected records -/

namespace Resubmission

open Act

end Resubmission

namespace CommandLine

namespace Command

open Act Resubmission

/-- The pending records of an age and of some handlers. -/
def selected (seconds : Binary64) (handlers : List String) : Act (List PublicationRecord) := do
  pure (restrict handlers (← fetch seconds))

/-- The last time of publication that a number of seconds asks for at a reading of the clock;
any time will do unless the number is positive. -/
def bound (clock : Clock) (seconds : Binary64) : Except Fault (Option Instant) :=
  if isPositive seconds then do
    let age ← liftTime (Duration.ofSeconds (.float seconds))
    (clock.cutoff age).map some
  else pure none

end Command

/-! ### The rows of the list -/

/-- The rows of the table that a command printed, without its head. -/
def Ending.rows (e : Ending) : List (List String) := (e.output.table.getD []).drop 1

/-- A command gets as far as the ledger: the settings are read, the handlers are found, and its
act is carried out on the node of `j`. -/
def Installation.Opens (i j : Installation) : Prop := i.onLedger get = (.ok j.node, j)

theorem Installation.Opens.onLedger {i j : Installation} (h : i.Opens j) {α : Type}
    (act : Act α) :
    i.onLedger act = ((act.outcome j.node).1, { j with node := (act.outcome j.node).2 }) := by
  unfold Opens Installation.onLedger at h
  unfold Installation.onLedger
  cases hsettings : i.settings with
  | error fault =>
      rw [hsettings] at h
      cases h
  | ok settings =>
      simp only [hsettings] at h ⊢
      split at h
      · cases h
      · obtain ⟨-, rfl⟩ := Prod.mk.inj h
        rfl

end CommandLine

namespace CommandLine

open Act

end CommandLine

end DeliveryLedger
