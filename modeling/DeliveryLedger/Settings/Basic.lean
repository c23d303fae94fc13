import DeliveryLedger.Binary64
/-!
The settings of a ledger, and the sweeps that they schedule.
-/

namespace DeliveryLedger

structure DatabaseSettings where
  url : String
  /-- Statements are logged. -/
  echo : Bool
  /-- The schema is brought up to date without being asked. -/
  autoMigrate : Bool
deriving DecidableEq, Repr, Inhabited

structure LoggingSettings where
  level : String
  format : String
  dateFormat : String
deriving DecidableEq, Repr, Inhabited

/-- A sweep over pending records. -/
structure ResubmitSettings where
  cron : String
  olderThanSeconds : Binary64
  /-- The sweep concerns these handlers only. -/
  handlerIds : Option (List String)
deriving DecidableEq, Repr, Inhabited

/-- A deletion of completed records. -/
structure PruneSettings where
  cron : String
  completedOlderThanSeconds : Binary64
deriving DecidableEq, Repr, Inhabited

structure LedgerSettings where
  /-- References to handlers. -/
  handlers : List String
  republishOutstandingOnStartup : Bool
  resubmit : Option ResubmitSettings
  prune : Option PruneSettings
deriving DecidableEq, Repr, Inhabited

structure Settings where
  database : DatabaseSettings
  logging : LoggingSettings
  ledger : LedgerSettings
deriving DecidableEq, Repr, Inhabited

/-- What a schedule runs. -/
inductive Sweep where
  | resubmit (olderThanSeconds : Binary64) (handlerIds : Option (List String))
  | prune (completedOlderThanSeconds : Binary64)
deriving DecidableEq, Repr

structure Schedule where
  id : String
  cron : String
  sweep : Sweep
deriving DecidableEq, Repr

namespace DatabaseSettings

def standard : DatabaseSettings :=
  { url := "sqlite+aiosqlite:///~/.local/share/courier/courier.db", echo := false,
    autoMigrate := true }

end DatabaseSettings

namespace LoggingSettings

def standard : LoggingSettings :=
  { level := "INFO", format := "%(asctime)s %(levelname)-8s [%(name)s] %(message)s",
    dateFormat := "%Y-%m-%d %H:%M:%S" }

end LoggingSettings

namespace ResubmitSettings

/-- A minute, so that dispatches still under way are left alone. -/
def standardAge : Binary64 := Binary64.ofInt 60

def schedule (s : ResubmitSettings) : Schedule :=
  ⟨"ledger-resubmit", s.cron, .resubmit s.olderThanSeconds s.handlerIds⟩

end ResubmitSettings

namespace PruneSettings

/-- Seven days. -/
def standardAge : Binary64 := Binary64.ofInt 604800

def schedule (s : PruneSettings) : Schedule :=
  ⟨"ledger-prune", s.cron, .prune s.completedOlderThanSeconds⟩

end PruneSettings

namespace LedgerSettings

def standard : LedgerSettings :=
  { handlers := [], republishOutstandingOnStartup := false, resubmit := none, prune := none }

/-- The sweeps that are scheduled. -/
def schedules (s : LedgerSettings) : List Schedule :=
  (s.resubmit.map ResubmitSettings.schedule).toList ++
    (s.prune.map PruneSettings.schedule).toList

end LedgerSettings

namespace Settings

def standard : Settings := ⟨.standard, .standard, .standard⟩

end Settings

end DeliveryLedger
