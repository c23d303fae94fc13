import DeliveryLedger.Checked
import DeliveryLedger.Conversion
import DeliveryLedger.Settings.Basic
/-!
Settings read from data.

A missing key takes its standard value and an unknown one is ignored.  Truth values and numbers
are converted (`Conversions.lax`); a text or a list is never made from anything else.
-/

namespace DeliveryLedger

namespace Reading

/-- A mistake at this very place. -/
def mistake {α : Type} : Checked α := Checked.ofOption none

def text : Json → Checked String
  | .str s => .ok s
  | _ => mistake

def truth (j : Json) : Checked Bool := Checked.ofOption (Conversions.lax.boolean j)

def number (j : Json) : Checked Binary64 := Checked.ofOption (Conversions.lax.float j)

def textList : Json → Checked (List String)
  | .arr items => Checked.each text items
  | _ => mistake

/-- A value that may be missing. -/
def optional {α : Type} (read : Json → Checked α) : Json → Checked (Option α)
  | .null => .ok none
  | j => (read j).map some

/-- The value of a key, or the standard one if there is any. -/
def field {α : Type} (members : List (String × Json)) (key : String) (standard : Option α)
    (read : Json → Checked α) : Checked α :=
  Checked.within key (match member? key members with
    | some j => read j
    | none => Checked.ofOption standard)

end Reading

open Reading

def DatabaseSettings.ofJson : Json → Checked DatabaseSettings
  | .obj ms =>
    let d := DatabaseSettings.standard
    ((field ms "url" (some d.url) text).both ((field ms "echo" (some d.echo) truth).both
      (field ms "auto_migrate" (some d.autoMigrate) truth))).map
        fun (url, echo, autoMigrate) => { url, echo, autoMigrate }
  | _ => mistake

def LoggingSettings.ofJson : Json → Checked LoggingSettings
  | .obj ms =>
    let d := LoggingSettings.standard
    ((field ms "level" (some d.level) text).both ((field ms "format" (some d.format) text).both
      (field ms "date_format" (some d.dateFormat) text))).map
        fun (level, format, dateFormat) => { level, format, dateFormat }
  | _ => mistake

def ResubmitSettings.ofJson : Json → Checked ResubmitSettings
  | .obj ms =>
    ((field ms "cron" none text).both
      ((field ms "older_than_seconds" (some ResubmitSettings.standardAge) number).both
        (field ms "handler_ids" (some none) (optional textList)))).map
          fun (cron, olderThanSeconds, handlerIds) => { cron, olderThanSeconds, handlerIds }
  | _ => mistake

def PruneSettings.ofJson : Json → Checked PruneSettings
  | .obj ms =>
    ((field ms "cron" none text).both
      (field ms "completed_older_than_seconds" (some PruneSettings.standardAge) number)).map
        fun (cron, completedOlderThanSeconds) => { cron, completedOlderThanSeconds }
  | _ => mistake

def LedgerSettings.ofJson : Json → Checked LedgerSettings
  | .obj ms =>
    let d := LedgerSettings.standard
    ((field ms "handlers" (some d.handlers) textList).both
      ((field ms "republish_outstanding_on_startup" (some d.republishOutstandingOnStartup)
          truth).both
        ((field ms "resubmit" (some none) (optional ResubmitSettings.ofJson)).both
          (field ms "prune" (some none) (optional PruneSettings.ofJson))))).map
            fun (handlers, republishOutstandingOnStartup, resubmit, prune) =>
              { handlers, republishOutstandingOnStartup, resubmit, prune }
  | _ => mistake

/-- The settings that the members of an object describe. -/
def Settings.ofMembers (ms : List (String × Json)) : Checked Settings :=
  ((field ms "database" (some .standard) DatabaseSettings.ofJson).both
    ((field ms "logging" (some .standard) LoggingSettings.ofJson).both
      (field ms "ledger" (some .standard) LedgerSettings.ofJson))).map
        fun (database, logging, ledger) => { database, logging, ledger }

end DeliveryLedger
