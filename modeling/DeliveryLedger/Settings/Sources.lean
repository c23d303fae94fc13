import DeliveryLedger.Settings.Dotenv
import DeliveryLedger.Settings.Reading
/-!
The sources of the settings, the strongest first: values given directly, variables of the
surroundings, variables of a file, and a configuration file.  They are merged key by key.
-/

namespace DeliveryLedger

structure SettingsSources where
  given : List (String × Json)
  surroundings : Settings.Variables
  /-- The text of a file with variables. -/
  dotenv : Option String
  /-- The content of a configuration file. -/
  file : Option Json

namespace SettingsSources

def empty : SettingsSources := ⟨[], [], none, none⟩

/-- The members of the configuration file; an empty file has none. -/
def fileMembers (s : SettingsSources) : List (String × Json) :=
  match s.file with
  | some (.obj members) => members
  | _ => []

/-- All members, those of stronger sources in place of those of weaker ones. -/
def merged (s : SettingsSources) : Except Fault (List (String × Json)) := do
  let strong ← Settings.ofVariables s.surroundings
  let dotenv ← match s.dotenv with
    | some text => Settings.ofVariables (Settings.Dotenv.parse s.surroundings text)
    | none => .ok []
  let weak := Settings.deepUpdate s.fileMembers dotenv
  .ok (Settings.deepUpdate (Settings.deepUpdate weak strong) s.given)

/-- The settings. -/
def load (s : SettingsSources) : Except Fault Settings := do
  (Settings.ofMembers (← s.merged)).orFault

/-- The file that the log is written to, if a variable names one. -/
def logFile? (s : SettingsSources) : Option String :=
  (member? "COURIER_LOG_FILE" s.surroundings).join

end SettingsSources

end DeliveryLedger
