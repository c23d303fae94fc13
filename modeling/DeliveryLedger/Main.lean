import DeliveryLedger.Archive
import DeliveryLedger.CommandLine.Session
import DeliveryLedger.Database.Url
import Std.Time.DateTime.Timestamp
/-!
The command line of the ledger, on records that are kept in a file.

Only this module touches the world: it reads the variables, the clock and the file, has the
command carried out, shows what it printed, and writes the file back.
-/

namespace DeliveryLedger.CommandLine

/-- The content of a file, if it can be read. -/
def contentOf? (path : String) : IO (Option String) := do
  try
    pure (some (← IO.FS.readFile path))
  catch _ => pure none

/-- The variables of the settings that are there. -/
def knownVariables : IO Settings.Variables := do
  let mut found := []
  for name in "COURIER_LOG_FILE" :: Settings.variableNames do
    match ← IO.getEnv name with
    | some value => found := found ++ [(name, some value)]
    | none => pure ()
  pure found

/-- The sources of the settings; a configuration file has to be JSON. -/
def sources : IO SettingsSources := do
  let file ← match ← IO.getEnv "COURIER_CONFIG_FILE" with
    | some path => contentOf? path
    | none => pure none
  pure { given := [], surroundings := ← knownVariables, dotenv := ← contentOf? ".env",
         file := file.bind Json.parse? }

def surroundings : IO Database.Surroundings := do
  let home := (← IO.getEnv "HOME").getD "/"
  let here ← IO.currentDir
  pure { home := home, workingDirectory := toString here, accounts := [] }

/-- The file with the records of a database: it lies beside the one that the address names. -/
def recordFile? (s : Database.Surroundings) (url : String) : Option String :=
  if Text.hasWord ":memory:".toList url.toList then none
  else
    match Database.splitPath? (Database.expandUrl s url).toList with
    | some (_, path) => if path = [] then none else some (String.ofList path ++ ".jsonl")
    | none => none

/-- The clock at the present. -/
def presentClock : IO Clock := do
  let now ← Std.Time.Timestamp.now
  pure ⟨Instant.ofEpochMicros (now.toNanosecondsSinceUnixEpoch.val / 1000)⟩

/-- The installation with the records of a file; a file that is there was migrated. -/
def installation (sources : SettingsSources) (clock : Clock) (content : Option String) :
    Installation :=
  let rows := ((content.bind Archive.read?).getD []).map Row.ofRecord
  let node := Node.start (ModuleSpace.initial []) clock (.table ⟨rows, []⟩)
  { node, classes := [], entryPoints := [], sources, migrated := content.isSome }

/-- A file written, after its directory was made. -/
def save (path content : String) : IO Unit := do
  let directory := (path.toList.reverse.dropWhile (· ≠ '/')).reverse
  IO.FS.createDirAll (String.ofList directory)
  IO.FS.writeFile path content

/-- What a command printed shown to the user. -/
def present (o : Console.Output) : IO Unit := do
  let o := o.finish
  for line in o.out ++ Console.tableLines (o.table.getD []) do
    IO.println line
  for line in o.err do
    IO.eprintln line

/-- A command carried out on the records that the settings point to. -/
def carryOut (command : Command) : IO UInt32 := do
  let sources ← sources
  let around ← surroundings
  let path := match sources.load with
    | .ok settings => recordFile? around settings.database.url
    | .error _ => none
  let content ← match path with
    | some path => contentOf? path
    | none => pure none
  let (ending, after) := command.run (installation sources (← presentClock) content)
  present ending.output
  match path with
  | some path => if after.migrated then save path (Archive.write after.node.store.records)
  | none => pure ()
  match ending.exit with
  | .ok code => pure code.toUInt32
  | .error fault =>
    IO.eprintln fault.message
    pure 1

end DeliveryLedger.CommandLine

/-- Carries out the command that the arguments spell. -/
def main (args : List String) : IO UInt32 := do
  match DeliveryLedger.CommandLine.Command.ofWords args with
  | .ok command => DeliveryLedger.CommandLine.carryOut command
  | .error fault =>
    IO.eprintln ("courier: " ++ fault.message)
    pure 1
