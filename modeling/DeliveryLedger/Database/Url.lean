import DeliveryLedger.Database.Location
import DeliveryLedger.Fault
import DeliveryLedger.Text.Search
import DeliveryLedger.Text.Word
/-!
Addresses of databases.

The address is given for an asynchronous driver.  `expandUrl` makes the path of a database
file absolute, `syncUrl` drops the driver and expands the home directory, and `storedUrl` is
what an option with percent signs makes of the latter.
-/

namespace DeliveryLedger.Database

/-- The text of an address where the path of a database file begins: everything up to three
slashes, and what follows them. -/
def splitPath? (url : List Char) : Option (List Char × List Char) :=
  (Text.breakOn? "///".toList url).map fun parts => (parts.1 ++ "///".toList, parts.2)

/-- An address with the path of its database file made absolute; addresses of other databases
and of databases in memory stay as they are. -/
def expandUrl (s : Surroundings) (url : String) : String :=
  let cs := url.toList
  if !"sqlite".toList.isPrefixOf cs || Text.hasWord ":memory:".toList cs then url
  else
    match splitPath? cs with
    | none => url
    | some (head, path) =>
      if path = [] then url
      else String.ofList (head ++ Location.absolute s (Location.expandHome s path))

/-- An address without its asynchronous driver. -/
def withoutDriver (url : List Char) : List Char :=
  Text.dropWord "+asyncpg".toList (Text.dropWord "+aiosqlite".toList url)

/-- The address for a driver that is not asynchronous, with the home directory filled in. -/
def syncUrl (s : Surroundings) (url : String) : Except Fault String :=
  let cs := withoutDriver url.toList
  if Text.hasWord "sqlite:///".toList cs then
    match splitPath? cs with
    | some (_, '~' :: rest) =>
      match Location.underHome? s ('~' :: rest) with
      | some path => .ok (String.ofList ("sqlite:///".toList ++ path))
      | none => .error .unknownHome
    | _ => .ok (String.ofList cs)
  else .ok (String.ofList cs)

/-- A text with a single percent sign for each pair of them. -/
def unescapePercent : List Char → List Char
  | '%' :: '%' :: cs => '%' :: unescapePercent cs
  | c :: cs => c :: unescapePercent cs
  | [] => []

/-- The text that an option gives back: percent signs have to come in pairs, and each pair
stands for one. -/
def optionText (value : String) : Except Fault String :=
  let unpaired := Text.dropWord "%%".toList value.toList
  match unpaired.findIdx? (· = '%') with
  | some position => .error (.stray value position)
  | none => .ok (String.ofList (unescapePercent value.toList))

/-- The address as the migration tool reads it back from its options. -/
def storedUrl (s : Surroundings) (url : String) : Except Fault String := do
  optionText (← syncUrl s url)

/-! ### Engines -/

/-- How connections are kept. -/
inductive Pool where
  /-- A single connection for everybody. -/
  | shared
  | queue
deriving DecidableEq, Repr

structure Engine where
  dialect : String
  driver : String
  pool : Pool
deriving DecidableEq, Repr

/-- The parts of an address: dialect and driver, the server, the database and the options. -/
structure UrlParts where
  dialect : List Char
  driver : List Char
  server : List Char
  database : List Char
  options : List Char

/-- A character of the name that an address begins with. -/
def isSchemeChar (c : Char) : Bool := Text.isWord c || c == '+'

/-- The parts of an address, if it is one. -/
def urlParts? (url : List Char) : Option UrlParts :=
  let scheme := url.takeWhile isSchemeChar
  match scheme, url.dropWhile isSchemeChar with
  | [], _ => none
  | scheme, ':' :: '/' :: '/' :: rest =>
    let isEnd (c : Char) : Bool := c == '/' || c == '?'
    let path := rest.dropWhile (!isEnd ·)
    some {
      dialect := scheme.takeWhile (· ≠ '+')
      driver := (scheme.dropWhile (· ≠ '+')).drop 1
      server := rest.takeWhile (!isEnd ·)
      database := (path.takeWhile (· ≠ '?')).drop 1
      options := (path.dropWhile (· ≠ '?')).drop 1 }
  | _, _ => none

/-- The fault of a text that is no address. -/
def notAnAddress : Fault :=
  .foreign .argument "Could not parse SQLAlchemy URL from given URL string"

/-- The fault of a driver that is not asynchronous. -/
def notAsynchronous (driver : String) : Fault :=
  .foreign .invalidRequest ("The asyncio extension requires an async driver to be used. " ++
    "The loaded '" ++ driver ++ "' is not async.")

/-- The fault of a database file with a server. -/
def serverWithoutUse (url : String) : Fault :=
  .foreign .argument ("Invalid SQLite URL: " ++ url ++
    "\nValid SQLite URL forms are sqlite:///:memory: or sqlite:////absolute/path/to/file.db")

/-- The address names a file, and the options do not put the database into memory. -/
def UrlParts.namesFile (u : UrlParts) : Bool :=
  u.database ≠ [] && String.ofList u.database ≠ ":memory:" &&
    !(Text.splitAt '&' u.options).contains "mode=memory".toList

/-- The driver of a dialect if the address does not name one. -/
def defaultDriver (dialect : String) : String :=
  if dialect = "sqlite" then "pysqlite"
  else if dialect = "postgresql" then "psycopg2"
  else ""

/-- The engine for an address: connections to a database in memory are shared, because each
would see a database of its own. -/
def engine (s : Surroundings) (given : String) : Except Fault Engine := do
  let url := expandUrl s given
  match urlParts? url.toList with
  | none => .error notAnAddress
  | some u =>
    let dialect := String.ofList u.dialect
    let driver := if u.driver = [] then defaultDriver dialect else String.ofList u.driver
    let isFile := dialect = "sqlite"
    if isFile ∧ u.server ≠ [] then .error (serverWithoutUse url)
    else if driver ≠ "aiosqlite" ∧ driver ≠ "asyncpg" then .error (notAsynchronous driver)
    else if isFile ∧ (Text.hasWord ":memory:".toList url.toList || !u.namesFile) then
      .ok ⟨dialect, driver, .shared⟩
    else .ok ⟨dialect, driver, .queue⟩

end DeliveryLedger.Database
